import Switchboard.Proofs.Text.Letters
import Switchboard.Script.Image

/-!
# Switchboard.Proofs.Script.HeaderNames

The names of headers and their keys.

1. A name loses one leading `@` when it is stored, and its key one more.  So a
   header is found by its name unless that begins with `@@` (`key_bare_iff`).
2. A stored name is alike to a later name with its key if that has no leading `@`,
   and never if it has one (`alike_bare_iff`).
3. An image keeps headers with different keys as they are, and each is found by its
   key; where a key comes twice, there are fewer headers (`nodup_of_size`).
-/

namespace Switchboard

/-! ## keys -/

namespace Header

/-- The letters of a text made small. -/
def small (cs : List Char) : List Char := cs.map Char.toLower

/-- The number of `@` that a name begins with. -/
def marks (name : String) : Nat := (name.toList.takeWhile (· == '@')).length

theorem lowered_eq_iff (s t : String) :
    Text.lowered s = Text.lowered t ↔ small s.toList = small t.toList := by
  rw [Text.lowered, Text.lowered, String.ofList_inj]
  rfl

theorem lowered_eq_at_iff (s t : String) :
    Text.lowered s = "@" ++ Text.lowered t ↔ small s.toList = '@' :: small t.toList := by
  simp [← String.toList_inj, Text.lowered, small]

/-- A name begins with `@`, or with none. -/
theorem at_cases (name : String) :
    (∃ cs, name.toList = '@' :: cs ∧ (bare name).toList = cs ∧
      marks name = (cs.takeWhile (· == '@')).length + 1) ∨
    ((∀ cs, small name.toList ≠ '@' :: cs) ∧ bare name = name ∧ marks name = 0) := by
  unfold bare marks
  cases hn : name.toList with
  | nil =>
      refine .inr ⟨nofun, ?_, rfl⟩
      rw [← String.toList_inj, hn]
      rfl
  | cons c cs =>
      by_cases hc : c = '@'
      · subst hc
        exact .inl ⟨cs, rfl, by simp [Text.after?], by simp⟩
      · refine .inr ⟨fun ds h => hc ?_, ?_, by simp [hc]⟩
        · exact (Text.toLower_eq_iff (d := '@') rfl c).1 (List.cons.inj h).1
        · simp [Text.after?, hc, ← hn]

/-- Two names alike have one key. -/
theorem key_of_alike {m n : String} (h : Text.alike m n = true) : key m = key n := by
  have hsame := (lowered_eq_iff m n).1 (beq_iff_eq.1 h)
  rw [key, key, lowered_eq_iff]
  obtain ⟨cs, hm, hbm, -⟩ | ⟨hm, hbm, -⟩ := at_cases m
  · obtain ⟨ds, hn, hbn, -⟩ | ⟨hn, hbn, -⟩ := at_cases n
    · rw [hm, hn] at hsame
      rw [hbm, hbn]
      exact (List.cons.inj hsame).2
    · rw [hm] at hsame
      exact absurd hsame.symm (hn _)
  · obtain ⟨ds, hn, hbn, -⟩ | ⟨hn, hbn, -⟩ := at_cases n
    · rw [hn] at hsame
      exact absurd hsame (hm _)
    · rwa [hbm, hbn]

/-- What is compared when a header begins, in terms of keys. -/
theorem alike_bare_iff (m n : String) :
    Text.alike (bare m) n = true ↔
      (marks n = 0 ∧ key m = key n) ∨ Text.lowered m = "@" ++ Text.lowered n := by
  rw [Text.alike, beq_iff_eq, lowered_eq_iff, key, key, lowered_eq_iff, lowered_eq_at_iff]
  obtain ⟨cs, hm, hbm, -⟩ | ⟨hm, hbm, -⟩ := at_cases m
  · have hfront : small m.toList = '@' :: small n.toList ↔ small cs = small n.toList := by
      rw [hm]
      exact ⟨fun h => (List.cons.inj h).2, fun h => congrArg _ h⟩
    rw [hfront, hbm]
    obtain ⟨ds, hn, hbn, hmarked⟩ | ⟨hn, hbn, hunmarked⟩ := at_cases n
    · simp [hmarked]
    · simp [hunmarked, hbn]
  · rw [hbm]
    obtain ⟨ds, hn, hbn, hmarked⟩ | ⟨hn, hbn, hunmarked⟩ := at_cases n
    · have hapart : small m.toList ≠ small n.toList := by
        rw [hn]
        exact hm _
      simp [hmarked, hm, hapart]
    · simp [hunmarked, hbn, hm]

/-- A header is found by its name unless the name begins with `@@`. -/
theorem key_bare_iff (n : String) : key (bare n) = key n ↔ marks n ≤ 1 := by
  rw [key, key, lowered_eq_iff]
  obtain ⟨cs, hn, hbn, hmarked⟩ | ⟨hn, hbn, hunmarked⟩ := at_cases n
  · rw [hmarked, hbn, ← hbn]
    obtain ⟨ds, hb, hbb, hmore⟩ | ⟨hb, hbb, hnoMore⟩ := at_cases (bare n)
    · have hshorter : small ds ≠ small (bare n).toList := by
        intro h
        have := congrArg List.length h
        simp [small, hb] at this
      rw [marks] at hmore
      simp [hbb, hmore, hshorter]
    · rw [marks] at hnoMore
      simp [hbb, hnoMore]
  · simp [hbn, hunmarked]

end Header

/-! ## keeping headers -/

namespace Image

/-- The keys of headers. -/
def keys (hs : List Header) : List String := hs.map fun h => Header.key h.name

/-- A header with a new key comes last. -/
theorem place_of_fresh {h : Header} {placed : List Header}
    (hfresh : Header.key h.name ∉ keys placed) : place h placed = placed ++ [h] := by
  induction placed with
  | nil => rfl
  | cons g rest ih =>
      obtain ⟨hother, hothers⟩ := not_or.1 fun hm => hfresh (List.mem_cons.2 hm)
      have hdiffers : sameKey g h = false := beq_eq_false_iff_ne.2 (Ne.symm hother)
      rw [place, if_neg (ne_true_of_eq_false hdiffers), ih hothers, List.cons_append]

/-- A header whose key is there already takes a place that there is. -/
theorem length_place {h : Header} {placed : List Header}
    (hthere : Header.key h.name ∈ keys placed) : (place h placed).length = placed.length := by
  induction placed with
  | nil => exact absurd hthere List.not_mem_nil
  | cons g rest ih =>
      rw [place]
      by_cases hsame : sameKey g h = true
      · rw [if_pos hsame]
        rfl
      · have hlater := (List.mem_cons.1 hthere).resolve_left fun he => hsame (beq_iff_eq.2 he.symm)
        rw [if_neg hsame, List.length_cons, ih hlater, List.length_cons]

theorem length_place_le (h : Header) (placed : List Header) :
    (place h placed).length ≤ placed.length + 1 := by
  by_cases hthere : Header.key h.name ∈ keys placed
  · rw [length_place hthere]
    exact Nat.le_succ _
  · rw [place_of_fresh hthere, List.length_append]
    exact Nat.le_refl _

theorem length_foldl_place_le (hs placed : List Header) :
    (hs.foldl (fun placed h => place h placed) placed).length ≤ placed.length + hs.length := by
  induction hs generalizing placed with
  | nil => exact Nat.le_refl _
  | cons h rest ih =>
      have hfirst := length_place_le h placed
      have hothers := ih (place h placed)
      rw [List.foldl_cons, List.length_cons]
      omega

/-- Headers with keys of their own are all kept, in order. -/
theorem foldl_place_of_nodup {hs : List Header} (placed : List Header)
    (hdistinct : (keys (placed ++ hs)).Nodup) :
    hs.foldl (fun placed h => place h placed) placed = placed ++ hs := by
  induction hs generalizing placed with
  | nil => exact (List.append_nil placed).symm
  | cons h rest ih =>
      have hfresh : Header.key h.name ∉ keys placed := by
        rw [keys, List.map_append, List.nodup_append] at hdistinct
        exact fun hm => hdistinct.2.2 _ hm _ List.mem_cons_self rfl
      rw [List.append_cons] at hdistinct ⊢
      rw [List.foldl_cons, place_of_fresh hfresh, ih _ hdistinct]

/-- Where a key comes twice, a header is lost. -/
theorem nodup_of_length_foldl_place {hs : List Header} (placed : List Header)
    (hdistinct : (keys placed).Nodup)
    (hkept : (hs.foldl (fun placed h => place h placed) placed).length =
      placed.length + hs.length) : (keys (placed ++ hs)).Nodup := by
  induction hs generalizing placed with
  | nil => rwa [List.append_nil]
  | cons h rest ih =>
      rw [List.foldl_cons, List.length_cons] at hkept
      by_cases hthere : Header.key h.name ∈ keys placed
      · have hfewer := length_foldl_place_le rest (place h placed)
        have hsame := length_place hthere
        omega
      · rw [place_of_fresh hthere] at hkept
        rw [List.append_cons]
        refine ih _ ?_ (by rw [hkept, List.length_append, List.length_singleton]; omega)
        rw [keys, List.map_append, List.map_singleton, List.nodup_append]
        refine ⟨hdistinct, List.pairwise_singleton _ _, fun k hk k' hk' hsame => hthere ?_⟩
        rwa [← List.mem_singleton.1 hk', ← hsame]

theorem ofHeaders_of_nodup {hs : List Header} (hdistinct : (keys hs).Nodup) :
    ofHeaders hs = ⟨hs⟩ :=
  congrArg Image.mk (foldl_place_of_nodup [] hdistinct)

theorem nodup_of_size {hs : List Header} (hkept : (ofHeaders hs).size = hs.length) :
    (keys hs).Nodup :=
  nodup_of_length_foldl_place [] .nil (hkept.trans (Nat.zero_add _).symm)

/-- Where no two headers have one key, each is found by its own. -/
theorem found_of_nodup {hs : List Header} (hdistinct : (keys hs).Nodup) {i : Nat} {h : Header}
    (hi : hs[i]? = some h) {name : String} (hsame : Header.key h.name = Header.key name) :
    (Image.mk hs).indexOf? name = some i ∧ (Image.mk hs).header? name = some h := by
  obtain ⟨hlt, rfl⟩ := List.getElem?_eq_some_iff.1 hi
  have hearlier : ∀ j (hj : j < i), Header.key hs[j].name ≠ Header.key name := by
    intro j hj he
    have hapart := List.pairwise_iff_getElem.1 (List.pairwise_map.1 hdistinct) j i (by omega) hlt hj
    exact hapart (he.trans hsame.symm)
  constructor
  · refine List.findIdx?_eq_some_iff_getElem.2 ⟨hlt, beq_iff_eq.2 hsame, fun j hj => ?_⟩
    exact fun he => hearlier j hj (beq_iff_eq.1 he)
  · refine List.find?_eq_some_iff_getElem.2 ⟨beq_iff_eq.2 hsame, i, hlt, rfl, fun j hj => ?_⟩
    simpa using hearlier j hj

end Image

end Switchboard
