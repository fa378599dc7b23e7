import Mathlib.Data.Finset.Card
import Mathlib.Data.List.Dedup
import Switchboard.Proofs.Symbols.Table

/-!
# Switchboard.Proofs.Symbols.Given

Symbols that are given texts.

1. A header gets its arguments one after the other, and the last one of a name counts
   (`given`).  They fit if the symbols that the header does not have yet find room
   (`Fits`).
2. One text more is given if there is a symbol for it or room for one
   (`assignScoped_ok`), and is what the name denotes from then on (`lookup?_of_assign`).
-/

namespace Switchboard

namespace Symbols

/-! ## arguments -/

/-- What a scope and a name denote once the header of `scope` was given its arguments. -/
def given (s : Symbols) (scope : Scope) (args : List (String × String)) (key : Scope × String) :
    Option Symbol :=
  match if key.1 = scope then args.reverse.lookup key.2 else none with
  | some text =>
    some (((s.declared? key.1 key.2).getD ⟨key.2, key.1, s.defaultSize, ""⟩).store text)
  | none => s.declared? key.1 key.2

/-- The names of arguments that the header of `scope` has no symbol for. -/
def missing (s : Symbols) (scope : Scope) (args : List (String × String)) : Finset String :=
  (args.map Prod.fst).toFinset.filter fun name => s.declared? scope name = none

/-- The symbols that arguments need find room. -/
def Fits (s : Symbols) (scope : Scope) (args : List (String × String)) : Prop :=
  s.missing scope args = ∅ ∨ s.size + (s.missing scope args).card ≤ s.limit

section
variable {s t : Symbols} {scope : Scope} {name text : String} {args rest : List (String × String)}

theorem given_nil (s : Symbols) (scope : Scope) (key : Scope × String) :
    s.given scope [] key = s.declared? key.1 key.2 := by
  simp [given]

/-- One argument first, and then the others. -/
theorem given_cons (ht : t.defaultSize = s.defaultSize)
    (h : ∀ key, t.declared? key.1 key.2 = s.given scope [(name, text)] key)
    (key : Scope × String) :
    t.given scope rest key = s.given scope ((name, text) :: rest) key := by
  unfold given
  rw [h key, ht]
  by_cases hk : key.1 = scope
  · rw [if_pos hk, if_pos hk, List.reverse_cons, List.lookup_append]
    cases rest.reverse.lookup key.2 with
    | none => simp [given, hk]
    | some last =>
        simp only [given, if_pos hk, List.reverse_singleton, Option.some_or]
        cases [(name, text)].lookup key.2 <;> rfl
  · rw [if_neg hk, if_neg hk]
    simp [given, hk]

/-- A name that the header has is not missing, and another one is, once. -/
theorem missing_cons (rest : List (String × String))
    (h : ∀ key, t.declared? key.1 key.2 = s.given scope [(name, text)] key) :
    name ∉ t.missing scope rest ∧ s.missing scope ((name, text) :: rest) =
      if s.declared? scope name = none then insert name (t.missing scope rest)
      else t.missing scope rest := by
  have hother (other : String) (hne : other ≠ name) :
      t.declared? scope other = s.declared? scope other := by
    rw [h (scope, other)]
    simp [given, List.lookup_cons, beq_eq_false_iff_ne.mpr hne]
  have hname : t.declared? scope name ≠ none := by
    rw [h (scope, name)]
    simp [given]
  refine ⟨by simp [missing, hname], ?_⟩
  ext other
  by_cases hne : other = name
  · subst hne
    split <;> simp_all [missing]
  · split <;> simp [missing, hne, hother other hne]

/-- A header gets its argument if it has a symbol for it, or there is room for one. -/
theorem assignScoped_ok (text : String)
    (h : s.declared? scope name ≠ none ∨ s.size < s.limit) :
    ∃ t, s.assignScoped scope name text = .ok t ∧ t.limit = s.limit ∧
      t.defaultSize = s.defaultSize ∧
      t.size = (if s.declared? scope name = none then s.size + 1 else s.size) ∧
      ∀ key, t.declared? key.1 key.2 = s.given scope [(name, text)] key := by
  have hstored (u : Symbols) (key : Scope × String) :=
    declared?_modify u scope name (f := (·.store text)) (fun _ => rfl) key
  have hlookup (key : Scope × String) :
      (if key.1 = scope then [(name, text)].reverse.lookup key.2 else none) =
        if key = (scope, name) then some text else none := by
    obtain ⟨scope', name'⟩ := key
    by_cases hn : name' = name
    · simp [hn]
    · simp [List.lookup_cons, hn, beq_eq_false_iff_ne.mpr hn]
  unfold assignScoped define
  cases hd : s.declared? scope name with
  | some e =>
      refine ⟨s.modify scope name (·.store text), rfl, rfl, rfl, by simp [size, modify],
        fun key => ?_⟩
      rw [hstored, given, hlookup]
      by_cases hk : key = (scope, name)
      · simp [hk, hd]
      · simp [hk]
  | none =>
      have hroom : ¬ s.limit ≤ s.size := by simpa [hd] using h
      refine ⟨({ s with entries := s.entries ++ [⟨name, scope, s.defaultSize, ""⟩] } :
        Symbols).modify scope name (·.store text), by simp [create, hroom, Except.map], rfl, rfl,
        by simp [size, modify], fun key => ?_⟩
      rw [hstored, declared?_append, given, hlookup]
      by_cases hk : key = (scope, name)
      · simp [hk, hd, Arena.key]
      · simp [hk, Arena.key]

theorem assignScoped_full (h : s.declared? scope name = none) (hfull : s.limit ≤ s.size) :
    s.assignScoped scope name text = .error (.symbolSpaceExhausted s.limit) := by
  simp [assignScoped, define, h, create, hfull, Except.map]

/-- A text that was given is stored, and nothing else changes. -/
theorem given_of_assignScoped (h : s.assignScoped scope name text = .ok t)
    (key : Scope × String) :
    t.declared? key.1 key.2 = s.given scope [(name, text)] key := by
  by_cases hroom : s.declared? scope name ≠ none ∨ s.size < s.limit
  · obtain ⟨u, hu, -, -, -, hgiven⟩ := assignScoped_ok text hroom
    obtain rfl := Except.ok.inj (hu.symm.trans h)
    exact hgiven key
  · obtain ⟨hnone, hfull⟩ := not_or.mp hroom
    rw [assignScoped_full (not_not.mp hnone) (Nat.le_of_not_lt hfull)] at h
    contradiction

/-- After an assignment a name denotes a symbol that holds the text, cut to its size. -/
theorem lookup?_of_assign (h : s.assign scope name text = .ok t) :
    ∃ e, t.lookup? scope name = some e ∧ e.value = Text.cutTo e.size text := by
  have hgiven : ∀ key,
      t.declared? key.1 key.2 = s.given (s.owner scope name) [(name, text)] key :=
    given_of_assignScoped h
  have hstored := hgiven (s.owner scope name, name)
  simp only [given, if_pos, List.reverse_singleton, List.lookup_cons, beq_self_eq_true] at hstored
  have howner : t.owner scope name = s.owner scope name := by
    unfold owner
    by_cases hhere : (s.declared? scope name).isSome = true
    · rw [owner, if_pos hhere] at hstored
      rw [hstored, if_pos hhere, Option.isSome_some, if_pos rfl]
    · rw [if_neg hhere]
      by_cases hwhole : scope = none
      · simp [hwhole]
      · have hkept := hgiven (scope, name)
        rw [owner, if_neg hhere] at hkept
        simp only [given, if_neg hwhole] at hkept
        rw [hkept, if_neg hhere]
  rw [lookup?, howner, hstored]
  exact ⟨_, rfl, rfl⟩

end

end Symbols

end Switchboard
