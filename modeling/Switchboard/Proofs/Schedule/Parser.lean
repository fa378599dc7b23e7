import Mathlib.Algebra.Group.Nat.Defs
import Switchboard.Proofs.Schedule.Word

/-!
# Switchboard.Proofs.Schedule.Parser

Files of rules, written and read.

1. `Renders r tokens` says that words are those of a rule, in any order: each part is said
   once, the start before the end, and what says nothing may stand anywhere.  Words are
   read one after the other (`foldlM_addWord`), and in the end they have told the rule
   (`told_eq`).
2. `Spaced words line` puts blanks around words, and `Lists lines rules` puts blank lines
   and comments around the lines of rules.
3. Lines that list rules are read as those rules, and rules that can be written are
   listed by some lines (`parse_listed`).
-/

namespace Switchboard.Schedule

open Text

/-! ## the words of a rule -/

namespace Part

/-- The parts that say a time. -/
def isTime : Part → Bool
  | .start | .stop | .window => true
  | _ => false

/-- The other parts that say something. -/
def facts : List Part := [.script, .place, .year, .month, .day, .weekdays]

end Part

/-- What a rule says, but for its times. -/
def Rule.mentions (r : Rule) : Part → Bool
  | .script => true
  | .place => r.group.isSome || r.event.isSome
  | .year => r.year.isSome
  | .month => r.month.isSome
  | .day => r.day.isSome
  | .weekdays => r.weekdays.isSome
  | _ => false

/-- The words for the times of a rule, in their order. -/
inductive Times (r : Rule) : List Part → Prop
  | none : r.start = none → r.stop = none → Times r []
  | start : r.start.isSome = true → r.stop = none → Times r [.start]
  | both : r.start.isSome = true → r.stop.isSome = true → Times r [.start, .stop]
  | window : r.start.isSome = true → r.stop.isSome = true → Times r [.window]

/-- Words with the parts that they are for, which are those of a rule. -/
structure Renders (r : Rule) (tokens : List (Part × List Char)) : Prop where
  words : ∀ t ∈ tokens, Says r t.1 t.2
  facts : ((tokens.map Prod.fst).filter (· ∈ Part.facts)).Perm (Part.facts.filter r.mentions)
  times : Times r ((tokens.map Prod.fst).filter Part.isTime)

section
variable {r : Rule} {tokens : List (Part × List Char)} {a b : List Part} {part : Part}

/-- Only the end of a window has something before it. -/
theorem Times.split (h : Times r (a ++ part :: b)) :
    part ≠ .stop ∧ a = [] ∨ part = .stop ∧ a = [.start] := by
  generalize he : a ++ part :: b = parts at h
  cases h with
  | none _ _ => simp at he
  | start _ _ | window _ _ =>
      cases a with
      | nil =>
          obtain ⟨rfl, -⟩ := List.cons.inj he
          exact .inl ⟨by decide, rfl⟩
      | cons x a => simp at he
  | both _ _ =>
      rcases a with _ | ⟨x, _ | ⟨y, a⟩⟩
      · obtain ⟨rfl, -⟩ := List.cons.inj he
        exact .inl ⟨by decide, rfl⟩
      · simp only [List.cons_append, List.nil_append, List.cons.injEq] at he
        obtain ⟨rfl, rfl, -⟩ := he
        exact .inr ⟨rfl, rfl⟩
      · simp at he

/-- There is a word for the script. -/
theorem Renders.ne_nil (h : Renders r tokens) : tokens ≠ [] := by
  rintro rfl
  have hscript : Part.script ∈ Part.facts.filter r.mentions :=
    List.mem_filter.mpr ⟨by decide, rfl⟩
  exact absurd (h.facts.mem_iff.mpr hscript) List.not_mem_nil

/-- Every word can follow those before it. -/
theorem Renders.follows (h : Renders r tokens) (hs : tokens.map Prod.fst = a ++ part :: b) :
    part.follows a := by
  have htimes := h.times
  have hfacts : ((tokens.map Prod.fst).filter (· ∈ Part.facts)).Nodup :=
    h.facts.nodup_iff.mpr ((by decide : Part.facts.Nodup).filter _)
  rw [hs, List.filter_append] at htimes hfacts
  have hnone : a.filter Part.isTime = [] → ∀ p ∈ a, p.isTime = false := fun hnil p hp => by
    simpa using List.filter_eq_nil_iff.mp hnil p hp
  cases part with
  | script =>
      intro hmem
      rw [List.filter_cons_of_pos (by decide)] at hfacts
      exact (List.nodup_append.mp hfacts).2.2 _ (List.mem_filter.mpr ⟨hmem, by decide⟩) _
        List.mem_cons_self rfl
  | start | window =>
      rw [List.filter_cons_of_pos (by rfl)] at htimes
      obtain ⟨-, hnil⟩ | ⟨habsurd, -⟩ := htimes.split
      · have hfree := hnone hnil
        exact ⟨fun hp => absurd (hfree _ hp) (by decide),
          fun hp => absurd (hfree _ hp) (by decide), fun hp => absurd (hfree _ hp) (by decide)⟩
      · contradiction
  | stop =>
      rw [List.filter_cons_of_pos (by rfl)] at htimes
      obtain ⟨habsurd, -⟩ | ⟨-, hone⟩ := htimes.split
      · exact absurd rfl habsurd
      · have hmem : ∀ p, p.isTime = true → (p ∈ a ↔ p = .start) := fun p hp => by
          rw [← List.mem_singleton, ← hone, List.mem_filter]
          simp [hp]
        exact ⟨(hmem _ rfl).mpr rfl, fun hp => absurd ((hmem _ rfl).mp hp) (by decide),
          fun hp => absurd ((hmem _ rfl).mp hp) (by decide)⟩
  | place | year | month | day | weekdays | always => trivial

/-- Words are read one after the other. -/
theorem foldlM_addWord (he : Expressible r) (hwords : ∀ t ∈ tokens, Says r t.1 t.2)
    {done : List Part} (hf : ∀ a part b, done ++ tokens.map Prod.fst = a ++ part :: b →
      part.follows a) :
    (tokens.map Prod.snd).foldlM addWord (r.told done) =
      .ok (r.told (done ++ tokens.map Prod.fst)) := by
  induction tokens generalizing done with
  | nil => exact congrArg (fun parts => Except.ok (r.told parts)) (List.append_nil done).symm
  | cons t tokens ih =>
      obtain ⟨hfirst, hrest⟩ := List.forall_mem_cons.mp hwords
      rw [List.map_cons, List.foldlM_cons, addWord_told he hfirst (hf done t.1 _ rfl)]
      have hassoc : done ++ (t :: tokens).map Prod.fst = done ++ [t.1] ++ tokens.map Prod.fst := by
        simp
      rw [hassoc] at hf ⊢
      exact ih hrest hf

/-- Every time of a rule has a word. -/
theorem Times.said {times : List Part} (h : Times r times) :
    (r.start.isSome = true → .start ∈ times ∨ .window ∈ times) ∧
      (r.stop.isSome = true → .stop ∈ times ∨ .window ∈ times) := by
  cases h with
  | none hs he => simp [hs, he]
  | start _ he => simp [he]
  | both _ _ | window _ _ => simp

/-- What is told whenever there is something to tell is told. -/
theorem ite_told {α : Type} {x : Option α} {p : Prop} [Decidable p] (h : x.isSome = true → p) :
    (if p then x else none) = x := by
  cases x with
  | none => exact ite_self none
  | some _ => exact if_pos (h rfl)

/-- All its words together tell a rule. -/
theorem told_eq (h : Renders r tokens) : r.told (tokens.map Prod.fst) = r := by
  have hfact : ∀ p ∈ Part.facts, r.mentions p = true → p ∈ tokens.map Prod.fst := by
    intro p hp hm
    exact (List.mem_filter.mp (h.facts.mem_iff.mpr (List.mem_filter.mpr ⟨hp, hm⟩))).1
  have hgroup : r.group.isSome = true → Part.place ∈ tokens.map Prod.fst :=
    fun hg => hfact .place (by decide) (Bool.or_eq_true_iff.mpr (.inl hg))
  have hevent : r.event.isSome = true → Part.place ∈ tokens.map Prod.fst :=
    fun he => hfact .place (by decide) (Bool.or_eq_true_iff.mpr (.inr he))
  have htimes : ∀ p q, p ∈ (tokens.map Prod.fst).filter Part.isTime ∨
      q ∈ (tokens.map Prod.fst).filter Part.isTime →
      p ∈ tokens.map Prod.fst ∨ q ∈ tokens.map Prod.fst := fun p q hpq =>
    hpq.imp (fun hp => (List.mem_filter.mp hp).1) (fun hq => (List.mem_filter.mp hq).1)
  unfold Rule.told
  rw [ite_told hgroup, ite_told hevent, if_pos (hfact .script (by decide) rfl),
    ite_told (hfact .year (by decide)), ite_told (hfact .month (by decide)),
    ite_told (hfact .day (by decide)), ite_told (hfact .weekdays (by decide)),
    ite_told fun hs => htimes _ _ (h.times.said.1 hs),
    ite_told fun he => htimes _ _ (h.times.said.2 he)]

end

/-! ## lines -/

/-- Blanks within a line. -/
def Gap (cs : List Char) : Prop := ∀ c ∈ cs, isBlank c = true ∧ c ≠ '\n'

instance (cs : List Char) : Decidable (Gap cs) := List.decidableBAll _ cs

/-- What comes after a word: a blank, or nothing. -/
def Ends (cs : List Char) : Prop := ∀ c ∈ cs.head?, isBlank c = true

instance (cs : List Char) : Decidable (Ends cs) :=
  match h : cs.head? with
  | none => .isTrue (by simp [Ends, h])
  | some c => decidable_of_iff (isBlank c = true) (by simp [Ends, h])

/-- A line holds words with blanks between them, and perhaps around them. -/
inductive Spaced : List (List Char) → List Char → Prop
  | none {gap : List Char} : Gap gap → Spaced [] gap
  | word {gap word rest : List Char} {words : List (List Char)} : Gap gap → Ends rest →
      Spaced words rest → Spaced (word :: words) (gap ++ (word ++ rest))

/-- Lines of rules, with blank lines and comments around them. -/
inductive Lists : List (List Char) → List Rule → Prop
  | done : Lists [] []
  | blank {gap : List Char} {lines : List (List Char)} {rules : List Rule} : Gap gap →
      Lists lines rules → Lists (gap :: lines) rules
  | comment {gap text : List Char} {lines : List (List Char)} {rules : List Rule} : Gap gap →
      '\n' ∉ text → Lists lines rules → Lists ((gap ++ '#' :: text) :: lines) rules
  | rule {r : Rule} {tokens : List (Part × List Char)} {line : List Char}
      {lines : List (List Char)} {rules : List Rule} : Renders r tokens →
      Spaced (tokens.map Prod.snd) line → Lists lines rules → Lists (line :: lines) (r :: rules)

section
variable {r : Rule} {tokens : List (Part × List Char)} {line : List Char}
  {ws lines : List (List Char)} {rules : List Rule}

/-- A gap is made of blanks. -/
theorem Gap.blanks {gap : List Char} (h : Gap gap) : ∀ c ∈ gap, isBlank c = true :=
  fun c hc => (h c hc).1

/-- Words are found again whatever gaps stand between them. -/
theorem words_of_spaced (h : Spaced ws line) (hw : ∀ w ∈ ws, w ≠ [] ∧ Solid w) :
    words line = ws := by
  induction h with
  | none hgap => exact words_of_blanks hgap.blanks
  | word hgap hrest _ ih =>
      obtain ⟨⟨hne, hsolid⟩, hws⟩ := List.forall_mem_cons.mp hw
      rw [words_after_blanks hgap.blanks, words_cons hne hsolid hrest, ih hws]

/-- Neither blanks nor words divide a line. -/
theorem not_mem_of_spaced (h : Spaced ws line) (hw : ∀ w ∈ ws, Solid w) : '\n' ∉ line := by
  induction h with
  | none hgap => exact fun hmem => (hgap _ hmem).2 rfl
  | word hgap _ _ ih =>
      obtain ⟨hsolid, hws⟩ := List.forall_mem_cons.mp hw
      intro hmem
      rcases List.mem_append.mp hmem with hmem | hmem
      · exact (hgap _ hmem).2 rfl
      · rcases List.mem_append.mp hmem with hmem | hmem
        · exact absurd (hsolid _ hmem) (by decide)
        · exact ih hws hmem

/-- The line of a rule is no remark, and holds the rule. -/
theorem ruleOf_of_spaced (he : Expressible r) (h : Renders r tokens)
    (hs : Spaced (tokens.map Prod.snd) line) :
    isRemark (trim line) = false ∧ ruleOf (trim line) = .ok r := by
  have hwords : ∀ w ∈ tokens.map Prod.snd, w ≠ [] ∧ Solid w ∧ w.head? ≠ some '#' := by
    intro w hw
    obtain ⟨t, ht, rfl⟩ := List.mem_map.mp hw
    exact shape_of_word he (h.words t ht)
  have hread : words (trim line) = tokens.map Prod.snd := by
    rw [words_trim]
    exact words_of_spaced hs fun w hw => ⟨(hwords w hw).1, (hwords w hw).2.1⟩
  constructor
  · have hne : tokens.map Prod.snd ≠ [] := by simpa using h.ne_nil
    generalize tokens.map Prod.snd = ws at hs hwords hne
    cases hs with
    | none _ => exact absurd rfl hne
    | @word gap word rest words hgap _ _ =>
        obtain ⟨hword, hsolid, hhash⟩ := hwords word List.mem_cons_self
        obtain ⟨c, cs, rfl⟩ := List.exists_cons_of_ne_nil hword
        obtain ⟨tail, htail⟩ :=
          trim_of_blanks hgap.blanks (hsolid c List.mem_cons_self) (cs ++ rest)
        rw [List.cons_append, htail]
        simpa [isRemark] using hhash
  · have hblank : r.told [] = Rule.blank := by simp [Rule.told, Rule.blank]
    have hfold : (tokens.map Prod.snd).foldlM addWord (r.told []) = _ :=
      foldlM_addWord he h.words fun a part b hs => h.follows hs
    rw [List.nil_append, told_eq h, hblank] at hfold
    have hscript : r.script.isEmpty = false := by
      rw [← Bool.not_eq_true, String.isEmpty_iff]
      intro hempty
      have hhead := he.script.1
      rw [hempty] at hhead
      contradiction
    simp only [ruleOf, hread, hfold, bind, Except.bind, hscript]
    rfl

/-! ## files -/

/-- What lies between the blanks of numbered lines. -/
def trimmed (numbered : List (Nat × List Char)) : List (List Char) :=
  numbered.map fun line => trim line.2

/-- A line matters by what lies between its blanks. -/
theorem rulesOf_lists (he : ∀ r ∈ rules, Expressible r) (h : Lists lines rules)
    {numbered : List (Nat × List Char)} (hn : trimmed numbered = lines.map trim) :
    rulesOf numbered = .ok rules := by
  unfold trimmed at hn
  induction h generalizing numbered with
  | done =>
      rw [List.map_nil, List.map_eq_nil_iff] at hn
      rw [hn]
      rfl
  | @blank gap lines rules hgap _ ih =>
      obtain ⟨⟨n, raw⟩, rest, rfl, hraw, hrest⟩ := List.map_eq_cons_iff.mp hn
      have hremark : isRemark (trim raw) = true := by
        rw [hraw, trim_blanks hgap.blanks]
        rfl
      rw [rulesOf, if_pos hremark]
      exact ih he hrest
  | @comment gap text lines rules hgap _ _ ih =>
      obtain ⟨⟨n, raw⟩, rest, rfl, hraw, hrest⟩ := List.map_eq_cons_iff.mp hn
      obtain ⟨tail, htail⟩ := trim_of_blanks hgap.blanks (c := '#') (by decide) text
      have hremark : isRemark (trim raw) = true := by
        rw [hraw, htail]
        rfl
      rw [rulesOf, if_pos hremark]
      exact ih he hrest
  | @rule r tokens line lines rules hr hs _ ih =>
      obtain ⟨⟨n, raw⟩, rest, rfl, hraw, hrest⟩ := List.map_eq_cons_iff.mp hn
      obtain ⟨hfirst, hothers⟩ := List.forall_mem_cons.mp he
      obtain ⟨hremark, hrule⟩ := ruleOf_of_spaced hfirst hr hs
      have hraw : trim raw = trim line := hraw
      simp only [rulesOf, hraw, hremark, hrule, ih hothers hrest, Bool.false_eq_true, if_false]
      rfl

/-- A blank line at the end does not matter. -/
theorem rulesOf_concat {numbered : List (Nat × List Char)} {n : Nat} :
    rulesOf (numbered ++ [(n, [])]) = rulesOf numbered := by
  induction numbered with
  | nil => rfl
  | cons first rest ih =>
      obtain ⟨k, raw⟩ := first
      rw [List.cons_append, rulesOf, rulesOf, ih]

/-- No line holds a line feed. -/
theorem not_mem_of_lists (he : ∀ r ∈ rules, Expressible r) (h : Lists lines rules) :
    ∀ line ∈ lines, '\n' ∉ line := by
  induction h with
  | done => exact List.forall_mem_nil _
  | blank hgap _ ih =>
      exact List.forall_mem_cons.mpr ⟨fun hmem => (hgap _ hmem).2 rfl, ih he⟩
  | comment hgap htext _ ih =>
      refine List.forall_mem_cons.mpr ⟨fun hmem => ?_, ih he⟩
      rcases List.mem_append.mp hmem with hmem | hmem
      · exact (hgap _ hmem).2 rfl
      · exact htext ((List.mem_cons.mp hmem).resolve_left (by decide))
  | rule hr hs _ ih =>
      obtain ⟨hfirst, hothers⟩ := List.forall_mem_cons.mp he
      refine List.forall_mem_cons.mpr ⟨not_mem_of_spaced hs fun w hw => ?_, ih hothers⟩
      obtain ⟨t, ht, rfl⟩ := List.mem_map.mp hw
      exact (shape_of_word hfirst (hr.words t ht)).2.1

/-- Numbered lines are the lines, but for blanks around them. -/
theorem trimmed_numberedLines (cs : List Char) :
    trimmed (numberedLines cs) = (Text.lines cs).map trim := by
  refine List.ext_getElem ?_ fun i _ _ => ?_
  · simp [trimmed, numberedLines]
  · simp [trimmed, numberedLines]

/-- Lines that are joined by line feeds are those of the text, but for blanks.  An empty
line at the end is none. -/
theorem trimmed_intercalate (hne : lines ≠ []) (h : ∀ line ∈ lines, '\n' ∉ line) :
    trimmed (numberedLines (['\n'].intercalate lines)) = lines.map trim ∨
      trimmed (numberedLines (['\n'].intercalate lines) ++ [(0, [])]) = lines.map trim := by
  have happend (more : List (Nat × List Char)) :
      trimmed (numberedLines (['\n'].intercalate lines) ++ more) =
        trimmed (numberedLines (['\n'].intercalate lines)) ++ trimmed more := List.map_append
  rw [happend, trimmed_numberedLines]
  exact map_lines_intercalate trim_dropReturn hne h

/-- Lines that list rules are read as those rules. -/
theorem parse_lists (he : ∀ r ∈ rules, Expressible r) (h : Lists lines rules) :
    parse (String.ofList (['\n'].intercalate lines)) = .ok rules := by
  rw [parse, String.toList_ofList]
  rcases List.eq_nil_or_concat lines with rfl | ⟨init, last, rfl⟩
  · cases h
    rfl
  · rcases trimmed_intercalate (by simp) (not_mem_of_lists he h) with htrim | htrim
    · exact rulesOf_lists he h htrim
    · rw [← rulesOf_concat (n := 0)]
      exact rulesOf_lists he h htrim

end

/-! ## writing rules -/

/-- The last digits of a number. -/
def digits : Nat → Nat → List Char
  | 0, _ => []
  | k + 1, n => digits k (n / 10) ++ [Nat.digitChar (n % 10)]

/-- So many digits, which denote a number up to a power of ten. -/
theorem digits_spec (k n : Nat) :
    (digits k n).length = k ∧ (digits k n).all isDigit = true ∧
      value (digits k n) = n % 10 ^ k := by
  have hdigit : ∀ d < 10, isDigit (Nat.digitChar d) = true ∧ digitValue (Nat.digitChar d) = d := by
    decide
  induction k generalizing n with
  | zero => exact ⟨rfl, rfl, by simp [digits, value, Nat.mod_one]⟩
  | succ k ih =>
      obtain ⟨hlen, hall, hvalue⟩ := ih (n / 10)
      obtain ⟨hlast, hlastValue⟩ := hdigit (n % 10) (Nat.mod_lt n (by decide))
      refine ⟨by simp [digits, hlen], by simp [digits, hall, hlast], ?_⟩
      have hconcat : value (digits (k + 1) n) =
          10 * value (digits k (n / 10)) + digitValue (Nat.digitChar (n % 10)) := by
        simp [digits, value, List.foldl_append]
      rw [hconcat, hvalue, hlastValue, Nat.pow_succ', Nat.mod_mul]
      omega

/-- One digit or more make a numeral. -/
theorem isNumeral_digits (k n : Nat) : isNumeral (digits (k + 1) n) = true := by
  obtain ⟨hlen, hall, -⟩ := digits_spec (k + 1) n
  have hne : digits (k + 1) n ≠ [] := List.ne_nil_of_length_pos (by omega)
  simp [isNumeral, hne, hall]

/-- A number with no more digits is denoted by them. -/
theorem value_digits {k n : Nat} (h : n < 10 ^ k) : value (digits k n) = n :=
  (digits_spec k n).2.2.trans (Nat.mod_eq_of_lt h)

/-- Every axis can be written. -/
theorem exists_stands (axis : Option String) : ∃ g, Stands g axis := by
  cases axis with
  | none => exact ⟨_, .star⟩
  | some s => exact ⟨_, .name s⟩

/-- Every minute of the day can be written. -/
theorem exists_clock {t : Nat} (h : t < 1440) : ∃ w, Clock t w := by
  have hhour : value (digits 2 (t / 60)) = t / 60 := value_digits (by omega)
  have hminute : value (digits 2 (t % 60)) = t % 60 := value_digits (by omega)
  have hhours : isNumeral (digits 2 (t / 60)) = true := isNumeral_digits 1 _
  have hminutes : isNumeral (digits 2 (t % 60)) = true := isNumeral_digits 1 _
  have hclock := Clock.mk hhours hminutes (by omega) (by omega)
  rw [hhour, hminute, Nat.mul_comm, Nat.div_add_mod] at hclock
  exact ⟨_, hclock⟩

/-- A mark spells itself. -/
theorem spelled_mark {mark : String} (h : mark ∈ monthMarks ++ weekdayMarks) :
    Spelled mark mark.toList := by
  have hmarks : ∀ m ∈ monthMarks ++ weekdayMarks,
      m.toList.map Char.toLower = m.toList ∧ m.toList.all Char.isAlpha = true := by decide
  obtain ⟨hsmall, hletters⟩ := hmarks mark h
  exact ⟨⟨[], by rw [List.append_nil, hsmall]⟩, List.all_eq_true.mp hletters⟩

section
variable {r : Rule} {part : Part}

/-- There is a word for everything that a rule says. -/
theorem exists_word (he : Expressible r) (hm : r.mentions part = true) : ∃ w, Says r part w := by
  cases part with
  | script => exact ⟨_, .script⟩
  | place =>
      obtain ⟨g, hg⟩ := exists_stands r.group
      obtain ⟨e, hevent⟩ := exists_stands r.event
      exact ⟨_, .place hg hevent⟩
  | year =>
      obtain ⟨y, hy⟩ := Option.isSome_iff_exists.mp hm
      obtain ⟨hlow, hhigh⟩ := he.year y hy
      have hvalue : value (digits 4 y.toNat) = y.toNat := value_digits (by omega)
      refine ⟨_, .year (isNumeral_digits 3 y.toNat) (digits_spec 4 _).1 ?_⟩
      rw [hvalue, hy, Int.toNat_of_nonneg hlow]
  | month =>
      obtain ⟨m, hm⟩ := Option.isSome_iff_exists.mp hm
      obtain ⟨hlow, hhigh⟩ := he.month m hm
      have hlt : m - 1 < monthMarks.length := by
        have hlen : monthMarks.length = 12 := rfl
        omega
      refine ⟨_, .month (m := m - 1) ?_ (List.getElem?_eq_getElem hlt)
        (spelled_mark (List.mem_append_left _ (List.getElem_mem hlt)))⟩
      rw [hm, Nat.sub_add_cancel hlow]
  | day =>
      obtain ⟨d, hd⟩ := Option.isSome_iff_exists.mp hm
      obtain ⟨hlow, hhigh⟩ := he.day d hd
      have hvalue : value (digits 2 d) = d := value_digits (by omega)
      refine ⟨_, .day (isNumeral_digits 1 d) (by rw [(digits_spec 2 d).1]; decide) ?_⟩
      rw [hvalue, hd]
  | weekdays =>
      obtain ⟨days, hd⟩ := Option.isSome_iff_exists.mp hm
      obtain ⟨a, ha, b, hb, hspan⟩ := he.weekdays days hd
      exact ⟨_, .weekdays hd hspan (List.getElem?_eq_getElem ha) (List.getElem?_eq_getElem hb)
        (spelled_mark (List.mem_append_right _ (List.getElem_mem ha)))
        (spelled_mark (List.mem_append_right _ (List.getElem_mem hb)))⟩
  | start | stop | window | always => contradiction

/-- Every window of time can be written. -/
theorem exists_times (he : Expressible r) :
    ∃ times, Times r times ∧ ∀ p ∈ times, p.isTime = true ∧ ∃ w, Says r p w := by
  cases hs : r.start with
  | none =>
      have hstop : r.stop = none := by
        cases hstop : r.stop with
        | none => rfl
        | some b => simpa [hs] using he.window (by simp [hstop])
      exact ⟨[], .none hs hstop, List.forall_mem_nil _⟩
  | some a =>
      obtain ⟨v, hv⟩ := exists_clock (he.start a hs)
      have hstart : Part.isTime .start = true ∧ ∃ w, Says r .start w := ⟨rfl, v, .start hs hv⟩
      cases hstop : r.stop with
      | none =>
          exact ⟨[.start], .start (by simp [hs]) hstop, List.forall_mem_singleton.mpr hstart⟩
      | some b =>
          obtain ⟨w, hw⟩ := exists_clock (he.stop b hstop)
          exact ⟨[.start, .stop], .both (by simp [hs]) (by simp [hstop]),
            List.forall_mem_cons.mpr ⟨hstart,
              List.forall_mem_singleton.mpr ⟨rfl, w, .stop hstop hw⟩⟩⟩

/-- Parts that can be said can be said one by one. -/
theorem exists_tokens {parts : List Part} (h : ∀ p ∈ parts, ∃ w, Says r p w) :
    ∃ tokens : List (Part × List Char),
      tokens.map Prod.fst = parts ∧ ∀ t ∈ tokens, Says r t.1 t.2 := by
  induction parts with
  | nil => exact ⟨[], rfl, List.forall_mem_nil _⟩
  | cons p parts ih =>
      obtain ⟨⟨w, hw⟩, hrest⟩ := List.forall_mem_cons.mp h
      obtain ⟨tokens, htokens, hwords⟩ := ih hrest
      exact ⟨(p, w) :: tokens, by rw [List.map_cons, htokens],
        List.forall_mem_cons.mpr ⟨hw, hwords⟩⟩

/-- Every rule that can be expressed can be rendered. -/
theorem exists_renders (he : Expressible r) : ∃ tokens, Renders r tokens := by
  obtain ⟨times, htimes, hsaid⟩ := exists_times he
  have hfacts : ∀ p ∈ Part.facts.filter r.mentions, p ∈ Part.facts ∧ r.mentions p = true :=
    fun p hp => List.mem_filter.mp hp
  have hapart : ∀ p, p.isTime = true → p ∉ Part.facts := by
    intro p hp
    cases p <;> first | contradiction | decide
  have hall : ∀ p ∈ Part.facts.filter r.mentions ++ times, ∃ w, Says r p w := fun p hp =>
    (List.mem_append.mp hp).elim (fun hp => exists_word he (hfacts p hp).2)
      fun hp => (hsaid p hp).2
  obtain ⟨tokens, hparts, hwords⟩ := exists_tokens hall
  refine ⟨tokens, hwords, ?_, ?_⟩
  · have hkept : (Part.facts.filter r.mentions).filter (· ∈ Part.facts) =
        Part.facts.filter r.mentions :=
      List.filter_eq_self.mpr fun p hp => by simpa using (hfacts p hp).1
    have hnone : times.filter (· ∈ Part.facts) = [] :=
      List.filter_eq_nil_iff.mpr fun p hp => by simpa using hapart p (hsaid p hp).1
    rw [hparts, List.filter_append, hkept, hnone, List.append_nil]
  · have hnone : (Part.facts.filter r.mentions).filter Part.isTime = [] :=
      List.filter_eq_nil_iff.mpr fun p hp ht => hapart p ht (hfacts p hp).1
    have hkept : times.filter Part.isTime = times :=
      List.filter_eq_self.mpr fun p hp => (hsaid p hp).1
    rwa [hparts, List.filter_append, hkept, hnone, List.nil_append]

/-- All words can be put on a line. -/
theorem exists_spaced (ws : List (List Char)) : ∃ line, Spaced ws line ∧ Ends line := by
  induction ws with
  | nil => exact ⟨[], .none (List.forall_mem_nil _), nofun⟩
  | cons w ws ih =>
      obtain ⟨rest, hrest, hhead⟩ := ih
      refine ⟨[' '] ++ (w ++ rest), .word ?_ hhead hrest, ?_⟩
      · exact List.forall_mem_singleton.mpr (by decide)
      · rintro c hc
        obtain rfl := Option.some.inj hc
        decide

/-- All rules that can be expressed can be listed. -/
theorem exists_lists {rules : List Rule} (he : ∀ r ∈ rules, Expressible r) :
    ∃ lines, Lists lines rules := by
  induction rules with
  | nil => exact ⟨[], .done⟩
  | cons r rules ih =>
      obtain ⟨hfirst, hrest⟩ := List.forall_mem_cons.mp he
      obtain ⟨tokens, htokens⟩ := exists_renders hfirst
      obtain ⟨line, hline, -⟩ := exists_spaced (tokens.map Prod.snd)
      obtain ⟨lines, hlines⟩ := ih hrest
      exact ⟨line :: lines, .rule htokens hline hlines⟩

end

/-- Rules that can be written are listed by some lines, and whatever lines list them, the
text of those lines is read as the rules, in their order. -/
theorem parse_listed (rules : List Rule) (he : ∀ r ∈ rules, Expressible r) :
    (∃ lines, Lists lines rules) ∧
      ∀ lines, Lists lines rules →
        parse (String.ofList (['\n'].intercalate lines)) = .ok rules :=
  ⟨exists_lists he, fun _ h => parse_lists he h⟩

/-- A rule for the calls that come in on a holiday. -/
def holiday : Rule :=
  ⟨none, some "incoming", "@holiday", some 2025, some 12, some 25, none, none, none⟩

/-- A rule for nights from Friday to Monday. -/
def weekend : Rule := ⟨none, none, "@weekend", none, none, none, some 113, some 1320, some 390⟩

theorem expressible_holiday : Expressible holiday where
  script := by decide
  group := nofun
  event := by rintro _ ⟨⟩; decide
  year := by rintro _ ⟨⟩; decide
  month := by rintro _ ⟨⟩; decide
  day := by rintro _ ⟨⟩; decide
  weekdays := nofun
  start := nofun
  stop := nofun
  window := nofun

/-- From Friday to Monday, four days around the end of the week. -/
theorem spans_weekend : Spans 113 4 0 := by
  have hspan : weekdaySpan 4 0 = 113 := by decide
  exact hspan ▸ spans_weekdaySpan (by decide) (by decide)

theorem expressible_weekend : Expressible weekend where
  script := by decide
  group := nofun
  event := nofun
  year := nofun
  month := nofun
  day := nofun
  weekdays := by
    rintro _ ⟨⟩
    exact ⟨4, by decide, 0, by decide, spans_weekend⟩
  start := by rintro _ ⟨⟩; decide
  stop := by rintro _ ⟨⟩; decide
  window := fun _ => rfl

/-- The words for the holiday. -/
def holidayTokens : List (Part × List Char) :=
  [(.place, "*/incoming".toList), (.year, "2025".toList), (.month, "Dec".toList),
    (.day, "25".toList), (.script, "@holiday".toList)]

theorem renders_holiday : Renders holiday holidayTokens := by
  refine ⟨?_, by decide, .none rfl rfl⟩
  have hplace : Says holiday .place (['*'] ++ '/' :: "incoming".toList) :=
    .place .star (.name "incoming")
  have hmonth : Says holiday .month "Dec".toList :=
    .month (m := 11) rfl rfl ⟨by decide, List.all_eq_true.mp rfl⟩
  simp only [holidayTokens, List.forall_mem_cons]
  exact ⟨hplace, .year (by decide) (by decide) (by decide), hmonth,
    .day (by decide) (by decide) (by decide), .script, nofun⟩

/-- The words for the weekend, the script before its times. -/
def weekendTokens : List (Part × List Char) :=
  [(.script, "@weekend".toList), (.weekdays, "fr-MONDAY".toList),
    (.window, "22:00-06:30".toList), (.always, "Daily".toList)]

theorem renders_weekend : Renders weekend weekendTokens := by
  refine ⟨?_, by decide, .window rfl rfl⟩
  have hdays : Says weekend .weekdays ("fr".toList ++ '-' :: "MONDAY".toList) :=
    .weekdays (a := 4) (b := 0) rfl spans_weekend rfl rfl
      ⟨by decide, List.all_eq_true.mp rfl⟩ ⟨by decide, List.all_eq_true.mp rfl⟩
  have htimes : Says weekend .window ("22:00".toList ++ '-' :: "06:30".toList) :=
    .window (a := 1320) (b := 390) rfl rfl
      (.mk (h := "22".toList) (m := "00".toList) (by decide) (by decide) (by decide) (by decide))
      (.mk (h := "06".toList) (m := "30".toList) (by decide) (by decide) (by decide) (by decide))
  simp only [weekendTokens, List.forall_mem_cons]
  exact ⟨.script, hdays, htimes, .everyDay (by decide), nofun⟩

/-- A file with a comment, an empty line, and a carriage return. -/
def calendarLines : List (List Char) :=
  ["# group/event  when  script".toList, "*/incoming\t2025 Dec 25 @holiday\r".toList, [],
    "  @weekend fr-MONDAY 22:00-06:30 Daily".toList, []]

theorem spaced_holiday :
    Spaced (holidayTokens.map Prod.snd) "*/incoming\t2025 Dec 25 @holiday\r".toList :=
  @Spaced.word [] "*/incoming".toList _ _ (by decide) (by decide)
    (@Spaced.word ['\t'] "2025".toList _ _ (by decide) (by decide)
      (@Spaced.word [' '] "Dec".toList _ _ (by decide) (by decide)
        (@Spaced.word [' '] "25".toList _ _ (by decide) (by decide)
          (@Spaced.word [' '] "@holiday".toList _ _ (by decide) (by decide)
            (@Spaced.none ['\r'] (by decide))))))

theorem spaced_weekend :
    Spaced (weekendTokens.map Prod.snd) "  @weekend fr-MONDAY 22:00-06:30 Daily".toList :=
  @Spaced.word [' ', ' '] "@weekend".toList _ _ (by decide) (by decide)
    (@Spaced.word [' '] "fr-MONDAY".toList _ _ (by decide) (by decide)
      (@Spaced.word [' '] "22:00-06:30".toList _ _ (by decide) (by decide)
        (@Spaced.word [' '] "Daily".toList _ _ (by decide) (by decide)
          (@Spaced.none [] (by decide)))))

theorem lists_calendar : Lists calendarLines [holiday, weekend] :=
  @Lists.comment [] " group/event  when  script".toList _ _ (by decide) (by decide)
    (.rule renders_holiday spaced_holiday
      (.blank (by decide) (.rule renders_weekend spaced_weekend (.blank (by decide) .done))))

theorem parse_listed_calendar :
    (∀ r ∈ [holiday, weekend], Expressible r) ∧ Lists calendarLines [holiday, weekend] ∧
      String.ofList (['\n'].intercalate calendarLines) =
        "# group/event  when  script\n*/incoming\t2025 Dec 25 @holiday\r\n\n" ++
          "  @weekend fr-MONDAY 22:00-06:30 Daily\n" ∧
      parse (String.ofList (['\n'].intercalate calendarLines)) = .ok [holiday, weekend] := by
  have he : ∀ r ∈ [holiday, weekend], Expressible r :=
    List.forall_mem_cons.mpr ⟨expressible_holiday,
      List.forall_mem_singleton.mpr expressible_weekend⟩
  exact ⟨he, lists_calendar, by decide, (parse_listed _ he).2 _ lists_calendar⟩

end Switchboard.Schedule
