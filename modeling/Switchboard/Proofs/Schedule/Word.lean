import Switchboard.Proofs.Text.Letters
import Switchboard.Proofs.Text.Numeral
import Switchboard.Proofs.Text.Pieces
import Switchboard.Schedule.Parser

/-!
# Switchboard.Proofs.Schedule.Word

What the words of a rule say.

1. `Expressible` are the rules that words can say, and `Says r part w` means that `w` is a
   word for a part of the rule `r`: the script, group and event, a date, weekdays, times,
   or nothing at all.
2. Words are told apart by a chain of tests.  A word for a part passes none of the tests
   before its own, whatever has been read: digits begin no month, no weekday is taken for
   a month (`no_month_of_weekday`), and no letters are taken for every day.
3. `r.told parts` is the rule `r` as far as some parts tell it, and one more word adds its
   part (`addWord_told`).
-/

namespace Switchboard.Schedule

open Text

/-! ## rules and words -/

/-- A text without blanks. -/
def Solid (cs : List Char) : Prop := ∀ c ∈ cs, isBlank c = false

instance (cs : List Char) : Decidable (Solid cs) := List.decidableBAll _ cs

/-- The weekdays from one to another, around the end of the week if need be: those that are
no further from the first than the last one is. -/
def Spans (days first last : Nat) : Prop :=
  ∀ i, days.testBit i = true ↔ i < 7 ∧ (i + 7 - first) % 7 ≤ (last + 7 - first) % 7

/-- Rules that can be written in a file. -/
structure Expressible (r : Rule) : Prop where
  script : r.script.toList.head? = some '@' ∧ Solid r.script.toList
  group : ∀ g ∈ r.group, g ≠ "" ∧ g ≠ "*" ∧ Solid g.toList ∧ '/' ∉ g.toList ∧
    g.toList.head? ≠ some '@' ∧ g.toList.head? ≠ some '#'
  event : ∀ e ∈ r.event, e ≠ "" ∧ e ≠ "*" ∧ Solid e.toList
  year : ∀ y ∈ r.year, 0 ≤ y ∧ y ≤ 9999
  month : ∀ m ∈ r.month, 1 ≤ m ∧ m ≤ 12
  day : ∀ d ∈ r.day, 1 ≤ d ∧ d ≤ 31
  weekdays : ∀ days ∈ r.weekdays, ∃ first < 7, ∃ last < 7, Spans days first last
  start : ∀ t ∈ r.start, t < 1440
  stop : ∀ t ∈ r.stop, t < 1440
  window : r.stop.isSome = true → r.start.isSome = true

/-- What a word can be about.  A window is both of its times in one word. -/
inductive Part where
  | script | place | year | month | day | weekdays | start | stop | window | always
deriving Repr, DecidableEq

/-- A name stands for itself; the star and the empty text stand for all. -/
inductive Stands : List Char → Option String → Prop
  | name (s : String) : Stands s.toList (some s)
  | star : Stands ['*'] none
  | empty : Stands [] none

/-- A word of letters that begins with a mark, small or capital. -/
structure Spelled (mark : String) (w : List Char) : Prop where
  mark : mark.toList <+: w.map Char.toLower
  letters : ∀ c ∈ w, c.isAlpha = true

/-- A minute of the day, as hours and minutes. -/
inductive Clock : Nat → List Char → Prop
  | mk {h m : List Char} : isNumeral h = true → isNumeral m = true → value h < 24 →
      value m < 60 → Clock (value h * 60 + value m) (h ++ ':' :: m)

/-- A word for a part of a rule. -/
inductive Says (r : Rule) : Part → List Char → Prop
  | script : Says r .script r.script.toList
  | place {g e : List Char} : Stands g r.group → Stands e r.event →
      Says r .place (g ++ '/' :: e)
  | year {w : List Char} : isNumeral w = true → w.length = 4 → r.year = some (value w : Int) →
      Says r .year w
  | month {m : Nat} {mark : String} {w : List Char} : r.month = some (m + 1) →
      monthMarks[m]? = some mark → Spelled mark w → Says r .month w
  | day {w : List Char} : isNumeral w = true → w.length ≠ 4 → r.day = some (value w) →
      Says r .day w
  | weekday {days d : Nat} {mark : String} {w : List Char} : r.weekdays = some days →
      Spans days d d → weekdayMarks[d]? = some mark → Spelled mark w → Says r .weekdays w
  | weekdays {days a b : Nat} {first last : String} {v w : List Char} :
      r.weekdays = some days → Spans days a b → weekdayMarks[a]? = some first →
      weekdayMarks[b]? = some last → Spelled first v → Spelled last w →
      Says r .weekdays (v ++ '-' :: w)
  | start {t : Nat} {w : List Char} : r.start = some t → Clock t w → Says r .start w
  | stop {t : Nat} {w : List Char} : r.stop = some t → Clock t w → Says r .stop w
  | window {a b : Nat} {v w : List Char} : r.start = some a → r.stop = some b → Clock a v →
      Clock b w → Says r .window (v ++ '-' :: w)
  | everyDay {w : List Char} : String.ofList (w.map Char.toLower) ∈ everyDay → Says r .always w
  | everyone {g e : List Char} : r.group = none → r.event = none → Stands g none →
      Stands e none → Says r .always (g ++ '/' :: e)

/-! ## characters -/

section
variable {c : Char} {w : List Char}

/-- Digits are the same in small letters. -/
theorem toLower_of_isDigit (h : isDigit c = true) : c.toLower = c := by
  have hc := bounds_of_isDigit h
  refine (toLower_eq_iff ?_ c).mpr rfl
  refine Bool.or_eq_false_iff.mpr ⟨?_, ?_⟩
  · simp only [← Bool.not_eq_true, isUpper_iff]
    omega
  · simp only [← Bool.not_eq_true, isLower_iff]
    omega

/-- Blanks are no letters. -/
theorem isBlank_of_toLower (h : isBlank c.toLower = false) : isBlank c = false := by
  rw [← Bool.not_eq_true]
  intro hc
  have hletter : c.isAlpha = false := by
    rw [← Bool.not_eq_true]
    intro halpha
    simp [isBlank_of_isAlpha halpha] at hc
  rw [(toLower_eq_iff hletter c).mpr rfl, hc] at h
  contradiction

/-- Words that are solid are so when put together by a character that is no blank. -/
theorem Solid.append_cons {v : List Char} (hv : Solid v) (hc : isBlank c = false)
    (hw : Solid w) : Solid (v ++ c :: w) :=
  List.forall_mem_append.mpr ⟨hv, List.forall_mem_cons.mpr ⟨hc, hw⟩⟩

/-- What is no digit is in no numeral. -/
theorem not_mem_of_digits {d : Char} (hw : ∀ c ∈ w, isDigit c = true) (hd : isDigit d = false) :
    d ∉ w := fun hmem => by simp [hw d hmem] at hd

/-- What is no letter is in no word of letters. -/
theorem not_mem_of_letters {d : Char} (hw : ∀ c ∈ w, c.isAlpha = true)
    (hd : d.isAlpha = false) : d ∉ w := fun hmem => by simp [hw d hmem] at hd

/-- A word does not begin with what it does not hold. -/
theorem head?_ne_of_not_mem {d : Char} (h : d ∉ w) : w.head? ≠ some d :=
  fun hhead => h (List.mem_of_mem_head? (Option.mem_def.mpr hhead))

/-- A number is the same in small letters. -/
theorem map_toLower_of_digits (hw : ∀ c ∈ w, isDigit c = true) : w.map Char.toLower = w := by
  rw [List.map_congr_left fun c hc => toLower_of_isDigit (hw c hc), List.map_id']

end

/-! ## marks -/

section
variable {marks : List String} {mark : String} {cs w : List Char} {n i : Nat}

/-- A mark is found where it stands among others of its length. -/
theorem markOf?_eq (hlen : ∀ m ∈ marks, m.toList.length = n) (hnd : marks.Nodup)
    (hi : marks[i]? = some mark) (hp : mark.toList <+: cs) : markOf? marks cs = some i := by
  obtain ⟨hlt, rfl⟩ := List.getElem?_eq_some_iff.mp hi
  refine List.findIdx?_eq_some_iff_getElem.mpr ⟨hlt, List.isPrefixOf_iff_prefix.mpr hp, ?_⟩
  intro j hj hpj
  have hpj : marks[j].toList <+: cs := List.isPrefixOf_iff_prefix.mp hpj
  have hsame : marks[j].toList.length = marks[i].toList.length := by
    rw [hlen _ (List.getElem_mem _), hlen _ (List.getElem_mem _)]
  have heq : marks[j] = marks[i] :=
    String.toList_inj.mp ((List.prefix_of_prefix_length_le hpj hp hsame.le).eq_of_length hsame)
  exact List.pairwise_iff_getElem.mp hnd j i _ hlt hj heq

/-- A word that begins with the mark of a month is that month. -/
theorem month?_eq (hi : monthMarks[i]? = some mark) (hp : mark.toList <+: cs) :
    month? cs = some (i + 1) := by
  have hlen : ∀ m ∈ monthMarks, m.toList.length = 3 := by decide
  rw [month?, markOf?_eq hlen (by decide) hi hp]
  rfl

/-- A word that begins with the mark of a weekday is that weekday. -/
theorem weekdayOf?_eq (hi : weekdayMarks[i]? = some mark) (hp : mark.toList <+: cs) :
    markOf? weekdayMarks cs = some i := by
  have hlen : ∀ m ∈ weekdayMarks, m.toList.length = 2 := by decide
  exact markOf?_eq hlen (by decide) hi hp

/-- No word that names a weekday is taken for a month. -/
theorem no_month_of_weekday (hm : mark ∈ weekdayMarks) (hp : mark.toList <+: cs) :
    month? cs = none := by
  have hapart : ∀ d ∈ weekdayMarks, ∀ m ∈ monthMarks,
      d.toList.length ≤ m.toList.length ∧ d.toList.isPrefixOf m.toList = false := by decide
  have hnone : markOf? monthMarks cs = none := by
    refine List.findIdx?_eq_none_iff.mpr fun m hmem => ?_
    obtain ⟨hle, hno⟩ := hapart mark hm m hmem
    rw [← Bool.not_eq_true, List.isPrefixOf_iff_prefix]
    intro hpm
    have hdm := List.prefix_of_prefix_length_le hp hpm hle
    rw [← List.isPrefixOf_iff_prefix, hno] at hdm
    contradiction
  rw [month?, hnone]
  rfl

/-- A word that names a month or a weekday neither means every day nor is a numeral. -/
theorem not_everyDay_of_mark (hm : mark ∈ monthMarks ++ weekdayMarks) (hp : mark.toList <+: cs) :
    everyDay.contains (String.ofList cs) = false ∧ cs.all isDigit = false := by
  have hapart : ∀ m ∈ monthMarks ++ weekdayMarks,
      (∀ e ∈ everyDay, m.toList.isPrefixOf e.toList = false) ∧ m.toList.all isDigit = false := by
    decide
  obtain ⟨hevery, hdigits⟩ := hapart mark hm
  constructor
  · rw [← Bool.not_eq_true, List.contains_iff_mem]
    intro he
    have hpe := hevery _ he
    rw [String.toList_ofList, ← Bool.not_eq_true, List.isPrefixOf_iff_prefix] at hpe
    exact hpe hp
  · rw [← Bool.not_eq_true, List.all_eq_true] at hdigits ⊢
    exact fun hall => hdigits fun c hc => hall c (hp.subset hc)

/-- No month or weekday is spelled by the empty word. -/
theorem Spelled.ne_nil (hm : mark ∈ monthMarks ++ weekdayMarks) (hw : Spelled mark w) :
    w ≠ [] := by
  have hne : ∀ m ∈ monthMarks ++ weekdayMarks, m.toList ≠ [] := by decide
  rintro rfl
  exact hne mark hm (List.prefix_nil.mp hw.mark)

theorem Spelled.solid (hw : Spelled mark w) : Solid w :=
  fun c hc => isBlank_of_isAlpha (hw.letters c hc)

/-- From one weekday to another, around the end of the week if it must be. -/
theorem spans_weekdaySpan {first last : Nat} (hf : first < 7) (hl : last < 7) :
    Spans (weekdaySpan first last) first last := by
  have hspan : ∀ a < 7, ∀ b < 7, weekdaySpan a b < 2 ^ 7 ∧ ∀ i < 7,
      (weekdaySpan a b).testBit i = decide ((i + 7 - a) % 7 ≤ (b + 7 - a) % 7) := by decide
  obtain ⟨hlt, hbits⟩ := hspan first hf last hl
  intro i
  by_cases hi : i < 7
  · rw [hbits i hi]
    simp [hi]
  · have hpow : 2 ^ 7 ≤ 2 ^ i := Nat.pow_le_pow_right (by decide) (by omega)
    have hhigh : (weekdaySpan first last).testBit i = false :=
      Nat.testBit_lt_two_pow (Nat.lt_of_lt_of_le hlt hpow)
    rw [hhigh]
    simp [hi]

/-- Bits are all there is to a set of weekdays. -/
theorem weekdaySpan_eq {days first last : Nat} (hf : first < 7) (hl : last < 7)
    (h : Spans days first last) : days = weekdaySpan first last := by
  refine Nat.eq_of_testBit_eq fun i => ?_
  rw [Bool.eq_iff_iff, h i, spans_weekdaySpan hf hl i]

end

/-! ## times -/

section
variable {t : Nat} {w : List Char}

/-- A number below the bound is read as what it denotes. -/
theorem readNat_eq {bound : Nat} (h : isNumeral w = true) (hv : value w < bound) :
    readNat bound w = some (value w) :=
  readNat_eq_some_iff.mpr ⟨⟨w, .inl rfl, h, rfl⟩, hv⟩

/-- A time of the day is read as the minute it denotes. -/
theorem time?_eq (h : Clock t w) : time? w = some t := by
  obtain ⟨hh, hm, hhour, hminute⟩ := h
  have hcolon := not_mem_of_digits (d := ':') (digits_of_isNumeral hh).2 (by decide)
  have hbound : 60 < wordBound 32 := by decide
  simp only [time?, cut?_append hcolon, Option.bind_eq_bind, Option.bind_some,
    readNat_eq hh (by omega : _ < wordBound 32), readNat_eq hm (by omega : _ < wordBound 32)]
  rw [if_pos ⟨hhour, hminute⟩]

/-- A time is made of digits and a colon. -/
theorem Clock.chars (h : Clock t w) : w ≠ [] ∧ ':' ∈ w ∧ ∀ c ∈ w, isDigit c = true ∨ c = ':' := by
  obtain ⟨hh, hm, -, -⟩ := h
  refine ⟨by simp, by simp, fun c hc => ?_⟩
  rcases List.mem_append.mp hc with hc | hc
  · exact .inl ((digits_of_isNumeral hh).2 c hc)
  · rcases List.mem_cons.mp hc with rfl | hc
    · exact .inr rfl
    · exact .inl ((digits_of_isNumeral hm).2 c hc)

/-- A time of the day holds digits and colons only. -/
theorem Clock.not_mem (h : Clock t w) {d : Char} (hd : isDigit d = false) (hc : d ≠ ':') :
    d ∉ w := by
  intro hmem
  rcases h.chars.2.2 d hmem with hdigit | rfl
  · simp [hdigit] at hd
  · exact hc rfl

theorem Clock.solid (h : Clock t w) : Solid w := by
  intro c hc
  rcases h.chars.2.2 c hc with hdigit | rfl
  · exact isBlank_of_isDigit hdigit
  · decide

theorem Clock.map_toLower (h : Clock t w) : w.map Char.toLower = w := by
  have hid : ∀ c ∈ w, c.toLower = c := by
    intro c hc
    rcases h.chars.2.2 c hc with hdigit | rfl
    · exact toLower_of_isDigit hdigit
    · decide
  rw [List.map_congr_left hid, List.map_id']

end

/-! ## one word -/

section
variable {s : Rule} {w : List Char}

/-- The name that stands for an axis is read as that axis. -/
theorem named_of_stands {axis : Option String} (hs : Stands w axis)
    (h : ∀ name ∈ axis, name ≠ "" ∧ name ≠ "*") : named w = axis := by
  cases hs with
  | name s =>
      obtain ⟨hempty, hstar⟩ := h s rfl
      have hne : s.toList ≠ [] := by simpa using hempty
      have hns : s.toList ≠ ['*'] := fun he => hstar (String.toList_inj.mp (he.trans rfl))
      simp [named, hne, hns]
  | star | empty => rfl

/-- The word for a group and an event begins with neither mark of a line. -/
theorem head?_of_stands {axis : Option String} {g : List Char} (hs : Stands g axis)
    (h : ∀ name ∈ axis, name ≠ "" ∧ name.toList.head? ≠ some '@' ∧ name.toList.head? ≠ some '#')
    (e : List Char) :
    (g ++ '/' :: e).head? ≠ some '@' ∧ (g ++ '/' :: e).head? ≠ some '#' := by
  cases hs with
  | name s =>
      obtain ⟨hempty, hat, hhash⟩ := h s rfl
      obtain ⟨c, cs, hc⟩ := List.exists_cons_of_ne_nil (l := s.toList) (by simpa using hempty)
      rw [hc] at hat hhash ⊢
      exact ⟨hat, hhash⟩
  | star | empty => exact ⟨by simp, by simp⟩

/-- A name without a slash is written without one. -/
theorem not_mem_of_stands {axis : Option String} {g : List Char} (hs : Stands g axis)
    (h : ∀ name ∈ axis, '/' ∉ name.toList) : '/' ∉ g := by
  cases hs with
  | name s => exact h s rfl
  | star | empty => decide

/-- A solid name is written as a solid word. -/
theorem solid_of_stands {axis : Option String} (hs : Stands w axis)
    (h : ∀ name ∈ axis, Solid name.toList) : Solid w := by
  cases hs with
  | name s => exact h s rfl
  | star => exact List.forall_mem_singleton.mpr (by decide)
  | empty => exact List.forall_mem_nil _

/-- A word with an `@` gives the script, if none was given. -/
theorem addWord_script (hw : w.head? = some '@') (hs : s.script = "") :
    addWord s w = .ok { s with script := String.ofList w } := by
  simp [addWord, hw, hs]

/-- A word with a slash says the group and the event. -/
theorem addWord_place {g e : List Char} {group event : Option String}
    (hhead : (g ++ '/' :: e).head? ≠ some '@') (hslash : '/' ∉ g) (hg : named g = group)
    (he : named e = event) : addWord s (g ++ '/' :: e) = .ok { s with group, event } := by
  simp only [addWord]
  rw [if_neg hhead, cut?_append hslash]
  simp only [hg, he]

/-- Words with a colon are times. -/
theorem addWord_times (hhead : '@' ∉ w) (hslash : '/' ∉ w) (hcolon : ':' ∈ w)
    (hlow : w.map Char.toLower = w) : addWord s w =
      (pieces (· == '-') w).foldlM (fun r part => addTime r (String.ofList w) part) s := by
  simp only [addWord, hlow]
  rw [if_neg (head?_ne_of_not_mem hhead), cut?_eq_none hslash]
  simp only [List.contains_iff_mem, hcolon, if_true]

/-- Digits are a year if there are four of them, and else a day. -/
theorem addWord_digits (hw : isNumeral w = true) : addWord s w =
    if w.length = 4 then .ok { s with year := some (value w : Int) }
    else if 1 ≤ value w ∧ value w ≤ 31 then .ok { s with day := some (value w) }
    else .error (.invalidDay (String.ofList w)) := by
  obtain ⟨hne, hdigits⟩ := digits_of_isNumeral hw
  have hat := not_mem_of_digits (d := '@') hdigits (by decide)
  have hslash := not_mem_of_digits (d := '/') hdigits (by decide)
  have hcolon := not_mem_of_digits (d := ':') hdigits (by decide)
  have hall : w.all isDigit = true := List.all_eq_true.mpr hdigits
  have hevery : everyDay.contains (String.ofList w) = false := by
    have hapart : ∀ e ∈ everyDay, e.toList.all isDigit = false := by decide
    rw [← Bool.not_eq_true, List.contains_iff_mem]
    intro he
    have hno := hapart _ he
    rw [String.toList_ofList, hall] at hno
    contradiction
  simp only [addWord, map_toLower_of_digits hdigits]
  rw [if_neg (head?_ne_of_not_mem hat), cut?_eq_none hslash]
  simp only [List.contains_iff_mem, hcolon, hevery, hall, if_true, if_false, Bool.false_eq_true]

/-- Other words are looked at without regard to case. -/
theorem addWord_letters {low : List Char} (hlow : w.map Char.toLower = low) (hat : '@' ∉ w)
    (hslash : '/' ∉ w) (hcolon : ':' ∉ w) (hevery : everyDay.contains (String.ofList low) = false)
    (hdigits : low.all isDigit = false) : addWord s w =
      match month? low with
      | some m => .ok { s with month := some m }
      | none =>
        match weekdays? low with
        | some days => .ok { s with weekdays := some days }
        | none => .error (.unknownWord (String.ofList w)) := by
  have hlowcolon : ¬ low.contains ':' = true := by
    rw [List.contains_iff_mem, ← hlow, mem_map_toLower (by decide)]
    exact hcolon
  simp only [addWord, hlow]
  rw [if_neg (head?_ne_of_not_mem hat), cut?_eq_none hslash]
  exact (if_neg hlowcolon).trans ((if_neg (ne_true_of_eq_false hevery)).trans
    (if_neg (ne_true_of_eq_false hdigits)))

/-- Words for every day say nothing. -/
theorem addWord_everyDay (hw : String.ofList (w.map Char.toLower) ∈ everyDay) :
    addWord s w = .ok s := by
  have hapart : ∀ e ∈ everyDay, '@' ∉ e.toList ∧ '/' ∉ e.toList ∧ ':' ∉ e.toList := by decide
  obtain ⟨hat, hslash, hcolon⟩ := hapart _ hw
  rw [String.toList_ofList] at hat hslash hcolon
  rw [mem_map_toLower (by decide)] at hat hslash
  simp only [addWord]
  rw [if_neg (head?_ne_of_not_mem hat), cut?_eq_none hslash]
  simp only [List.contains_iff_mem, hcolon, hw, if_true, if_false]

/-- A word that spells a month gives it. -/
theorem addWord_month {i : Nat} {mark : String} (hi : monthMarks[i]? = some mark)
    (hw : Spelled mark w) : addWord s w = .ok { s with month := some (i + 1) } := by
  have hmem : mark ∈ monthMarks ++ weekdayMarks :=
    List.mem_append_left _ (List.mem_of_getElem? hi)
  obtain ⟨hevery, hdigits⟩ := not_everyDay_of_mark hmem hw.mark
  rw [addWord_letters rfl (not_mem_of_letters hw.letters (by decide))
    (not_mem_of_letters hw.letters (by decide)) (not_mem_of_letters hw.letters (by decide))
    hevery hdigits, month?_eq hi hw.mark]

/-- A weekday, and two of them with a hyphen, say the weekdays. -/
theorem addWord_weekdays {i days : Nat} {mark : String} {low : List Char}
    (hi : weekdayMarks[i]? = some mark) (hlow : w.map Char.toLower = low) (hp : mark.toList <+: low)
    (hat : '@' ∉ w) (hslash : '/' ∉ w) (hcolon : ':' ∉ w) (hd : weekdays? low = some days) :
    addWord s w = .ok { s with weekdays := some days } := by
  have hmem := List.mem_of_getElem? hi
  obtain ⟨hevery, hdigits⟩ := not_everyDay_of_mark (List.mem_append_right _ hmem) hp
  rw [addWord_letters hlow hat hslash hcolon hevery hdigits, no_month_of_weekday hmem hp]
  simp only [hd]

/-- One weekday is a span of itself. -/
theorem weekdays?_of_one {i : Nat} {mark : String} (hi : weekdayMarks[i]? = some mark)
    (hw : Spelled mark w) : weekdays? (w.map Char.toLower) = some (weekdaySpan i i) := by
  have hhyphen : '-' ∉ w.map Char.toLower :=
    (mem_map_toLower (by decide)).not.mpr (not_mem_of_letters hw.letters (by decide))
  simp only [weekdays?, cut?_eq_none hhyphen, weekdayOf?_eq hi hw.mark]
  rfl

/-- Two weekdays give the span from the first to the second. -/
theorem weekdays?_of_two {i j : Nat} {first last : String} {v : List Char}
    (hi : weekdayMarks[i]? = some first) (hj : weekdayMarks[j]? = some last)
    (hv : Spelled first v) (hw : Spelled last w) :
    weekdays? ((v ++ '-' :: w).map Char.toLower) = some (weekdaySpan i j) := by
  have hhyphen : '-' ∉ v.map Char.toLower :=
    (mem_map_toLower (by decide)).not.mpr (not_mem_of_letters hv.letters (by decide))
  have hmap : (v ++ '-' :: w).map Char.toLower =
      v.map Char.toLower ++ '-' :: w.map Char.toLower := by
    rw [List.map_append, List.map_cons]
    rfl
  rw [hmap, weekdays?, cut?_append hhyphen]
  simp only [weekdayOf?_eq hi hv.mark, weekdayOf?_eq hj hw.mark]
  rfl

/-- A time is the start of a rule that has none, and else the end. -/
theorem addTime_start {t : Nat} {word : String} (h : Clock t w) (hs : s.start = none) :
    addTime s word w = .ok { s with start := some t } := by
  simp [addTime, time?_eq h, hs]

/-- A second time is the end of the window. -/
theorem addTime_stop {t : Nat} {word : String} (h : Clock t w) (hs : s.start.isSome = true)
    (he : s.stop = none) : addTime s word w = .ok { s with stop := some t } := by
  have hstart : s.start.isNone = false := by simp [hs]
  simp [addTime, time?_eq h, hstart, he]

/-- A time of the day holds no dash. -/
theorem pieces_of_clock {t : Nat} (h : Clock t w) : pieces (· == '-') w = [w] := by
  refine pieces_of_none fun c hc => ?_
  rw [beq_eq_false_iff_ne]
  rintro rfl
  exact h.not_mem (by decide) (by decide) hc

/-- A time of the day is added as such. -/
theorem addWord_time {t : Nat} (h : Clock t w) :
    addWord s w = addTime s (String.ofList w) w := by
  rw [addWord_times (h.not_mem (by decide) (by decide)) (h.not_mem (by decide) (by decide))
    h.chars.2.1 h.map_toLower, pieces_of_clock h]
  simp

/-- Two times with a dash between them are both ends of the window. -/
theorem addWord_window {a b : Nat} {v : List Char} (hv : Clock a v) (hw : Clock b w)
    (hs : s.start = none) (he : s.stop = none) :
    addWord s (v ++ '-' :: w) = .ok { s with start := some a, stop := some b } := by
  have hnot : ∀ d, isDigit d = false → d ≠ ':' → d ≠ '-' → d ∉ v ++ '-' :: w := by
    intro d hd hc hh
    simp [hv.not_mem hd hc, hw.not_mem hd hc, hh]
  have hlow : (v ++ '-' :: w).map Char.toLower = v ++ '-' :: w := by
    rw [List.map_append, List.map_cons, hv.map_toLower, hw.map_toLower]
    rfl
  rw [addWord_times (hnot '@' (by decide) (by decide) (by decide))
    (hnot '/' (by decide) (by decide) (by decide)) (List.mem_append_left _ hv.chars.2.1) hlow,
    pieces_append (by decide), pieces_of_clock hv, pieces_of_clock hw]
  have hlast : addTime { s with start := some a } (String.ofList (v ++ '-' :: w)) w =
      .ok { s with start := some a, stop := some b } := addTime_stop hw rfl he
  simp only [List.singleton_append, List.foldlM_cons, List.foldlM_nil, addTime_start hv hs]
  exact congrArg (· >>= pure) hlast

end

/-! ## what words tell -/

/-- A rule as far as some parts tell it. -/
def Rule.told (r : Rule) (parts : List Part) : Rule where
  group := if .place ∈ parts then r.group else none
  event := if .place ∈ parts then r.event else none
  script := if .script ∈ parts then r.script else ""
  year := if .year ∈ parts then r.year else none
  month := if .month ∈ parts then r.month else none
  day := if .day ∈ parts then r.day else none
  weekdays := if .weekdays ∈ parts then r.weekdays else none
  start := if .start ∈ parts ∨ .window ∈ parts then r.start else none
  stop := if .stop ∈ parts ∨ .window ∈ parts then r.stop else none

/-- A part can follow others: there is one script, the end of a window comes after its
start, and a window comes alone. -/
def Part.follows (done : List Part) : Part → Prop
  | .script => .script ∉ done
  | .start | .window => .start ∉ done ∧ .stop ∉ done ∧ .window ∉ done
  | .stop => .start ∈ done ∧ .stop ∉ done ∧ .window ∉ done
  | _ => True

section
variable {r : Rule} {part : Part} {w : List Char} {done : List Part}

/-- One more word tells its part, and nothing else. -/
theorem addWord_told (he : Expressible r) (h : Says r part w) (hf : part.follows done) :
    addWord (r.told done) w = .ok (r.told (done ++ [part])) := by
  cases h with
  | script =>
      rw [addWord_script he.script.1 (by simpa [Rule.told] using fun hmem => absurd hmem hf),
        String.ofList_toList]
      simp [Rule.told]
  | @place g e hg hevent =>
      have hgroup : named g = r.group :=
        named_of_stands hg fun name hn => ⟨(he.group name hn).1, (he.group name hn).2.1⟩
      have hnamed : named e = r.event :=
        named_of_stands hevent fun name hn => ⟨(he.event name hn).1, (he.event name hn).2.1⟩
      have hslash : '/' ∉ g := not_mem_of_stands hg fun name hn => (he.group name hn).2.2.2.1
      have hhead := head?_of_stands hg (fun name hn => ⟨(he.group name hn).1,
        (he.group name hn).2.2.2.2⟩) e
      rw [addWord_place hhead.1 hslash hgroup hnamed]
      simp [Rule.told]
  | year hw hlen hy =>
      rw [addWord_digits hw, if_pos hlen]
      simp [Rule.told, hy]
  | month hm hi hw =>
      rw [addWord_month hi hw]
      simp [Rule.told, hm]
  | day hw hlen hd =>
      rw [addWord_digits hw, if_neg hlen, if_pos (he.day _ hd)]
      simp [Rule.told, hd]
  | @weekday days d mark w hd hspan hi hw =>
      have hlt : d < 7 := (List.getElem?_eq_some_iff.mp hi).1
      rw [addWord_weekdays hi rfl hw.mark (not_mem_of_letters hw.letters (by decide))
        (not_mem_of_letters hw.letters (by decide)) (not_mem_of_letters hw.letters (by decide))
        (weekdays?_of_one hi hw), ← weekdaySpan_eq hlt hlt hspan]
      simp [Rule.told, hd]
  | @weekdays days a b first last v w hd hspan hi hj hv hw =>
      -- a span of days has no mark in it by which a word is taken for something else
      have hnot : ∀ c : Char, c.isAlpha = false → c ≠ '-' → c ∉ v ++ '-' :: w := by
        intro c hc hne
        simp [not_mem_of_letters hv.letters hc, not_mem_of_letters hw.letters hc, hne]
      have hp : first.toList <+: (v ++ '-' :: w).map Char.toLower := by
        rw [List.map_append]
        exact hv.mark.trans (List.prefix_append _ _)
      rw [addWord_weekdays hi rfl hp (hnot '@' (by decide) (by decide))
        (hnot '/' (by decide) (by decide)) (hnot ':' (by decide) (by decide))
        (weekdays?_of_two hi hj hv hw), ← weekdaySpan_eq (List.getElem?_eq_some_iff.mp hi).1
        (List.getElem?_eq_some_iff.mp hj).1 hspan]
      simp [Rule.told, hd]
  | start ht hw =>
      obtain ⟨hstart, hstop, hwindow⟩ := hf
      rw [addWord_time hw, addTime_start hw (by simp [Rule.told, hstart, hwindow])]
      simp [Rule.told, ht]
  | stop ht hw =>
      obtain ⟨hstart, hstop, hwindow⟩ := hf
      have hbegan : r.start.isSome = true := he.window (by simp [ht])
      rw [addWord_time hw, addTime_stop hw (by simpa [Rule.told, hstart] using hbegan)
        (by simp [Rule.told, hstop, hwindow])]
      simp [Rule.told, ht]
  | window ha hb hv hw =>
      obtain ⟨hstart, hstop, hwindow⟩ := hf
      rw [addWord_window hv hw (by simp [Rule.told, hstart, hwindow])
        (by simp [Rule.told, hstop, hwindow])]
      simp [Rule.told, ha, hb]
  | everyDay hw =>
      rw [addWord_everyDay hw]
      simp [Rule.told]
  | @everyone g e hg hevent hsg hse =>
      have hhead := head?_of_stands hsg nofun e
      rw [addWord_place hhead.1 (not_mem_of_stands hsg nofun) (named_of_stands hsg nofun)
        (named_of_stands hse nofun)]
      simp [Rule.told, hg, hevent]

/-- A word has no blanks, and does not make a comment of its line. -/
theorem shape_of_word (he : Expressible r) (h : Says r part w) :
    w ≠ [] ∧ Solid w ∧ w.head? ≠ some '#' := by
  have hnumeral : isNumeral w = true → w ≠ [] ∧ Solid w ∧ w.head? ≠ some '#' := fun hw =>
    have hdigits := (digits_of_isNumeral hw).2
    ⟨(digits_of_isNumeral hw).1, fun c hc => isBlank_of_isDigit (hdigits c hc),
      head?_ne_of_not_mem (not_mem_of_digits hdigits (by decide))⟩
  cases h with
  | script =>
      obtain ⟨hhead, hsolid⟩ := he.script
      refine ⟨fun hnil => ?_, hsolid, by simp [hhead]⟩
      rw [hnil] at hhead
      contradiction
  | @place g e hg hevent =>
      have hgroup : Solid g := solid_of_stands hg fun name hn => (he.group name hn).2.2.1
      have hnamed : Solid e := solid_of_stands hevent fun name hn => (he.event name hn).2.2
      have hhead := head?_of_stands hg (fun name hn => ⟨(he.group name hn).1,
        (he.group name hn).2.2.2.2⟩) e
      exact ⟨by simp, hgroup.append_cons (by decide) hnamed, hhead.2⟩
  | year hw _ _ => exact hnumeral hw
  | day hw _ _ => exact hnumeral hw
  | month _ hi hw =>
      exact ⟨hw.ne_nil (List.mem_append_left _ (List.mem_of_getElem? hi)), hw.solid,
        head?_ne_of_not_mem (not_mem_of_letters hw.letters (by decide))⟩
  | weekday _ _ hi hw =>
      exact ⟨hw.ne_nil (List.mem_append_right _ (List.mem_of_getElem? hi)), hw.solid,
        head?_ne_of_not_mem (not_mem_of_letters hw.letters (by decide))⟩
  | weekdays _ _ _ _ hv hw =>
      refine ⟨by simp, hv.solid.append_cons (by decide) hw.solid, head?_ne_of_not_mem ?_⟩
      have hhash : Char.isAlpha '#' = false := by decide
      simp [not_mem_of_letters hv.letters hhash, not_mem_of_letters hw.letters hhash]
  | start _ hw | stop _ hw =>
      exact ⟨hw.chars.1, hw.solid, head?_ne_of_not_mem (hw.not_mem (by decide) (by decide))⟩
  | window _ _ hv hw =>
      refine ⟨by simp, hv.solid.append_cons (by decide) hw.solid, head?_ne_of_not_mem ?_⟩
      have hhash : isDigit '#' = false := by decide
      simp [hv.not_mem hhash, hw.not_mem hhash]
  | everyDay hw =>
      have hapart : ∀ e ∈ everyDay, e.toList ≠ [] ∧ Solid e.toList ∧ '#' ∉ e.toList := by
        decide
      obtain ⟨hne, hsolid, hhash⟩ := hapart _ hw
      rw [String.toList_ofList] at hne hsolid hhash
      refine ⟨by simpa using hne, fun c hc => ?_, head?_ne_of_not_mem ?_⟩
      · exact isBlank_of_toLower (hsolid _ (List.mem_map_of_mem hc))
      · rwa [mem_map_toLower (by decide)] at hhash
  | @everyone g e _ _ hg hevent =>
      exact ⟨by simp, (solid_of_stands hg nofun).append_cons (by decide)
        (solid_of_stands hevent nofun), (head?_of_stands hg nofun e).2⟩

end

end Switchboard.Schedule
