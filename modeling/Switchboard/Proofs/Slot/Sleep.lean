import Switchboard.Proofs.Number.Numeral
import Switchboard.Proofs.Slot.History

/-!
# Switchboard.Proofs.Slot.Sleep

What comes of `sleep`, whatever number it is asked to wait for.

1. A numeral is a span of time between the greatest number below nought that counts as
   nought and `2 ^ 64` seconds; beyond them it is invalid or too long
   (`Seconds.parse_cases`).
2. So a script that sleeps waits for the seconds that are written, or an error is raised in
   it, or the work is broken off (`Station.turn_of_sleep`).
-/

namespace Switchboard

open Text

/-! ## spans of time -/

namespace Numeral

/-- A numeral as a text. -/
def text (n : Numeral) : String := String.ofList n.chars

/-- No sign is blank. -/
theorem isBlank_sign (sign : Sign) : ∀ c ∈ sign.chars, isBlank c = false := by
  cases sign with
  | bare => exact nofun
  | plus => exact List.forall_mem_singleton.mpr (by decide)
  | minus => exact List.forall_mem_singleton.mpr (by decide)

/-- There are no blanks in a numeral. -/
theorem isBlank_chars (n : Numeral) : ∀ c ∈ n.chars, isBlank c = false := by
  have hdigits : ∀ cs, isNumeral cs = true → ∀ c ∈ cs, isBlank c = false := fun cs h c hc =>
    isBlank_of_isDigit ((digits_of_isNumeral h).2 c hc)
  have hall := List.forall_mem_append.mp (hdigits _ n.digits)
  have hpointed : ∀ c ∈ pointed n.fraction, isBlank c = false := by
    cases hf : n.fraction with
    | none => simp [pointed]
    | some ds =>
        rw [hf] at hall
        exact List.forall_mem_cons.mpr ⟨by decide, hall.2⟩
  have hraised : ∀ c ∈ raised n.power, isBlank c = false := by
    cases hp : n.power with
    | none => simp [raised]
    | some p =>
        obtain ⟨mark, sign, ds⟩ := p
        obtain ⟨hmark, hds⟩ := n.marked _ hp
        have hafter := List.forall_mem_append.mpr ⟨isBlank_sign sign, hdigits ds hds⟩
        refine List.forall_mem_cons.mpr ⟨?_, hafter⟩
        rcases hmark with h | h <;> rw [show mark = _ from h] <;> decide
  simp only [chars, List.forall_mem_append]
  exact ⟨isBlank_sign n.sign, hall.1, hpointed, hraised⟩

/-- A numeral has no blanks around it. -/
theorem trim_chars (n : Numeral) : trim n.chars = n.chars := trim_of_solid n.isBlank_chars

end Numeral

namespace Seconds

/-- Spans of time are too long from this number of seconds on. -/
def longest : ℚ := 2 ^ 64 - 2 ^ 10

/-- A number of seconds below nought counts as nought if it is no further from it. -/
def slack : ℚ := 2 ^ (-1075 : Int)

/-- How far the nanoseconds of a span may be from the number that is written: half of one,
for rounding to nanoseconds, and half of the last place of a binary number. -/
def tolerance (q : ℚ) : ℚ := 1 / 2 + 10 ^ 9 * (|q| / 2 ^ 53 + slack)

/-- There is some slack. -/
theorem slack_pos : 0 < slack := by
  unfold slack
  positivity

/-- It is short. -/
theorem slack_lt_longest : slack < longest := by
  have hslack : slack ≤ 1 := zpow_le_one_of_nonpos₀ one_le_two (by decide)
  have hlongest : (1 : ℚ) < longest := by norm_num [longest]
  linarith

/-- The longest sleep is finite. -/
theorem longest_lt_infinite : longest < Scientific.infinite := by
  calc longest ≤ 2 ^ 64 := sub_le_self _ (by positivity)
    _ ≤ 2 ^ 970 := pow_le_pow_right₀ one_le_two (by decide)
    _ < Scientific.infinite := Scientific.place_lt_infinite

/-- Nanoseconds are no further than half of one from the seconds that they count. -/
theorem abs_nanoseconds_sub (b : Binary) : |(nanoseconds b : ℚ) - 10 ^ 9 * b.toRat| ≤ 1 / 2 := by
  have hpos : 0 < Nat.pow 2 (-b.exponent).toNat := Nat.pow_pos two_pos
  have hround := abs_roundDiv_sub (b.mantissa * Nat.pow 2 b.exponent.toNat * 1000000000) hpos
  have hquotient : ((b.mantissa * Nat.pow 2 b.exponent.toNat * 1000000000 : Nat) : ℚ) /
      (Nat.pow 2 (-b.exponent).toNat : Nat) = 10 ^ 9 * b.toRat := by
    rw [Binary.toRat, ← Binary.pow_toNat_div]
    simp only [Nat.pow_eq]
    push_cast
    ring
  rwa [hquotient] at hround

/-- What is nought when it is rounded is a span of no time. -/
theorem abs_zero_sub {q : ℚ} (h : |q| ≤ slack) : |((0 : Nat) : ℚ) - 10 ^ 9 * q| ≤ tolerance q := by
  have hshare : 0 ≤ |q| / 2 ^ 53 := by positivity
  rw [Nat.cast_zero, zero_sub, abs_neg, abs_mul, abs_of_pos (by positivity), tolerance]
  linarith

/-- The error of a span is that of its two roundings. -/
theorem abs_span_sub {q : ℚ} (hq : 0 ≤ q) {b : Binary} (h : b.Nearest q) :
    |(nanoseconds b : ℚ) - 10 ^ 9 * q| ≤ tolerance q := by
  have hscaled : |10 ^ 9 * b.toRat - 10 ^ 9 * q| ≤ 10 ^ 9 * (q / 2 ^ 53 + slack) := by
    rw [← mul_sub, abs_mul, abs_of_pos (by positivity)]
    exact mul_le_mul_of_nonneg_left h.near (by positivity)
  have hnear := abs_nanoseconds_sub b
  rw [tolerance, abs_of_nonneg hq]
  calc |(nanoseconds b : ℚ) - 10 ^ 9 * q|
      ≤ |(nanoseconds b : ℚ) - 10 ^ 9 * b.toRat| + |10 ^ 9 * b.toRat - 10 ^ 9 * q| :=
        abs_sub_le _ _ _
    _ ≤ 1 / 2 + 10 ^ 9 * (q / 2 ^ 53 + slack) := by linarith

/-- What a number says about a span of time. -/
theorem ofNumber_cases {n : Scientific} (h : ∀ c ∈ n.digits, isDigit c = true) :
    ((n.toRat < -slack ∨ Scientific.infinite ≤ n.toRat) ∧ ofNumber n = .invalid) ∨
      ((longest ≤ n.toRat ∧ n.toRat < Scientific.infinite) ∧ ofNumber n = .tooLong) ∨
      ((-slack ≤ n.toRat ∧ n.toRat < longest) ∧
        ∃ d : Nanoseconds, ofNumber n = .span d ∧ |d - 10 ^ 9 * n.toRat| ≤ tolerance n.toRat) := by
  have hrounded := Scientific.rounded?_nearest h
  have hsize := n.size_nonneg
  have hslack := slack_pos
  have hlongest := slack_lt_longest
  have hinfinity := longest_lt_infinite
  unfold ofNumber Scientific.toRat
  split at hrounded
  · next hinfinite =>
      refine .inl ⟨?_, by rw [hrounded]⟩
      split
      · exact .inl (by linarith)
      · exact .inr hinfinite
  · next hfinite =>
      obtain ⟨b, hb, hnearest⟩ := hrounded
      have hpos : 0 < b.mantissa ↔ slack < n.size := hnearest.pos_iff
      have hlong : b.atLeast 64 = true ↔ longest ≤ n.size := hnearest.atLeast_iff 64
      rw [hb]
      dsimp only
      by_cases hzero : b.mantissa = 0
      · have hsmall : n.size ≤ slack := not_lt.mp (mt hpos.mpr (by omega))
        rw [if_pos hzero]
        refine .inr (.inr ⟨?_, 0, rfl, abs_zero_sub ?_⟩)
        · split <;> constructor <;> linarith
        · split <;> rw [abs_le] <;> constructor <;> linarith
      · have hlarge : slack < n.size := hpos.mp (Nat.pos_of_ne_zero hzero)
        rw [if_neg hzero]
        cases hsign : n.negative with
        | true => exact .inl ⟨.inl (by simpa using hlarge), rfl⟩
        | false =>
            simp only [Bool.false_eq_true, if_false]
            by_cases hlast : longest ≤ n.size
            · exact .inr (.inl ⟨⟨hlast, lt_of_not_ge hfinite⟩, if_pos (hlong.mpr hlast)⟩)
            · refine .inr (.inr ⟨⟨by linarith, lt_of_not_ge hlast⟩, nanoseconds b, ?_, ?_⟩)
              · exact if_neg (mt hlong.mp hlast)
              · exact abs_span_sub hsize hnearest

/-- What a numeral says about a span of time. -/
theorem parse_cases (n : Numeral) :
    ((n.toRat < -slack ∨ Scientific.infinite ≤ n.toRat) ∧ parse n.text = .invalid) ∨
      ((longest ≤ n.toRat ∧ n.toRat < Scientific.infinite) ∧ parse n.text = .tooLong) ∨
      ((-slack ≤ n.toRat ∧ n.toRat < longest) ∧
        ∃ d : Nanoseconds, parse n.text = .span d ∧
          |d - 10 ^ 9 * n.toRat| ≤ tolerance n.toRat) := by
  have hparse : parse n.text = ofNumber n.scientific := by
    rw [parse, Numeral.text, String.toList_ofList, n.trim_chars, n.parse?_chars]
  rw [hparse]
  exact ofNumber_cases (digits_of_isNumeral n.digits).2

end Seconds

namespace Station

variable {σ : Type} {o : Office σ} {x : Station σ} {command : String} {args more : List String}

/-! ## what a command leads to -/

/-- The step breaks the work off, and every turn that begins with it. -/
def Breaks (o : Office σ) (x : Station σ) : Prop :=
  (x.step o).2.signal = .broke ∧ ∀ k, (runFor o (k + 1) x).ledger.broken = true

/-- The step raises an error in the script, which is trapped or ends it, and asks for no
pause. -/
def Raises (o : Office σ) (x : Station σ) (cause : Fault) : Prop :=
  (x.step o).1.slot.interpreter = (x.slot.interpreter.error cause.message).state ∧
    (x.step o).2.signal ≠ .broke ∧ (x.step o).2.wake = none

/-- A step follows the answer to the command of its line. -/
theorem step_of_asked (h : x.slot.interpreter.asked? = some (command, args)) :
    let answer := Errand.execute o.adapter command args (.start x.slot.device)
    let after := x.slot.interpreter.settled (x.slot.interpreter.answered command answer.1)
    (x.step o).1.slot.interpreter = after.1 ∧
      (x.step o).2 =
        ⟨Interpreter.signalAfter x.slot.interpreter.mask after.1 after.2.1, answer.2.wake⟩ := by
  obtain ⟨hr, image, hi, he⟩ := Interpreter.execute_of_asked h
  rw [slot_step, turn_step, Interpreter.step_of_running _ _ hr hi]
  simp only [Interpreter.outcomeWith, he]
  exact ⟨rfl, rfl⟩

/-- A script breaks off where the host does. -/
theorem breaks_of_abort (h : x.slot.interpreter.asked? = some (command, args))
    (ha : (Errand.execute o.adapter command args (.start x.slot.device)).1 = some .abort) :
    x.Breaks o := by
  obtain ⟨-, hturn⟩ := step_of_asked (o := o) h
  rw [ha] at hturn
  have hsignal : (x.step o).2.signal = .broke := congrArg Turn.signal hturn
  refine ⟨hsignal, fun k => ?_⟩
  rw [runFor_succ, resume?, settle]
  simp [hsignal, breakOff]

/-- A change of the mask is no break. -/
theorem signalAfter_ne_broke {before : Mask} {s : Interpreter} {signal : Interpreter.Signal}
    (h : signal ≠ .broke) : Interpreter.signalAfter before s signal ≠ .broke := by
  unfold Interpreter.signalAfter
  split
  · split <;> exact nofun
  · exact h

/-- A script raises what the host fails with. -/
theorem raises_of_fail {reason : String}
    (h : x.slot.interpreter.asked? = some (command, args))
    (ha : (Errand.execute o.adapter command args (.start x.slot.device)).1 = some (.fail reason))
    (hw : (Errand.execute o.adapter command args (.start x.slot.device)).2.wake = none) :
    x.Raises o (.commandFailed command reason) := by
  obtain ⟨hstate, hturn⟩ := step_of_asked (o := o) h
  rw [ha] at hstate hturn
  refine ⟨hstate, ?_, (congrArg Turn.wake hturn).trans hw⟩
  have hsettled : ((x.slot.interpreter.settled
      (x.slot.interpreter.answered command (some (.fail reason)))).2.1) ≠ .broke := by
    change (if _ then _ else _) ≠ Interpreter.Signal.broke
    split <;> exact nofun
  rw [hturn]
  exact signalAfter_ne_broke hsettled

/-- What breaks off raises nothing. -/
theorem Breaks.not_raises {cause : Fault} (h : x.Breaks o) : ¬ x.Raises o cause :=
  fun hraises => hraises.2.1 h.1

/-- Nor does it suspend. -/
theorem Breaks.not_suspends {wake : Option Nanoseconds} (h : x.Breaks o) : ¬ x.Suspends o wake := by
  intro hsuspends
  have hsignal := congrArg Turn.signal (step_of_suspends hsuspends).2.2
  exact nomatch h.1.symm.trans hsignal

/-- What raises an error does not suspend. -/
theorem Raises.not_suspends {cause : Fault} {d : Nanoseconds} (h : x.Raises o cause) :
    ¬ x.Suspends o (some d) := by
  intro hsuspends
  have hwake := congrArg Turn.wake (step_of_suspends hsuspends).2.2
  exact nomatch h.2.2.symm.trans hwake

/-! ## sleeping -/

/-- The fault of a script that sleeps for what is no span of time. -/
def invalidDuration (args : List String) : Fault :=
  let text := Text.joined " " args
  .commandFailed "sleep" s!"invalid duration '{text}'"

/-- What comes of a script that sleeps for a number of seconds that is written as a decimal
numeral, of whatever length: it waits for that number of seconds, to within the rounding
of binary numbers, or an error is raised in it; but the work is broken off if the number is
`2 ^ 64` or more when it is rounded, and not infinite. -/
theorem turn_of_sleep (o : Office σ) (x : Station σ) (n : Numeral) (more : List String)
    (h : x.slot.interpreter.asked? = some ("sleep", n.text :: more)) :
    (x.Breaks o ↔ Seconds.longest ≤ n.toRat ∧ n.toRat < Scientific.infinite) ∧
      (x.Raises o (invalidDuration (n.text :: more)) ↔
        n.toRat < -Seconds.slack ∨ Scientific.infinite ≤ n.toRat) ∧
      ((∃ d : Nanoseconds, x.Suspends o (some d) ∧
          |d - 10 ^ 9 * n.toRat| ≤ Seconds.tolerance n.toRat) ↔
        -Seconds.slack ≤ n.toRat ∧ n.toRat < Seconds.longest) := by
  have hslack := Seconds.slack_pos
  have hlongest := Seconds.slack_lt_longest
  have hinfinity := Seconds.longest_lt_infinite
  have hexecute : Errand.execute o.adapter "sleep" (n.text :: more) (.start x.slot.device) =
      Errand.sleep (n.text :: more) (.start x.slot.device) := rfl
  rcases Seconds.parse_cases n with ⟨hrange, hread⟩ | ⟨hrange, hread⟩ | ⟨hrange, d, hread, hnear⟩
  · have hraises : x.Raises o (invalidDuration (n.text :: more)) := by
      refine raises_of_fail h ?_ ?_ <;> rw [hexecute] <;> simp [Errand.sleep, hread, Errand.start]
    refine ⟨iff_of_false (fun hb => hb.not_raises hraises) ?_, iff_of_true hraises hrange,
      iff_of_false (fun hw => hw.elim fun d hd => hraises.not_suspends hd.1) ?_⟩
    · rcases hrange with hless | hmore <;> rintro ⟨hlow, hhigh⟩ <;> linarith
    · rcases hrange with hless | hmore <;> rintro ⟨hlow, hhigh⟩ <;> linarith
  · have hbreaks : x.Breaks o := by
      refine breaks_of_abort h ?_
      rw [hexecute]
      simp [Errand.sleep, hread]
    refine ⟨iff_of_true hbreaks hrange, iff_of_false hbreaks.not_raises ?_,
      iff_of_false (fun hw => hw.elim fun d hd => hbreaks.not_suspends hd.1) ?_⟩
    · rintro (hless | hmore) <;> linarith [hrange.1, hrange.2]
    · rintro ⟨hlow, hhigh⟩
      linarith [hrange.1]
  · have hsuspends : x.Suspends o (some d) := by
      refine ⟨_, _, h, ?_, ?_⟩ <;> rw [hexecute] <;> simp [Errand.sleep, hread]
    refine ⟨iff_of_false (fun hb => hb.not_suspends hsuspends) ?_,
      iff_of_false (fun hr => hr.not_suspends hsuspends) ?_,
      iff_of_true ⟨d, hsuspends, hnear⟩ hrange⟩
    · rintro ⟨hlow, hhigh⟩
      linarith [hrange.2]
    · rintro (hless | hmore) <;> linarith [hrange.1, hrange.2]

/-- A script that sleeps for fifteen hundred seconds. -/
def longSleep : Office Unit := trialOffice [("sleep", 0)] "@main\n  sleep 1.5e3\n  exit\n"

/-- A sleep with an exponent suspends the call for its time. -/
theorem turn_of_sleep_scientific :
    let x := ((newStation.perform longSleep (.post .enable)).accept longSleep trialCall).1
    x.slot.interpreter.asked? = some ("sleep", ["1.5e3"]) ∧
      ∃ d : Nanoseconds, x.Suspends longSleep (some d) ∧
        |(d : ℚ) - 10 ^ 9 * 1500| ≤ Seconds.tolerance 1500 := by
  intro x
  let n : Numeral :=
    ⟨.bare, ['1'], some ['5'], some ('e', .bare, ['3']), by decide, by simp; decide⟩
  have hasked : x.slot.interpreter.asked? = some ("sleep", [n.text]) := by decide +kernel
  have hvalue : n.toRat = 1500 := by
    have hnumber : n.scientific = ⟨false, ['1', '5'], 2⟩ := by decide
    have hdigits : value ['1', '5'] = 15 := by decide
    rw [Numeral.toRat, hnumber]
    norm_num [Scientific.toRat, Scientific.size, hdigits]
  have hslack := Seconds.slack_pos
  have hrange : -Seconds.slack ≤ n.toRat ∧ n.toRat < Seconds.longest := by
    rw [hvalue]
    exact ⟨by linarith, by norm_num [Seconds.longest]⟩
  have hwaits := (turn_of_sleep longSleep x n [] hasked).2.2.mpr hrange
  rw [hvalue] at hwaits
  exact ⟨hasked, hwaits⟩

/-- A script that sleeps for `2 ^ 64` seconds. -/
def endlessSleep : Office Unit :=
  trialOffice [("sleep", 0)] "@main\n  sleep 18446744073709551616\n  exit\n"

/-- Not every number lets the script wait or raises an error. -/
theorem sleep_breaks : ¬ ∀ (o : Office Unit) (x : Station Unit) (n : Numeral) (more : List String),
    x.slot.interpreter.asked? = some ("sleep", n.text :: more) →
    (∃ wake, x.Suspends o wake) ∨ x.Raises o (invalidDuration (n.text :: more)) := by
  intro hall
  let x := ((newStation.perform endlessSleep (.post .enable)).accept endlessSleep trialCall).1
  let n : Numeral := ⟨.bare, "18446744073709551616".toList, none, none, by decide, by simp⟩
  have hasked : x.slot.interpreter.asked? = some ("sleep", [n.text]) := by decide +kernel
  have hbroke : (x.step endlessSleep).2.signal = .broke := by decide +kernel
  rcases hall endlessSleep x n [] hasked with ⟨wake, hsuspends⟩ | hraises
  · have hpause := congrArg Turn.signal (step_of_suspends hsuspends).2.2
    exact nomatch hbroke.symm.trans hpause
  · exact hraises.2.1 hbroke

end Station

end Switchboard
