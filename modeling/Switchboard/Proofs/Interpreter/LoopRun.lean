import Mathlib.Logic.Function.Iterate
import Switchboard.Proofs.Interpreter.LoopFrame
import Switchboard.Proofs.Interpreter.Mirror
import Switchboard.Proofs.Symbols.Given
import Switchboard.Proofs.Text.Numeral

/-!
# Switchboard.Proofs.Interpreter.LoopRun

One pass of a loop over a list, or with a count.

1. The first line of the loop looks at the pass that its frame counts: it begins the pass
   if there is one, and leaves the loop if there is none (`step_opener`).
2. Until it ends, a pass does not begin again (`begins_once`), and the line that ends it
   leads to the first line for the next one (`step_again`, `exists_again`).
-/

namespace Switchboard

/-- The list or the count of a loop. -/
def Command.source? : Command → Option Argument
  | .eachLoop _ items _ => some items
  | .repeatLoop count => some count
  | _ => none

/-- What a loop goes through for the text of its list or count, one entry for each pass: the
parts into which the list is divided, or nothing, as many times as the count says. -/
inductive Command.Agenda : Command → String → List (Option String) → Prop
  | eachLoop {target text : String} {items : Argument} {delimiter : Char}
      {parts : List (List Char)} : Text.Divides delimiter text.toList parts →
      Agenda (.eachLoop target items delimiter) text
        (parts.map fun part => some (String.ofList part))
  | repeatLoop {count : Argument} {text : String} {n : Nat} :
      Text.Denotes (Text.wordBound 64) (Text.trim text.toList) n →
      Agenda (.repeatLoop count) text (List.replicate n none)

namespace Interpreter

/-! ## the first line of a loop -/

/-- The variable of a loop over a list holds the part for a pass, cut to its size. -/
def Supplied (c : Command) (agenda : List (Option String)) (index : Nat) (t : Interpreter) : Prop :=
  ∀ target items delimiter, c = .eachLoop target items delimiter → ∃ part e,
    agenda[index]? = some (some part) ∧
    t.symbols.lookup? t.scope target = some e ∧ e.value = Text.cutTo e.size part

/-- The pieces of a list are the parts into which its text is divided. -/
theorem piecesOf_of_divides {text : String} {delimiter : Char} {parts : List (List Char)}
    (h : Text.Divides delimiter text.toList parts) :
    piecesOf text delimiter = parts.map String.ofList := by
  rw [piecesOf_eq, h.eq_splitOn]
  simp [String.isEmpty_iff]

section
variable {image : Image} {s t : Interpreter} {f : Frame} {below : List Frame}
  {header : Header} {l : Line} {index : Nat}

/-- The loop that begins where `f` stands gets its frame, or has it already and is about to
begin a pass. -/
inductive AtOpener (s : Interpreter) (f : Frame) (below : List Frame) : Nat → Prop
  | first : s.frames = f :: below → f.opener? ≠ some f.line → AtOpener s f below 0
  | next {index : Nat} :
      s.frames = passFrame f index f.line :: f :: below → AtOpener s f below index

/-- A loop is entered with the frame of its pass on top. -/
theorem AtOpener.frames_enterLoop (h : AtOpener s f below index) (ht : s.enterLoop f.line = .ok t) :
    t = { s with frames := passFrame f index f.line :: f :: below } := by
  cases h with
  | first hs ho =>
      obtain ⟨he, -⟩ | ⟨-, rfl⟩ := Interpreter.frames_enterLoop hs ht
      · exact absurd he ho
      · rfl
  | next hs =>
      obtain ⟨-, rfl⟩ | ⟨ho, -⟩ :=
        Interpreter.frames_enterLoop (f := passFrame f index f.line) hs ht
      · rw [← hs]
      · exact absurd rfl ho

/-- The opener is executed by its command. -/
theorem AtOpener.execute_eq (h : AtOpener s f below index)
    (hf : image.headerAt? f.header = some header) (hl : header.lines[f.line]? = some l) :
    s.execute image = s.executeLine image header f.line l.command := by
  cases h with
  | first hs _ => exact Interpreter.execute_eq hs hf hl
  | next hs => exact Interpreter.execute_eq (f := passFrame f index f.line) hs hf hl

/-- A line goes on to a state with a property, or is at fault. -/
def Outcome.Leads (goal : Interpreter → Prop) : Outcome → Prop
  | .next t => goal t
  | .fault _ _ => True
  | .pause _ | .ask _ _ => False

/-- A trial leads to where what comes after it does. -/
theorem Outcome.Leads.attempt {α : Type} {r : Except Fault α} {k : α → Outcome}
    {goal : Interpreter → Prop} (h : ∀ a, r = .ok a → (k a).Leads goal) :
    (Interpreter.attempt s r k).Leads goal := by
  cases r with
  | ok a => exact h a rfl
  | error cause => trivial

/-- What a line leads to, a step leads to, unless it is at fault. -/
theorem Outcome.Leads.step {σ : Type} {host : Host σ} {world : σ} {goal : Interpreter → Prop}
    (h : (s.execute image).Leads goal) (hr : s.isRunning = true) (hi : s.image = some image)
    (hf : s.raised? host world = none) : goal (s.step host world).state := by
  cases ho : s.execute image with
  | next t =>
      rw [ho] at h
      rw [(step_of_next host world hr hi ho).2]
      exact h
  | fault cause t =>
      rw [raised?_of_fault host world hr hi ho] at hf
      contradiction
  | pause t | ask command args =>
      rw [ho] at h
      exact h.elim

/-- Where the first line of a loop leads: into the pass that is due, or out of the loop. -/
structure Decided (header : Header) (l : Line) (f : Frame) (below : List Frame)
    (agenda : List (Option String)) (index : Nat) (t : Interpreter) : Prop where
  running : t.isRunning = true
  due : index < agenda.length →
    t.frames = passFrame f index (f.line + 1) :: f :: below ∧ Supplied l.command agenda index t
  done : agenda.length ≤ index →
    t.frames = { f with line := Scan.pastLoop header.lines f.line l.depth } :: below

variable {text : String} {agenda : List (Option String)}

/-- A pass that is due begins with the next line. -/
theorem decided_advance (hs : s.frames = passFrame f index f.line :: f :: below)
    (hr : s.isRunning = true) (hdue : index < agenda.length)
    (hsupplied : Supplied l.command agenda index s.advance) :
    Decided header l f below agenda index s.advance := by
  refine ⟨by rwa [isRunning_advance], fun _ => ⟨?_, hsupplied⟩, fun h => ?_⟩
  · rw [frames_advance hs]
    rfl
  · exact absurd hdue (Nat.not_lt.mpr h)

/-- If no pass is due, the script goes on behind the loop. -/
theorem decided_breakLoop (hs : s.frames = passFrame f index f.line :: f :: below)
    (hr : s.isRunning = true) (hl : header.lines[f.line]? = some l)
    (hdone : agenda.length ≤ index) :
    (s.breakLoop header).Leads (Decided header l f below agenda index) := by
  have hbreak : s.breakLoop header =
      .next (s.pop.jump (Scan.pastLoop header.lines f.line l.depth)) := by
    simp only [breakLoop, top?, hs, List.head?_cons, Option.bind_some, opener?_passFrame,
      Option.map_some, hl, Option.getD_some]
    rfl
  have hframes : s.pop.frames = f :: below := by rw [pop, hs]; rfl
  rw [hbreak]
  refine ⟨?_, fun h => absurd h (Nat.not_lt.mpr hdone), fun _ => frames_jump hframes _⟩
  have hstatus : (s.pop.jump (Scan.pastLoop header.lines f.line l.depth)).status = s.status := by
    simp only [jump, modifyTop, hframes]
    rfl
  simpa [isRunning, hstatus] using hr

/-- The first line of a loop looks at the pass that its frame counts. -/
theorem executeLine_opener (image : Image) (h : AtOpener s f below index) (hr : s.isRunning = true)
    (hl : header.lines[f.line]? = some l) {argument : Argument}
    (hsource : l.command.source? = some argument)
    (hagenda : l.command.Agenda text agenda)
    (hvalue : ∀ t, s.enterLoop f.line = .ok t → t.value argument = .ok text) :
    (s.executeLine image header f.line l.command).Leads
      (Decided header l f below agenda index) := by
  have hentered (t : Interpreter) (ht : s.enterLoop f.line = .ok t) :
      t.frames = passFrame f index f.line :: f :: below ∧ t.isRunning = true ∧
        t.loopIndex = index ∧ t.value argument = .ok text := by
    have htext := hvalue t ht
    obtain rfl := h.frames_enterLoop ht
    exact ⟨rfl, hr, rfl, htext⟩
  generalize hc : l.command = c at hsource hagenda
  cases hagenda with
  | @repeatLoop count _ n hcount =>
      obtain rfl : count = argument := Option.some.inj hsource
      refine .attempt fun t ht => ?_
      obtain ⟨hframes, hrun, hindex, htext⟩ := hentered t ht
      have hdue : t.repeatDue count = .ok (decide (index < n)) := by
        simp only [repeatDue, htext, bind, Except.bind, pure, Except.pure]
        rw [Text.readNat_eq_some_iff.mpr hcount, hindex]
      rw [hdue]
      change (t.passIf header (decide (index < n))).Leads _
      have hlen : (List.replicate n (none : Option String)).length = n := List.length_replicate
      by_cases hlt : index < n
      · rw [decide_eq_true hlt]
        exact decided_advance hframes hrun (hlen.symm ▸ hlt) fun _ _ _ he => by simp [hc] at he
      · rw [decide_eq_false hlt]
        exact decided_breakLoop hframes hrun hl (hlen.symm ▸ Nat.le_of_not_lt hlt)
  | @eachLoop target _ items delimiter parts hdivides =>
      obtain rfl : items = argument := Option.some.inj hsource
      refine .attempt fun t ht => ?_
      obtain ⟨hframes, hrun, hindex, htext⟩ := hentered t ht
      simp only [htext, hindex, Interpreter.attempt, piecesOf_of_divides hdivides]
      split
      · next hnone =>
          refine decided_breakLoop hframes hrun hl ?_
          simpa using hnone
      · next part hpart =>
          refine .attempt fun symbols hassign => ?_
          obtain ⟨cs, hcs, rfl⟩ := List.getElem?_map ▸ hpart |> Option.map_eq_some_iff.mp
          obtain ⟨hlt, -⟩ := List.getElem?_eq_some_iff.mp hcs
          obtain ⟨e, hfound, hstored⟩ := Symbols.lookup?_of_assign hassign
          refine decided_advance (s := { t with symbols }) hframes hrun (by simpa using hlt) ?_
          intro target' items' delimiter' he
          obtain ⟨rfl, -, -⟩ := Command.eachLoop.inj (hc.symm.trans he)
          refine ⟨String.ofList cs, e, by simp [hcs], ?_, hstored⟩
          simpa [advance, modifyTop, scope, top?, hframes] using hfound

/-- A step at the first line of a loop begins the pass that is due, or leaves the loop. -/
theorem step_opener {σ : Type} {host : Host σ} {world : σ} {argument : Argument}
    (h : AtOpener s f below index) (hr : s.isRunning = true) (hi : s.image = some image)
    (hheader : image.headerAt? f.header = some header) (hl : header.lines[f.line]? = some l)
    (hsource : l.command.source? = some argument)
    (hagenda : l.command.Agenda text agenda)
    (hvalue : ∀ t, s.enterLoop f.line = .ok t → t.value argument = .ok text)
    (hf : s.raised? host world = none) :
    Decided header l f below agenda index (s.step host world).state := by
  have hleads := executeLine_opener image h hr hl hsource hagenda hvalue
  rw [← h.execute_eq hheader hl] at hleads
  exact hleads.step hr hi hf

end

/-- A loop without a pass is left by its first line. -/
theorem execute_repeat_zero {s : Interpreter} {image : Image} {f : Frame} {below : List Frame}
    {header : Header} {l : Line} (hframes : s.frames = f :: below) (hnew : f.opener? ≠ some f.line)
    (hroom : s.depth < s.limits.maxFrames) (hheader : image.headerAt? f.header = some header)
    (hl : header.lines[f.line]? = some l) (hcommand : l.command = .repeatLoop (.literal "0")) :
    s.execute image = .next { s with
      frames := { f with line := Scan.pastLoop header.lines f.line l.depth } :: below } := by
  have hentered : s.enterLoop f.line =
      .ok { s with frames := passFrame f 0 f.line :: f :: below } := by
    simp only [enterLoop, hframes, if_neg hnew, push, if_neg (Nat.not_le.mpr hroom)]
    rfl
  have hdue : ({ s with frames := passFrame f 0 f.line :: f :: below } : Interpreter).repeatDue
      (.literal "0") = .ok false := by
    have hread : Text.readNat (Text.wordBound 64) (Text.trim "0".toList) = some 0 := by
      decide +kernel
    simp only [repeatDue, value, bind, Except.bind, hread]
    rfl
  rw [execute_eq hframes hheader hl, hcommand]
  simp only [executeLine, hentered, attempt, hdue, passIf, Bool.false_eq_true, if_false]
  simp only [breakLoop, top?, List.head?_cons, Option.bind_some, opener?_passFrame,
    Option.map_some, hl, Option.getD_some]
  rfl

/-! ## runs -/

section
variable {σ : Type} (host : Host σ) (s : Interpreter) (world : σ)

/-- A script and its host's world after a number of steps, whatever the steps answer. -/
def stepsFrom (n : Nat) : Interpreter × σ :=
  (fun p : Interpreter × σ => ((p.1.step host p.2).state, (p.1.step host p.2).world))^[n] (s, world)

/-- One more step comes last. -/
theorem stepsFrom_succ (n : Nat) : (stepsFrom host s world (n + 1)).1 =
    ((stepsFrom host s world n).1.step host (stepsFrom host s world n).2).state := by
  rw [stepsFrom, Function.iterate_succ_apply']
  rfl

/-- For a number of steps, the stack is higher than it was. -/
def Within (n : Nat) : Prop :=
  ∀ j, 0 < j → j ≤ n → s.depth < (stepsFrom host s world j).1.depth

end

/-- The pass of a loop, if its frame is the innermost one, lies on `base` and stands at a
line. -/
def passAt? (s : Interpreter) (base : List Frame) (opener line : Nat) : Option Nat :=
  match s.frames with
  | g :: below =>
      if below = base ∧ g.opener? = some opener ∧ g.line = line then some g.index else none
  | [] => none

/-- What a script does, from the first line of a loop on and until it leaves the loop. -/
structure Orderly {σ : Type} (host : Host σ) (s : Interpreter) (world : σ) (opener : Nat)
    (argument : Argument) (text : String) : Prop where
  /-- No line of the loop raises an error; headers that are called may, and handle it. -/
  faultless : ∀ n, Within host s world n →
    outsideLoops (stepsFrom host s world n).1.frames = outsideLoops s.frames →
    (stepsFrom host s world n).1.raised? host (stepsFrom host s world n).2 = none
  /-- Nothing breaks down: a handler could have every error. -/
  unbroken : ∀ n, Within host s world n →
    ((stepsFrom host s world n).1.step host (stepsFrom host s world n).2).signal ≠ .broke
  /-- Whenever the first line looks at the list or the count, it has the same text; so the
  number of the pass is no such count. -/
  constant : ∀ n t, Within host s world n →
    n = 0 ∨ ((stepsFrom host s world n).1.passAt? s.frames opener opener).isSome →
    (stepsFrom host s world n).1.enterLoop opener = .ok t → t.value argument = .ok text
  /-- Every pass comes to a line that ends it, be it the last of the loop or not. -/
  returns : ∀ n k, Within host s world n →
    (stepsFrom host s world n).1.passAt? s.frames opener (opener + 1) = some k →
    ∃ m line, n ≤ m ∧ Within host s world m ∧
      (stepsFrom host s world m).1.passAt? s.frames opener line = some k ∧
      ((stepsFrom host s world m).1.command? = some .endLoop ∨
        (stepsFrom host s world m).1.command? = some .continueLoop)
  /-- No symbol hides the number of the pass. -/
  unhidden : ∀ n k, Within host s world n →
    (stepsFrom host s world n).1.passAt? s.frames opener (opener + 1) = some k →
    (stepsFrom host s world n).1.symbol? "index" = none

/-- A pass stands at a line exactly if its frame does. -/
theorem passAt?_eq_some {s : Interpreter} {base : List Frame} {opener line k : Nat} :
    s.passAt? base opener line = some k ↔ ∃ g, s.frames = g :: base ∧
      g.opener? = some opener ∧ g.line = line ∧ g.index = k := by
  unfold passAt?
  split
  · next g below hs =>
      rw [hs]
      constructor
      · intro h
        split at h
        · next hg => exact ⟨g, by rw [hg.1], hg.2.1, hg.2.2, Option.some.inj h⟩
        · contradiction
      · rintro ⟨g', he, ho, hl, hk⟩
        obtain ⟨rfl, rfl⟩ := List.cons.inj he
        simp [ho, hl, hk]
  · next hs => simp [hs]

/-- A loop that is left at once does what it should, whatever comes behind it. -/
theorem orderly_of_left {σ : Type} {host : Host σ} {s : Interpreter} {world : σ} {opener : Nat}
    {text : String} (hnone : s.raised? host world = none)
    (hsignal : (s.step host world).signal ≠ .broke)
    (hdepth : (s.step host world).state.depth ≤ s.depth) :
    Orderly host s world opener (.literal text) text := by
  have hzero {n : Nat} (h : Within host s world n) : n = 0 := by
    refine Nat.eq_zero_of_not_pos fun hn => ?_
    exact absurd (h 1 Nat.one_pos hn) (Nat.not_lt.mpr hdepth)
  have hat {n k line : Nat} (h : Within host s world n) :
      (stepsFrom host s world n).1.passAt? s.frames opener line ≠ some k := by
    obtain rfl := hzero h
    intro hat
    obtain ⟨g, hframes, -⟩ := passAt?_eq_some.mp hat
    exact absurd hframes (List.ne_cons_self)
  refine ⟨fun n h _ => ?_, fun n h => ?_, fun n t _ _ _ => rfl, fun n k h hk => ?_,
    fun n k h hk => ?_⟩
  · obtain rfl := hzero h
    exact hnone
  · obtain rfl := hzero h
    exact hsignal
  · exact absurd hk (hat h)
  · exact absurd hk (hat h)

/-- The number of its pass is what a line reads, if no symbol hides it. -/
theorem value_index {s : Interpreter} {base : List Frame} {opener line k : Nat}
    (h : s.passAt? base opener line = some k) (hs : s.symbol? "index" = none) :
    s.value (.symbol "index") = .ok (toString k) := by
  obtain ⟨g, hframes, ho, -, rfl⟩ := passAt?_eq_some.mp h
  simp [value, hs, builtin?, loopIndex, hframes, Frame.isLoop, ho]

section
variable {f : Frame} {below above : List Frame} {index line : Nat}

/-- The frame of a pass stands at the line it was put on. -/
theorem passAt?_passFrame {s : Interpreter}
    (h : s.frames = passFrame f index line :: f :: below) :
    s.passAt? (f :: below) f.line line = some index :=
  passAt?_eq_some.mpr ⟨_, h, rfl, rfl, rfl⟩

/-- Only the frame of the loop itself can be found on what was there before. -/
theorem Over.passAt? {s : Interpreter} (h : Over f below index line above s.frames)
    (line' k : Nat) : s.passAt? (f :: below) f.line line' = some k ↔
      above = [] ∧ line' = line ∧ k = index := by
  rw [passAt?_eq_some, h.frames]
  constructor
  · rintro ⟨g, hg, -, hl, hk⟩
    cases above with
    | nil =>
        obtain ⟨rfl, -⟩ := List.cons.inj hg
        exact ⟨rfl, hl.symm, hk.symm⟩
    | cons c above =>
        have hlen := congrArg List.length hg
        simp at hlen
        omega
  · rintro ⟨rfl, rfl, rfl⟩
    exact ⟨_, rfl, rfl, rfl, rfl⟩

end

section
variable {σ : Type} {host : Host σ} {s : Interpreter} {world : σ} {image : Image} {f : Frame}
  {below : List Frame} {m n : Nat}

/-- Fewer steps stay within the loop as well. -/
theorem Within.mono (h : Within host s world n) (hmn : m ≤ n) : Within host s world m :=
  fun j hj hjm => h j hj (Nat.le_trans hjm hmn)

/-- One more step stays within it as long as it goes deeper. -/
theorem Within.succ (h : Within host s world n)
    (hd : s.depth < (stepsFrom host s world (n + 1)).1.depth) : Within host s world (n + 1) := by
  intro j hj hjn
  rcases Nat.lt_or_eq_of_le hjn with hlt | rfl
  · exact h j hj (Nat.le_of_lt_succ hlt)
  · exact hd

/-- So it does as long as a frame lies on those before the loop. -/
theorem Within.succ_of_frames (h : Within host s world n) (hframes : s.frames = f :: below)
    {g : Frame} (hn : (stepsFrom host s world (n + 1)).1.frames = g :: f :: below) :
    Within host s world (n + 1) :=
  h.succ (by simp [depth, hframes, hn])

/-- A script that has not left the loop runs. -/
theorem Within.alive (h : Within host s world n) (hs : s.Reachable) (hr : s.isRunning = true)
    (hi : s.image = some image) :
    (stepsFrom host s world n).1.Reachable ∧ (stepsFrom host s world n).1.isRunning = true ∧
      (stepsFrom host s world n).1.image = some image := by
  induction n with
  | zero => exact ⟨hs, hr, hi⟩
  | succ n ih =>
      obtain ⟨hreach, hrun, himage⟩ := ih (h.mono (Nat.le_succ n))
      have hd := h (n + 1) (Nat.succ_pos n) (Nat.le_refl _)
      rw [stepsFrom_succ] at hd ⊢
      have hne := hreach.sound.ne_nil (by rw [himage]; rfl)
      have hnext := hreach.step host (stepsFrom host s world n).2
      have himage' := (step_successor host (stepsFrom host s world n).2 hrun himage hne).image
      refine ⟨hnext, ?_, himage'.trans himage⟩
      have hpos : 0 < s.depth := List.length_pos_iff.mpr (hs.sound.ne_nil (by rw [hi]; rfl))
      cases hstatus : ((stepsFrom host s world n).1.step host
          (stepsFrom host s world n).2).state.status with
      | running => simp [isRunning, hstatus]
      | detached =>
          have hnone := hnext.sound.detached.mpr hstatus
          simp [himage', himage] at hnone
      | exited reason =>
          have hone := hnext.sound.ended reason hstatus
          omega

variable (hs : s.Reachable) (hr : s.isRunning = true) (hi : s.image = some image)
  (hframes : s.frames = f :: below) {argument : Argument} {text : String}
  (ho : Orderly host s world f.line argument text)
include hs hr hi hframes ho

/-- A step inside of the loop makes a turn of its frame. -/
theorem over_succ (hw : Within host s world (n + 1)) {index line : Nat} {above : List Frame}
    (h : Over f below index line above (stepsFrom host s world n).1.frames) :
    ∃ index' line' above',
      Over f below index' line' above' (stepsFrom host s world (n + 1)).1.frames ∧
        Turn f index line above index' line' above' := by
  have hn := hw.mono (Nat.le_succ n)
  obtain ⟨hreach, hrun, himage⟩ := hn.alive hs hr hi
  have hd := hw (n + 1) (Nat.succ_pos n) (Nat.le_refl _)
  have hrun' := (hw.alive hs hr hi).2.1
  rw [stepsFrom_succ] at hd hrun' ⊢
  have hhop := step_hops hrun himage (hreach.sound.stacked _ himage) (ho.unbroken n hn) hrun'
  exact hhop.over h (by simpa [depth, hframes] using hd)

/-- Passes are counted upwards. -/
theorem over_mono {index line : Nat} {above : List Frame} (hnm : n ≤ m)
    (hw : Within host s world m)
    (h : Over f below index line above (stepsFrom host s world n).1.frames) :
    ∃ index' line' above',
      Over f below index' line' above' (stepsFrom host s world m).1.frames ∧ index ≤ index' := by
  induction m, hnm using Nat.le_induction with
  | base => exact ⟨index, line, above, h, Nat.le_refl _⟩
  | succ m hnm ih =>
      obtain ⟨index', line', above', hover, hle⟩ := ih (hw.mono (Nat.le_succ m))
      obtain ⟨next, line', above', hover', hturn⟩ := over_succ hs hr hi hframes ho hw hover
      refine ⟨next, line', above', hover', ?_⟩
      cases hturn with
      | covered _ | later _ => exact hle
      | again _ => exact Nat.le_succ_of_le hle

/-- Until it ends, a pass does not begin again. -/
theorem begins_once {index line : Nat} (hw : Within host s world m)
    (h : Over f below index (f.line + 1) [] (stepsFrom host s world n).1.frames)
    (hm : (stepsFrom host s world m).1.passAt? s.frames f.line line = some index) {j : Nat}
    (hnj : n < j) (hjm : j ≤ m) :
    (stepsFrom host s world j).1.passAt? s.frames f.line (f.line + 1) = none := by
  have hpast : ∀ j, n ≤ j → j ≤ m → ∃ line above,
      Over f below index line above (stepsFrom host s world j).1.frames ∧
        f.line < line ∧ (above = [] → j = n ∨ f.line + 1 < line) := by
    intro j hnj
    induction j, hnj using Nat.le_induction with
    | base => exact fun _ => ⟨f.line + 1, [], h, Nat.lt_succ_self _, fun _ => .inl rfl⟩
    | succ j hnj ih =>
        intro hjm
        obtain ⟨here, above, hover, hlt, hpast⟩ := ih (Nat.le_of_succ_le hjm)
        obtain ⟨index', next, above', hover', hturn⟩ :=
          over_succ hs hr hi hframes ho (hw.mono hjm) hover
        cases hturn with
        | covered hne => exact ⟨here, above', hover', hlt, fun he => absurd he hne⟩
        | later hlater =>
            exact ⟨next, [], hover', Nat.lt_trans hlt hlater,
              fun _ => .inr (Nat.lt_of_le_of_lt hlt hlater)⟩
        | again _ =>
            -- then a later pass would be the one that comes to its end
            obtain ⟨last, _, _, hover'', hle⟩ := over_mono hs hr hi hframes ho hjm hw hover'
            rw [hframes, hover''.passAt?] at hm
            omega
  obtain ⟨here, above, hover, -, hlater⟩ := hpast j (Nat.le_of_lt hnj) hjm
  rw [Option.eq_none_iff_forall_ne_some]
  intro k hk
  rw [hframes, hover.passAt?] at hk
  have := hlater hk.1
  omega

omit hs hr hi hframes ho in
/-- A line that ends a pass leads to the first line of the loop, for the next pass. -/
theorem step_again (host : Host σ) (world : σ) {t : Interpreter} {index line : Nat}
    (hr : t.isRunning = true) (hi : t.image = some image)
    (hs : t.frames = passFrame f index line :: f :: below)
    (hc : t.command? = some .endLoop ∨ t.command? = some .continueLoop) :
    (t.step host world).state.frames = passFrame f (index + 1) f.line :: f :: below := by
  have hnext (command : String) : t.continueLoop command =
      .next (t.modifyTop fun g => { g with index := g.index + 1, line := f.line }) := by
    simp [continueLoop, top?, hs, opener?_passFrame]
  have hafter : (t.modifyTop fun g => { g with index := g.index + 1, line := f.line }).frames =
      passFrame f (index + 1) f.line :: f :: below := by
    simp only [modifyTop, hs]
    rfl
  rcases hc with hc | hc
  all_goals
    obtain ⟨header, line, he⟩ := execute_of_command? hi hc
    rw [(step_of_next host world hr hi (he.trans (hnext _))).2, hafter]

/-- A pass that has begun comes to its end, and then back to the first line of the loop, for
the next one.  Until then no pass begins. -/
theorem exists_again {index : Nat} (hw : Within host s world n)
    (hbegins : (stepsFrom host s world n).1.frames =
      passFrame f index (f.line + 1) :: f :: below) :
    ∃ m, n < m ∧ Within host s world m ∧
      (stepsFrom host s world m).1.frames = passFrame f (index + 1) f.line :: f :: below ∧
      ∀ j, n < j → j ≤ m →
        (stepsFrom host s world j).1.passAt? s.frames f.line (f.line + 1) = none := by
  obtain ⟨m, line, hnm, hwm, hm, hc⟩ :=
    ho.returns n index hw (hframes ▸ passAt?_passFrame hbegins)
  have hover : Over f below index (f.line + 1) [] (stepsFrom host s world n).1.frames :=
    ⟨hbegins, .singleton _⟩
  obtain ⟨index', line', above, hend, -⟩ := over_mono hs hr hi hframes ho hnm hwm hover
  obtain ⟨rfl, rfl, rfl⟩ := (hend.passAt? line index).mp (hframes ▸ hm)
  obtain ⟨-, hrun, himage⟩ := hwm.alive hs hr hi
  have hnext := step_again host (stepsFrom host s world m).2 hrun himage hend.frames hc
  rw [← stepsFrom_succ] at hnext
  refine ⟨m + 1, Nat.lt_succ_of_le hnm, hwm.succ_of_frames hframes hnext, hnext,
    fun j hnj hjm => ?_⟩
  rcases Nat.lt_or_eq_of_le hjm with hlt | rfl
  · exact begins_once hs hr hi hframes ho hwm hover hm hnj (Nat.le_of_lt_succ hlt)
  · -- no pass begins at the first line of the loop
    have hback : Over f below (index + 1) f.line [] (stepsFrom host s world (m + 1)).1.frames :=
      ⟨hnext, .singleton _⟩
    rw [Option.eq_none_iff_forall_ne_some]
    intro k hk
    rw [hframes, hback.passAt?] at hk
    exact absurd hk.2.1 (Nat.succ_ne_self _)

end

end Interpreter

end Switchboard
