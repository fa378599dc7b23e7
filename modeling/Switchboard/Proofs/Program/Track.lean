import Switchboard.Proofs.Interpreter.Reachable
import Switchboard.Proofs.Program.Layout
import Switchboard.Proofs.Program.Meaning

/-!
# Switchboard.Proofs.Program.Track

An interpreter on the lines of one header.

1. `Progress` is an interpreter at work: the script, the host's world, and what
   was done so far.  `walk` takes a number of steps, whatever they answer.
2. A `Track` is a header of an image that is run by a host which always lets the
   script go on.  At `spot line loops symbols` the script stands at a line of it,
   inside loops each of which has its first line and its pass.
3. What a script sees there is what a structured program sees in these passes
   (`Track.alike`).
-/

namespace Switchboard

variable {σ : Type}

/-! ## an interpreter at work -/

/-- A script, the host's world, and what was done so far, the earliest first. -/
structure Progress (σ : Type) where
  script : Interpreter
  world : σ
  effects : List Effect

namespace Progress

/-- What the next step does that can be seen from outside: the command that the
host executes, and the symbols if they change. -/
def deeds (host : Host σ) (q : Progress σ) : List Effect :=
  let after := (q.script.step host q.world).state.symbols
  (q.script.asked?.map fun (command, args) => Effect.call command args).toList ++
    if after = q.script.symbols then [] else [.update after]

/-- Take one step. -/
def step (host : Host σ) (q : Progress σ) : Progress σ :=
  let r := q.script.step host q.world
  ⟨r.state, r.world, q.effects ++ q.deeds host⟩

/-- Take a number of steps. -/
def walk (host : Host σ) : Nat → Progress σ → Progress σ
  | 0, q => q
  | n + 1, q => walk host n (q.step host)

theorem walk_add (host : Host σ) (m n : Nat) (q : Progress σ) :
    walk host (m + n) q = walk host n (walk host m q) := by
  induction m generalizing q with
  | zero => rw [Nat.zero_add, walk]
  | succ m ih =>
      rw [Nat.succ_add_eq_add_succ, Nat.add_succ, walk, ih, walk]

end Progress

/-! ## tracks -/

/-- A header of an image, and a host that always lets its script go on. -/
structure Track (σ : Type) where
  setting : Setting σ
  image : Image
  header : Header
  mask : Mask
  found : image.headerAt? setting.header = some header
  proceeds : ∀ command args world,
    (setting.host.execute command args world).1 = some .proceed

namespace Track

variable (t : Track σ)

/-- The frames of a script at a line, inside loops. -/
def frames (line : Nat) : List (Nat × Nat) → List Frame
  | [] => [⟨t.setting.header, line, .base, 0, t.mask, false⟩]
  | (opener, index) :: outer =>
    ⟨t.setting.header, line, .loop opener, index, t.mask, false⟩ :: frames opener outer

/-- A script at a line, inside loops, the innermost first. -/
def spot (line : Nat) (loops : List (Nat × Nat)) (symbols : Symbols) : Interpreter where
  limits := t.setting.limits
  image := some t.image
  frames := t.frames line loops
  symbols := symbols
  status := .running
  lastError := t.setting.lastError

/-- A script at a line, in a scene. -/
def at_ (line : Nat) (loops : List (Nat × Nat)) (x : Scene σ) : Progress σ :=
  ⟨t.spot line loops x.symbols, x.world, x.effects⟩

/-- The passes that loops are in. -/
def passes (loops : List (Nat × Nat)) : List Nat := loops.map Prod.snd

theorem length_frames (line : Nat) (loops : List (Nat × Nat)) :
    (t.frames line loops).length = loops.length + 1 := by
  induction loops generalizing line with
  | nil => rfl
  | cons loop outer ih => rw [frames, List.length_cons, ih, List.length_cons]

/-- A script sees at a line what a program sees in the same passes. -/
theorem alike (line : Nat) (loops : List (Nat × Nat)) (symbols : Symbols) :
    Interpreter.Alike (t.spot line loops symbols) (t.setting.view (passes loops) symbols) := by
  refine ⟨rfl, rfl, ?_, ?_, ?_, rfl⟩
  · cases loops <;> rfl
  · cases loops <;> rfl
  · simp [Interpreter.depth, spot, t.length_frames, Setting.view, passes]

/-! ## moving -/

@[simp] theorem symbols_spot (line : Nat) (loops : List (Nat × Nat)) (symbols : Symbols) :
    (t.spot line loops symbols).symbols = symbols := rfl

theorem top?_spot (line : Nat) (loops : List (Nat × Nat)) (symbols : Symbols) :
    ∃ f, (t.spot line loops symbols).top? = some f ∧ f.line = line ∧
      f.header = t.setting.header := by
  cases loops <;> exact ⟨_, rfl, rfl, rfl⟩

@[simp] theorem advance_spot (line : Nat) (loops : List (Nat × Nat)) (symbols : Symbols) :
    (t.spot line loops symbols).advance = t.spot (line + 1) loops symbols := by
  cases loops <;> rfl

@[simp] theorem jump_spot (line other : Nat) (loops : List (Nat × Nat)) (symbols : Symbols) :
    (t.spot line loops symbols).jump other = t.spot other loops symbols := by
  cases loops <;> rfl

@[simp] theorem pop_spot (line opener index : Nat) (outer : List (Nat × Nat))
    (symbols : Symbols) :
    (t.spot line ((opener, index) :: outer) symbols).pop = t.spot opener outer symbols := rfl

/-- A loop that is reached from outside begins with its first pass, if there is
room for its frame. -/
theorem enterLoop_outside {line : Nat} {loops : List (Nat × Nat)} (symbols : Symbols)
    (hl : ∀ loop ∈ loops, loop.1 < line)
    (hroom : loops.length + 1 < t.setting.limits.maxFrames) :
    (t.spot line loops symbols).enterLoop line =
      .ok (t.spot line ((line, 0) :: loops) symbols) := by
  have hpush : ¬ (t.setting.limits.maxFrames ≤ (t.frames line loops).length) := by
    rw [t.length_frames]
    omega
  have hne : ∀ top, (t.frames line loops).head? = some top → top.opener? ≠ some line := by
    intro top htop hopener
    cases loops with
    | nil =>
        obtain rfl := Option.some.inj htop
        simp [Frame.opener?] at hopener
    | cons loop outer =>
        obtain rfl := Option.some.inj htop
        have hlt := hl loop List.mem_cons_self
        simp only [Frame.opener?, Option.some.injEq] at hopener
        omega
  cases loops with
  | nil =>
      simp only [Interpreter.enterLoop, spot, frames] at hne hpush ⊢
      rw [if_neg (hne _ rfl), Interpreter.push, if_neg (by simpa [Interpreter.depth] using hpush)]
  | cons loop outer =>
      simp only [Interpreter.enterLoop, spot, frames] at hne hpush ⊢
      rw [if_neg (hne _ rfl), Interpreter.push, if_neg (by simpa [Interpreter.depth] using hpush)]

/-- A loop that is reached from its last line goes on with the same frame. -/
theorem enterLoop_inside (line index : Nat) (outer : List (Nat × Nat)) (symbols : Symbols) :
    (t.spot line ((line, index) :: outer) symbols).enterLoop line =
      .ok (t.spot line ((line, index) :: outer) symbols) := by
  unfold Interpreter.enterLoop
  simp [spot, frames, Frame.opener?, Interpreter.jump, Interpreter.modifyTop]

/-- The next pass begins at the first line of the loop. -/
theorem continueLoop_spot (line opener index : Nat) (outer : List (Nat × Nat))
    (symbols : Symbols) (command : String) :
    (t.spot line ((opener, index) :: outer) symbols).continueLoop command =
      .next (t.spot opener ((opener, index + 1) :: outer) symbols) := rfl

/-- A loop is left for the line after all that is deeper than its first line. -/
theorem breakLoop_spot {line opener index depth : Nat} {outer : List (Nat × Nat)}
    {symbols : Symbols} (h : (t.header.lines[opener]?).map (·.depth) = some depth) :
    (t.spot line ((opener, index) :: outer) symbols).breakLoop t.header =
      .next (t.spot (Scan.pastLoop t.header.lines line depth) outer symbols) := by
  have htop : ((t.spot line ((opener, index) :: outer) symbols).top?.bind fun f =>
      f.opener?.map fun opener => (f.line, opener)) = some (line, opener) := rfl
  rw [Interpreter.breakLoop, htop]
  dsimp only
  rw [h, pop_spot, jump_spot]
  rfl

/-! ## steps -/

/-- A line has a command. -/
def Has (line : Nat) (command : Command) : Prop :=
  (t.header.lines[line]?).map (·.command) = some command

theorem has_of_placed {k depth : Nat} {command : Command} {shapes : List (Command × Nat)}
    (h : Placed t.header.lines k ((command, depth) :: shapes)) : t.Has k command := by
  obtain ⟨⟨l, hl, hc, -⟩, -⟩ := h.cons
  exact Option.map_eq_some_iff.mpr ⟨l, hl, hc⟩

/-- The line at which a script stands is the one that is executed. -/
theorem execute_spot {line : Nat} {command : Command} (h : t.Has line command)
    (loops : List (Nat × Nat)) (symbols : Symbols) :
    (t.spot line loops symbols).execute t.image =
      (t.spot line loops symbols).executeLine t.image t.header line command := by
  obtain ⟨l, hl, rfl⟩ := Option.map_eq_some_iff.mp h
  obtain ⟨f, hf, hline, hheader⟩ := t.top?_spot line loops symbols
  unfold Interpreter.execute
  rw [hf]
  dsimp only
  rw [hheader, t.found]
  dsimp only
  rw [hline, hl]

/-- A step that goes on keeps the world, and stores the symbols. -/
theorem step_next {line line' : Nat} {loops loops' : List (Nat × Nat)} {x : Scene σ}
    {symbols : Symbols}
    (h : (t.spot line loops x.symbols).execute t.image = .next (t.spot line' loops' symbols)) :
    (t.at_ line loops x).step t.setting.host = t.at_ line' loops' (x.store symbols) := by
  have hr : (t.spot line loops x.symbols).isRunning = true := rfl
  have hi : (t.spot line loops x.symbols).image = some t.image := rfl
  have hasked : (t.spot line loops x.symbols).asked? = none := by
    rw [Interpreter.asked?, if_pos hr, hi, Option.bind_some, h]
  have hstep := Interpreter.step_of_running t.setting.host x.world hr hi
  simp only [Interpreter.outcomeWith, h, Interpreter.settled] at hstep
  unfold Progress.step Progress.deeds at_
  simp only [hstep, hasked, Scene.store, symbols_spot]
  by_cases hs : symbols = x.symbols
  · simp [hs]
  · simp [hs]

/-- A step that asks the host goes on to the next line. -/
theorem step_ask {line : Nat} {loops : List (Nat × Nat)} {x : Scene σ} {command : String}
    {args : List String}
    (h : (t.spot line loops x.symbols).execute t.image = .ask command args) :
    (t.at_ line loops x).step t.setting.host =
      t.at_ (line + 1) loops (x.call t.setting.host command args) := by
  have hr : (t.spot line loops x.symbols).isRunning = true := rfl
  have hi : (t.spot line loops x.symbols).image = some t.image := rfl
  have hasked := Interpreter.asked_of_execute hr hi h
  have hstep := Interpreter.step_of_running t.setting.host x.world hr hi
  simp only [Interpreter.outcomeWith, h, t.proceeds, Interpreter.answered, Interpreter.settled,
    advance_spot] at hstep
  unfold Progress.step Progress.deeds at_
  simp only [hstep, hasked, Scene.call, symbols_spot]
  simp

/-- A script that has no lines left ends, and does nothing else. -/
theorem step_end {line : Nat} (h : t.header.lines[line]? = none) (x : Scene σ) :
    (t.at_ line [] x).step t.setting.host =
      ⟨{ t.spot line [] x.symbols with status := .exited .exit }, x.world, x.effects⟩ := by
  have hr : (t.spot line [] x.symbols).isRunning = true := rfl
  have hi : (t.spot line [] x.symbols).image = some t.image := rfl
  have he : (t.spot line [] x.symbols).execute t.image =
      .pause { t.spot line [] x.symbols with status := .exited .exit } := by
    unfold Interpreter.execute
    simp only [Interpreter.top?, spot, frames, List.head?_cons, t.found, h]
    rfl
  have hasked : (t.spot line [] x.symbols).asked? = none := by
    rw [Interpreter.asked?, if_pos hr, hi, Option.bind_some, he]
  have hstep := Interpreter.step_of_running t.setting.host x.world hr hi
  simp only [Interpreter.outcomeWith, he, Interpreter.settled] at hstep
  unfold Progress.step Progress.deeds at_
  simp only [hstep, hasked]
  simp

end Track

end Switchboard
