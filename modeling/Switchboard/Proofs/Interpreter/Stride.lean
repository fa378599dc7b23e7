import Switchboard.Proofs.Interpreter.Reachable

/-!
# Switchboard.Proofs.Interpreter.Stride

What one line does to the activations of a script.

1. An activation is the frame of the script or of a call, with the frames of its loops
   on top.  Most lines stay inside of the innermost one: its loops change and its line,
   and nothing else (`Inside`).
2. The others call, jump, return or end the script.  `Stride` lists what a line does
   before an error is raised, and a step then goes on, traps the error, or ends the
   script (`step_strides`).
-/

namespace Switchboard

/-- Commands that stay inside of an activation. -/
def Command.isLocal : Command → Bool
  | .goto _ | .gosub _ | .invoke _ _ | .leave | .exit => false
  | _ => true

/-- Commands that call another header. -/
def Command.isCall : Command → Bool
  | .gosub _ | .invoke _ _ => true
  | _ => false

namespace Interpreter

/-! ## inside of an activation -/

/-- The innermost activation may stand at another line, in other loops. -/
def Inside (origin frames : List Frame) : Prop :=
  ∃ f below line, outsideLoops origin = f :: below ∧ f.isLoop = false ∧
    outsideLoops frames = { f with line } :: below

namespace Inside

variable {origin frames below : List Frame} {f g : Frame}

/-- Sound frames lie inside themselves. -/
theorem of_stacked {image : Image} (h : Stacked image frames) : Inside frames frames := by
  obtain ⟨f, below, ho, hl, -⟩ := h.outsideLoops
  exact ⟨f, below, f.line, ho, hl, ho⟩

/-- The frame of a loop does not count. -/
theorem push (h : Inside origin frames) (hl : f.isLoop = true) : Inside origin (f :: frames) := by
  obtain ⟨g, below, line, ho, hg, hf⟩ := h
  obtain ⟨x, rest, rfl⟩ : ∃ x rest, frames = x :: rest := by
    cases frames with
    | nil => simp [outsideLoops] at hf
    | cons x rest => exact ⟨x, rest, rfl⟩
  refine ⟨g, below, line, ho, hg, ?_⟩
  rw [outsideLoops, if_pos hl, hf]

/-- Below the frame of a loop there is another frame of the activation. -/
theorem pop (h : Inside origin (f :: frames)) (hl : f.isLoop = true) : Inside origin frames := by
  obtain ⟨g, below, line, ho, hg, hf⟩ := h
  refine ⟨g, below, line, ho, hg, ?_⟩
  cases frames with
  | nil =>
      obtain ⟨rfl, -⟩ := List.cons.inj hf
      simp [Frame.isLoop, Frame.opener?] at hl hg
      simp [hg] at hl
  | cons x rest => rwa [outsideLoops, if_pos hl] at hf

/-- The innermost frame may change: that of a loop in all but its kind, and another one
in its line. -/
theorem replace (h : Inside origin (f :: below)) (hk : g.kind = f.kind)
    (hg : f.isLoop = false → g = { f with line := g.line }) : Inside origin (g :: below) := by
  cases hl : f.isLoop with
  | true => exact (h.pop hl).push (by simpa [Frame.isLoop, Frame.opener?, hk] using hl)
  | false =>
      obtain ⟨c, rest, line, ho, hc, hf⟩ := h
      have hself : ∀ x : Frame, x.isLoop = false → outsideLoops (x :: below) = x :: below := by
        intro x hx
        cases below with
        | nil => rfl
        | cons y rest => rw [outsideLoops, if_neg (by simp [hx])]
      rw [hself f hl] at hf
      obtain ⟨rfl, rfl⟩ := List.cons.inj hf
      refine ⟨c, below, g.line, ho, hc, ?_⟩
      rw [hself g (by rw [hg hl]; exact hc), hg hl]

end Inside

/-- A line that stays inside of an activation neither pauses nor ends a script. -/
def Outcome.Stays (origin : List Frame) : Outcome → Prop
  | .next t | .fault _ t => Inside origin t.frames
  | .ask _ _ => True
  | .pause _ => False

section
variable {origin : List Frame} {s t : Interpreter}

/-- A trial stays inside if what comes after it does. -/
theorem Outcome.Stays.attempt {α : Type} {r : Except Fault α} {k : α → Outcome}
    (hs : Inside origin s.frames) (h : ∀ a, r = .ok a → (k a).Stays origin) :
    (Interpreter.attempt s r k).Stays origin := by
  cases r with
  | ok a => exact h a rfl
  | error cause => exact hs

/-- A change of the innermost frame that keeps its kind stays inside. -/
theorem Inside.modifyTop (h : Inside origin s.frames) {change : Frame → Frame}
    (hk : ∀ f, (change f).kind = f.kind)
    (hc : ∀ f, f.isLoop = false → change f = { f with line := (change f).line }) :
    Inside origin (s.modifyTop change).frames := by
  unfold Interpreter.modifyTop
  split
  · exact h
  · next f below hf =>
      rw [hf] at h
      exact h.replace (hk f) (hc f)

/-- A jump within a section stays inside. -/
theorem Inside.jump (h : Inside origin s.frames) (line : Nat) :
    Inside origin (s.jump line).frames := h.modifyTop (fun _ => rfl) (fun _ _ => rfl)

/-- So does the next line. -/
theorem Inside.advance (h : Inside origin s.frames) : Inside origin s.advance.frames :=
  h.modifyTop (fun _ => rfl) (fun _ _ => rfl)

/-- So does a loop that is entered. -/
theorem Inside.enterLoop (h : Inside origin s.frames) {opener : Nat}
    (ht : s.enterLoop opener = .ok t) : Inside origin t.frames := by
  unfold Interpreter.enterLoop at ht
  split at ht
  · obtain rfl := Except.ok.inj ht
    exact h
  · split at ht
    · obtain rfl := Except.ok.inj ht
      exact h.jump opener
    · unfold Interpreter.push at ht
      split at ht
      · contradiction
      · obtain rfl := Except.ok.inj ht
        exact h.push rfl

/-- The loop of the innermost frame is left. -/
theorem Inside.popLoop (h : Inside origin s.frames) {f : Frame} (hf : s.top? = some f)
    (hl : f.isLoop = true) : Inside origin s.pop.frames := by
  obtain ⟨below, hs⟩ := List.head?_eq_some_iff.mp hf
  rw [hs] at h
  simp only [Interpreter.pop, hs, List.tail_cons]
  exact h.pop hl

/-- So does one that is broken off. -/
theorem Inside.breakLoop (h : Inside origin s.frames) (header : Header) :
    (s.breakLoop header).Stays origin := by
  unfold Interpreter.breakLoop
  split
  · exact h
  · next line opener ho =>
      obtain ⟨f, hf, ho⟩ := Option.bind_eq_some_iff.mp ho
      obtain ⟨o, ho, -⟩ := Option.map_eq_some_iff.mp ho
      exact (h.popLoop hf (by simp [Frame.isLoop, ho])).jump _

/-- So does one that goes on. -/
theorem Inside.continueLoop (h : Inside origin s.frames) (command : String) :
    (s.continueLoop command).Stays origin := by
  unfold Interpreter.continueLoop
  split
  · exact h
  · next opener ho =>
      obtain ⟨f, hf, ho⟩ := Option.bind_eq_some_iff.mp ho
      obtain ⟨below, hs⟩ := List.head?_eq_some_iff.mp hf
      rw [hs] at h
      simp only [Outcome.Stays, Interpreter.modifyTop, hs]
      exact h.replace rfl fun hl => by simp [Frame.isLoop, ho] at hl

/-- So does a pass. -/
theorem Inside.passIf (h : Inside origin s.frames) (header : Header) (due : Bool) :
    (s.passIf header due).Stays origin := by
  cases due with
  | true => exact h.advance
  | false => exact h.breakLoop header

/-- Lines of commands that stay inside of an activation do so. -/
theorem Inside.executeLine (h : Inside origin s.frames) (image : Image) (header : Header)
    (line : Nat) {c : Command} (hc : c.isLocal = true) :
    (s.executeLine image header line c).Stays origin := by
  cases c with
  | goto | gosub | invoke | leave | exit => contradiction
  | set target args => exact .attempt h fun _ _ => Inside.advance (s := { s with symbols := _ }) h
  | clear targets => exact Inside.advance (s := { s with symbols := _ }) h
  | declare name size args =>
      refine .attempt h fun t ht => ?_
      obtain ⟨symbols, rfl⟩ := symbols_of_declare ht
      exact Inside.advance (s := { s with symbols }) h
  | expr target op expression | index target expression =>
      refine .attempt h fun t ht => ?_
      obtain ⟨symbols, rfl⟩ := symbols_of_assignExpression ht
      exact Inside.advance (s := { s with symbols }) h
  | branch cond => exact .attempt h fun line _ => h.jump line
  | elseBranch cond | otherBranch | otherChoice => exact h.jump _
  | choice cond opens =>
      cases opens with
      | true => exact .attempt h fun line _ => h.jump line
      | false => exact h.jump _
  | endBranch | endChoice => exact h.advance
  | doLoop => exact .attempt h fun t ht => (h.enterLoop ht).advance
  | whileLoop cond | repeatLoop count =>
      exact .attempt h fun t ht => .attempt (h.enterLoop ht) fun due _ =>
        (h.enterLoop ht).passIf header due
  | eachLoop target items delimiter =>
      refine .attempt h fun t ht => .attempt (h.enterLoop ht) fun text _ => ?_
      split
      · exact (h.enterLoop ht).breakLoop header
      · exact .attempt (h.enterLoop ht) fun _ _ =>
          (show Inside origin { t with symbols := _ }.frames from h.enterLoop ht).advance
  | endLoop => exact h.continueLoop _
  | untilLoop cond =>
      refine .attempt h fun holds _ => ?_
      split
      · split
        · next htop =>
            cases hf : s.top? with
            | none => simp [hf] at htop
            | some f => exact (h.popLoop hf (by simpa [hf] using htop)).jump _
        · exact h
      · exact h.continueLoop _
  | breakLoop => exact h.breakLoop header
  | continueLoop => exact h.continueLoop _
  | raise args => exact .attempt h fun _ _ => h
  | application name args => exact .attempt h fun _ _ => trivial

end

/-! ## lines that leave an activation -/

/-- A script that runs stands at a line that returns, or has run off its header. -/
def returns (s : Interpreter) : Bool := s.isRunning && s.command?.all (· == .leave)

/-- A script that runs stands at a jump that finds its destination. -/
def jumps (s : Interpreter) : Bool :=
  s.isRunning && match s.image, s.command? with
    | some image, some (.goto _) =>
      match s.execute image with
      | .next _ => true
      | _ => false
    | _, _ => false

/-- A script that runs stands at a call that adds its frame. -/
def calls (s : Interpreter) : Bool :=
  s.isRunning && match s.image, s.command? with
    | some image, some c =>
      c.isCall && match s.execute image with
        | .next t | .fault _ t => s.depth < t.depth
        | _ => false
    | _, _ => false

/-- What a line makes of the frames before an error is raised or the script ends. -/
inductive Stride (s : Interpreter) : List Frame → Prop
  | still : Stride s s.frames
  | inside {c : Command} {after : List Frame} : s.command? = some c → c.isLocal = true →
      Inside s.frames after → Stride s after
  | call {f : Frame} : s.calls = true → f.isCall = true → f.trapped = false →
      Stride s (f :: s.frames)
  | jump {f g : Frame} {below : List Frame} : s.jumps = true →
      outsideLoops s.frames = f :: below → g.kind = f.kind → Stride s (g :: below)
  | back {f g : Frame} {below : List Frame} : s.returns = true →
      outsideLoops s.frames = f :: g :: below → f.isCall = true →
      Stride s ({ g with line := g.line + 1 } :: below)

/-- What an outcome leaves: a line goes on or is at fault after a stride; or the script
ends, or waits at the next line. -/
def Outcome.Strides (s : Interpreter) : Outcome → Prop
  | .next t | .fault _ t => Stride s t.frames
  | .pause t => (∃ reason, t = s.finish reason) ∨ t = s.advance ∧ Stride s t.frames
  | .ask _ _ => True

section
variable {s t : Interpreter} {image : Image} {f : Frame} {below : List Frame}
  {header : Header} {l : Line}

/-- The command that is due is that of the line. -/
theorem command?_eq (hi : s.image = some image) (hs : s.frames = f :: below)
    (hf : image.headerAt? f.header = some header) (hl : header.lines[f.line]? = some l) :
    s.command? = some l.command := by
  simp [command?, hi, top?, hs, hf, hl]

/-- A line is executed by its command. -/
theorem execute_eq (hs : s.frames = f :: below) (hf : image.headerAt? f.header = some header)
    (hl : header.lines[f.line]? = some l) :
    s.execute image = s.executeLine image header f.line l.command := by
  simp [execute, top?, hs, hf, hl]

/-- A return gives back exactly the frame of its call. -/
theorem returnFrom_strides (hr : s.returns = true) : s.returnFrom.Strides s := by
  have hend : (Outcome.pause (s.leaveLoops.finish .exit)).Strides s :=
    .inl ⟨.exit, finish_leaveLoops s .exit⟩
  unfold returnFrom
  dsimp only
  split
  · next top g rest hf =>
      split
      · next hc =>
          simp only [Outcome.Strides, advance, modifyTop, pop, hf, List.tail_cons]
          exact .back hr hf hc
      · exact hend
  · exact hend

/-- A frame that is pushed lies on the others. -/
theorem frames_of_call {kind : FrameKind} {i line : Nat} (h : s.call image kind i line = .ok t) :
    t.frames = ⟨i, line, kind, 0, s.mask ||| image.maskAt i, false⟩ :: s.frames := by
  unfold call push at h
  split at h
  · contradiction
  · obtain rfl := Except.ok.inj h
    rfl

/-- To bind arguments leaves the frames alone. -/
theorem bindArguments_frames (scope : Scope) (args : List (String × String)) :
    ∃ u, u.frames = t.frames ∧ (t.bindArguments scope args = .next u ∨
      ∃ cause, t.bindArguments scope args = .fault cause u) := by
  induction args generalizing t with
  | nil => exact ⟨t, rfl, .inl rfl⟩
  | cons arg rest ih =>
      obtain ⟨name, text⟩ := arg
      unfold bindArguments
      cases t.symbols.assignScoped scope name text with
      | error cause => exact ⟨t, rfl, .inr ⟨cause, rfl⟩⟩
      | ok symbols => exact ih (t := { t with symbols })

/-- A call whose frame lies on the others is a stride, also if it is at fault then. -/
theorem Stride.of_call {c : Command} {o : Outcome} (hr : s.isRunning = true)
    (hi : s.image = some image) (hc : s.command? = some c) (hcall : c.isCall = true)
    (he : s.execute image = o) (ho : o = .next t ∨ ∃ cause, o = .fault cause t)
    (ht : t.frames = f :: s.frames) (hf : f.isCall = true) (hfree : f.trapped = false) :
    Stride s t.frames := by
  have hdepth : s.depth < t.depth := by simp [depth, ht]
  rw [ht]
  refine .call ?_ hf hfree
  obtain rfl | ⟨cause, rfl⟩ := ho <;> simp [calls, hr, hi, hc, hcall, he, hdepth]

/-- A jump strides as its command says. -/
theorem goto_strides (h : Stacked image s.frames) (hr : s.isRunning = true)
    (hi : s.image = some image) {targets : List Argument} {line : Nat}
    (hc : s.command? = some (.goto targets))
    (he : s.execute image = s.executeLine image header line (.goto targets)) :
    (s.execute image).Strides s := by
  cases hd : s.resolve image header targets with
  | error cause =>
      simp only [he, executeLine, attempt, hd]
      exact .still
  | ok d =>
      have hnext : s.execute image = .next (s.goTo image d) := by
        simp only [he, executeLine, attempt, hd]
      obtain ⟨f, below, ho, -, -⟩ := h.outsideLoops
      rw [hnext]
      simp only [Outcome.Strides, goTo, leaveLoops, modifyTop, ho]
      exact .jump (by simp [jumps, hr, hi, hc, hnext]) ho rfl

/-- So does a call of a section. -/
theorem gosub_strides (hr : s.isRunning = true) (hi : s.image = some image)
    {targets : List Argument} {line : Nat}
    (hc : s.command? = some (.gosub targets))
    (he : s.execute image = s.executeLine image header line (.gosub targets)) :
    (s.execute image).Strides s := by
  cases hd : s.resolve image header targets with
  | error cause =>
      simp only [he, executeLine, attempt, hd]
      exact .still
  | ok d =>
      cases ht : s.call image (.gosub d.place) d.header d.line with
      | error cause =>
          simp only [he, executeLine, attempt, hd, ht]
          exact .still
      | ok t =>
          have hnext : s.execute image = .next t := by
            simp only [he, executeLine, attempt, hd, ht]
          rw [hnext]
          exact .of_call hr hi hc rfl hnext (.inl rfl) (frames_of_call ht) rfl rfl

/-- So does a call with arguments. -/
theorem invoke_strides (hr : s.isRunning = true) (hi : s.image = some image)
    {target : String} {args : List (String × Argument)} {line : Nat}
    (hc : s.command? = some (.invoke target args))
    (he : s.execute image = s.executeLine image header line (.invoke target args)) :
    (s.execute image).Strides s := by
  simp only [executeLine] at he
  split at he
  · rw [he]
    exact .still
  · next i _ =>
      cases hb : s.bound args with
      | error cause =>
          simp only [he, attempt, hb]
          exact .still
      | ok bound =>
          cases ht : s.call image .invoke i 0 with
          | error cause =>
              simp only [he, attempt, hb, ht]
              exact .still
          | ok t =>
              have hnext : s.execute image = t.bindArguments (some i) bound := by
                simp only [he, attempt, hb, ht]
              obtain ⟨u, hu, ho⟩ := bindArguments_frames (t := t) (some i) bound
              have hcall := Stride.of_call hr hi hc rfl hnext ho (hu.trans (frames_of_call ht))
                rfl rfl
              rw [hnext]
              obtain ho | ⟨cause, ho⟩ := ho <;> rw [ho] <;> exact hcall

/-- Every line makes a stride, ends the script, or asks the host. -/
theorem execute_strides (h : Stacked image s.frames) (hr : s.isRunning = true)
    (hi : s.image = some image) :
    (s.execute image).Strides s := by
  obtain ⟨f, below, hs⟩ := List.exists_cons_of_ne_nil h.ne_nil
  cases hf : image.headerAt? f.header with
  | none =>
      simp only [execute, top?, hs, List.head?_cons, hf]
      exact .still
  | some header =>
      cases hl : header.lines[f.line]? with
      | none =>
          have hreturns : s.returns = true := by
            simp [returns, hr, command?, hi, top?, hs, hf, hl]
          simp only [execute, top?, hs, List.head?_cons, hf, hl]
          exact returnFrom_strides hreturns
      | some l =>
          have hc := command?_eq hi hs hf hl
          have he := execute_eq hs hf hl
          cases hlocal : l.command.isLocal with
          | true =>
              have hstays := (Inside.of_stacked h).executeLine image header f.line hlocal
              rw [← he] at hstays
              generalize s.execute image = o at hstays
              cases o with
              | next t | fault cause t => exact .inside hc hlocal hstays
              | ask _ _ => trivial
              | pause t => exact hstays.elim
          | false =>
              generalize l.command = c at hc he hlocal
              cases c with
              | goto targets => exact goto_strides h hr hi hc he
              | gosub targets => exact gosub_strides hr hi hc he
              | invoke target args => exact invoke_strides hr hi hc he
              | leave =>
                  rw [he]
                  exact returnFrom_strides (by simp [returns, hr, hc])
              | exit =>
                  rw [he]
                  exact .inl ⟨.exit, rfl⟩
              | _ => contradiction

/-- So does a line whose command the host has answered. -/
theorem outcomeWith_strides {σ : Type} (host : Host σ) (world : σ) (h : Stacked image s.frames)
    (hr : s.isRunning = true) (hi : s.image = some image) :
    (s.outcomeWith image host world).1.Strides s := by
  have hstrides := execute_strides h hr hi
  have halong := execute_along image h.ne_nil
  unfold outcomeWith
  split
  · next command args he =>
      rw [he] at halong
      obtain ⟨f, below, header, l, args, hs, hf, hl, hc⟩ := halong
      have hcommand := command?_eq hi hs hf hl
      have hnext : Stride s s.advance.frames :=
        .inside hcommand (by simp [hc, Command.isLocal]) (Inside.of_stacked h).advance
      dsimp only
      cases (host.execute command _ world).1 with
      | none => exact .still
      | some action =>
          cases action with
          | proceed => exact hnext
          | suspend => exact .inr ⟨rfl, hnext⟩
          | exit reason => exact .inl ⟨_, rfl⟩
          | fail reason | abort => exact .still
  · exact hstrides

end

/-! ## steps -/

/-- An error goes to a handler, or ends the script. -/
theorem error_continues {t : Interpreter} {image : Image} (hr : t.isRunning = true)
    (hi : t.image = some image) (text : String) :
    Continues image t.frames (t.error text).state ∧
      ((t.error text).handled = true →
        trapped? image t.frames = some (t.error text).state.frames) := by
  have hstatus : t.status = .running := by simpa [isRunning] using hr
  unfold error
  simp only [hr, if_true, hi, Option.bind_some]
  cases hf : trapped? image t.frames with
  | some frames => exact ⟨.trapped hstatus hf, fun _ => rfl⟩
  | none => exact ⟨.ended _ rfl rfl, by simp⟩

/-- A step hands an error to a handler. -/
def traps {σ : Type} (s : Interpreter) (host : Host σ) (world : σ) : Bool :=
  s.isRunning && match s.image with
    | none => false
    | some image =>
      match (s.outcomeWith image host world).1 with
      | .fault cause t => !cause.isFatal && (t.error cause.message).handled
      | _ => false

/-- What becomes of a script that takes a step: after a stride it goes on, or hands an
error to a handler, or ends. -/
theorem step_strides {σ : Type} {s : Interpreter} {image : Image} (host : Host σ) (world : σ)
    (hr : s.isRunning = true) (hi : s.image = some image) (h : Stacked image s.frames) :
    ∃ frames, Stride s frames ∧ Continues image frames (s.step host world).state ∧
      (s.traps host world = true →
        trapped? image frames = some (s.step host world).state.frames) := by
  have hstatus : s.status = .running := by simpa [isRunning] using hr
  have hstrides := outcomeWith_strides host world h hr hi
  rw [step_of_running host world hr hi]
  simp only [traps, hr, hi, Bool.true_and]
  rcases outcomeWith_along image host world h.ne_nil with ⟨halong, hask⟩ | ⟨_, _, _, _, hp, hnext⟩
  · generalize (s.outcomeWith image host world).1 = o at hstrides halong hask
    cases o with
    | next t => exact ⟨t.frames, hstrides, .onward (halong.status.trans hstatus) rfl, by simp⟩
    | ask command args => exact absurd rfl (hask command args)
    | pause t =>
        refine ⟨s.frames, .still, ?_, by simp⟩
        obtain ⟨u, reason, hu, rfl⟩ := halong
        obtain ⟨reason', he⟩ | ⟨he, -⟩ := hstrides
        · simp only [settled, he]
          exact .ended reason' rfl rfl
        · have hended := congrArg isRunning he
          rw [isRunning_advance, hr] at hended
          exact absurd hended (by simp [isRunning, finish])
    | fault cause t =>
        have hrun : t.isRunning = true := by simp [isRunning, halong.1.status, hstatus]
        obtain ⟨hcontinues, htrapped⟩ :=
          error_continues hrun (halong.1.image.trans hi) cause.message
        refine ⟨t.frames, hstrides, ?_⟩
        cases hfatal : cause.isFatal with
        | true =>
            simp only [settled, hfatal, if_true]
            exact ⟨.onward (halong.1.status.trans hstatus) rfl, by simp⟩
        | false =>
            simp only [settled, hfatal]
            exact ⟨hcontinues, by simpa using htrapped⟩
  · rw [hp] at hstrides ⊢
    have hstride : Stride s s.advance.frames := by
      obtain ⟨reason, he⟩ | ⟨-, hstride⟩ := hstrides
      · have hran := congrArg Interpreter.status he
        rw [hnext.status, hstatus] at hran
        simp [finish] at hran
      · exact hstride
    exact ⟨s.advance.frames, hstride, .onward (hnext.status.trans hstatus) rfl, by simp⟩

end Interpreter

end Switchboard
