import Switchboard.Proofs.Interpreter.Reachable

/-!
# Switchboard.Proofs.Interpreter.Checked

No script runs out of frames.

1. `step?` is a step that fails wherever it would take the innermost frame of an
   empty stack.  Everything that moves inside of a frame is checked (`held`), also
   after a frame was dropped.
2. On stacked frames nothing fails, whatever the lines are: below the frame of a
   loop, and below one that `return` drops, there is another.
3. `stack_discipline` says of every interpreter that operations lead to, with
   whatever images, how its frames, its image and its status go together.
-/

namespace Switchboard.Interpreter

/-! ## steps that are checked -/

section
variable {α σ : Type} (s : Interpreter) (image : Image) (header : Header)

/-- What is made of the innermost frame, if there is one. -/
def held (a : α) : Option α := if s.frames.isEmpty then none else some a

/-- Go to the next line. -/
def advance? : Option Interpreter := s.held s.advance

/-- Go to a line of the same header. -/
def jump? (line : Nat) : Option Interpreter := s.held (s.jump line)

/-- Go on with a result, or fail in the state `s`. -/
def attempt? (r : Except Fault α) (k : α → Option Outcome) : Option Outcome :=
  match r with
  | .ok a => k a
  | .error cause => some (.fault cause s)

/-- Have a frame for the loop that begins at `opener`. -/
def enterLoop? (opener : Nat) : Option (Except Fault Interpreter) := s.held (s.enterLoop opener)

/-- Leave the innermost loop and go to the line after it. -/
def breakLoop? : Option Outcome :=
  match s.top?.bind fun f => f.opener?.map fun opener => (f.line, opener) with
  | none => some (.fault (.notInLoop "break") s)
  | some (line, opener) =>
    let depth := ((header.lines[opener]?).map (·.depth)).getD 0
    (s.pop.jump? (Scan.pastLoop header.lines line depth)).map .next

/-- Begin the next pass of the innermost loop. -/
def continueLoop? (command : String) : Option Outcome := s.held (s.continueLoop command)

/-- Begin a pass if it is due, and leave the loop if it is not. -/
def passIf? (due : Bool) : Option Outcome :=
  if due then s.advance?.map .next else s.breakLoop? header

/-- Return to the line after the call, or end the script. -/
def returnFrom? : Option Outcome :=
  let s := s.leaveLoops
  match s.frames with
  | top :: _ :: _ =>
    if top.isCall then s.pop.advance?.map .next else some (.pause (s.finish .exit))
  | _ => some (.pause (s.finish .exit))

/-- Go on at a destination, outside of every loop of this frame. -/
def goTo? (d : Destination) : Option Interpreter := s.leaveLoops.held (s.goTo image d)

/-- Execute a line of a header. -/
def executeLine? (at_ : Nat) : Command → Option Outcome
  | .set target args =>
    s.attempt? (s.concat args >>= s.symbols.assign s.scope target) fun symbols =>
      { s with symbols }.advance?.map .next
  | .clear targets =>
    let symbols := targets.foldl (fun t name => t.clear s.scope name) s.symbols
    { s with symbols }.advance?.map .next
  | .declare name size args =>
    s.attempt? (s.declare name size args) fun s => s.advance?.map .next
  | .expr target op expression =>
    s.attempt? (s.assignExpression target op expression s.limits.decimals) fun s =>
      s.advance?.map .next
  | .index target expression =>
    s.attempt? (s.assignExpression target .set expression 0) fun s => s.advance?.map .next
  | .branch _ =>
    s.attempt? (Scan.taken Scan.branchRole Scan.branchGuard s.condition header.lines at_)
      fun line => (s.jump? line).map .next
  | .elseBranch _ | .otherBranch =>
    (s.jump? (Scan.closer Scan.branchRole header.lines at_ + 1)).map .next
  | .choice _ true =>
    s.attempt? (Scan.taken Scan.choiceRole Scan.choiceGuard s.condition header.lines at_)
      fun line => (s.jump? line).map .next
  | .choice _ false | .otherChoice =>
    (s.jump? (Scan.closer Scan.choiceRole header.lines at_ + 1)).map .next
  | .endBranch | .endChoice => s.advance?.map .next
  | .doLoop => (s.enterLoop? at_).bind fun r => s.attempt? r fun s => s.advance?.map .next
  | .whileLoop cond =>
    (s.enterLoop? at_).bind fun r => s.attempt? r fun s =>
      s.attempt? (s.condition cond) (s.passIf? header)
  | .repeatLoop count =>
    (s.enterLoop? at_).bind fun r => s.attempt? r fun s =>
      (s.held (s.repeatDue count)).bind fun due => s.attempt? due (s.passIf? header)
  | .eachLoop target items delimiter =>
    (s.enterLoop? at_).bind fun r => s.attempt? r fun s =>
      s.attempt? (s.value items) fun text =>
        (s.held ((piecesOf text delimiter)[s.loopIndex]?)).bind fun item? =>
          match item? with
          | none => s.breakLoop? header
          | some item =>
            s.attempt? (s.symbols.assign s.scope target item) fun symbols =>
              { s with symbols }.advance?.map .next
  | .endLoop => s.continueLoop? "loop"
  | .untilLoop cond =>
    s.attempt? (s.condition cond) fun holds =>
      if holds then
        (s.held ((s.top?.map Frame.isLoop).getD false)).bind fun inLoop =>
          if inLoop then (s.pop.jump? (at_ + 1)).map .next
          else some (.fault (.notInLoop "until") s)
      else s.continueLoop? "until"
  | .breakLoop => s.breakLoop? header
  | .continueLoop => s.continueLoop? "continue"
  | .goto targets =>
    s.attempt? (s.resolve image header targets) fun d => (s.goTo? image d).map .next
  | .gosub targets =>
    s.attempt? (s.resolve image header targets) fun d =>
      s.attempt? (s.call image (.gosub d.place) d.header d.line) fun s => some (.next s)
  | .invoke target args =>
    match image.indexOf? target with
    | none => some (.fault (.labelNotFound ("@" ++ target)) s)
    | some i =>
      s.attempt? (s.bound args) fun bound =>
        s.attempt? (s.call image .invoke i 0) fun s => some (s.bindArguments (some i) bound)
  | .leave => s.returnFrom?
  | .exit => some (.pause (s.finish .exit))
  | .raise args => s.attempt? (s.concat args) fun message => some (.fault (.raised message) s)
  | .application name args => s.attempt? (s.values args) fun texts => some (.ask name texts)

/-- Execute the current line. -/
def execute? : Option Outcome :=
  match s.top? with
  | none => some (.pause s)
  | some frame =>
    match image.headerAt? frame.header with
    | none => some (.fault (.labelNotFound s!"#{frame.header}") s)
    | some header =>
      match header.lines[frame.line]? with
      | none => s.returnFrom?
      | some line => s.executeLine? image header frame.line line.command

/-- What a line did whose command the host answered. -/
def answered? (command : String) : Option Action → Option Outcome
  | none => some (.fault (.unknownCommand command) s)
  | some .proceed => s.advance?.map .next
  | some .suspend => s.advance?.map .pause
  | some (.exit reason) => some (.pause (s.finish (.host reason)))
  | some (.fail reason) => some (.fault (.commandFailed command reason) s)
  | some .abort => some (.fault (.hostAborted command) s)

/-- Execute one line, with the help of a host. -/
def step? (host : Host σ) (world : σ) : Option (Stepped σ) :=
  if s.isRunning then
    match s.image with
    | none => some ⟨s, world, .pause, none⟩
    | some image => do
      let outcome ← s.execute? image
      let (outcome, world) ← match outcome with
        | .ask command args =>
          let (action, world) := host.execute command args world
          (s.answered? command action).map fun outcome => (outcome, world)
        | outcome => some (outcome, world)
      let (after, signal, report) := s.settled outcome
      return ⟨after, world, signalAfter s.mask after signal, report⟩
  else some ⟨s, world, .pause, none⟩

end

/-! ## nothing fails -/

section
variable {α σ : Type} {s : Interpreter} {image : Image}

/-- With a frame on the stack nothing is missing. -/
theorem held_eq (hs : s.frames ≠ []) (a : α) : s.held a = some a := by
  simp [held, hs]

/-- There is a frame that goes to the next line. -/
theorem advance?_eq (hs : s.frames ≠ []) :
    s.advance?.map Outcome.next = some (.next s.advance) := by
  rw [advance?, held_eq hs]
  rfl

/-- There is one that jumps. -/
theorem jump?_eq (hs : s.frames ≠ []) (line : Nat) :
    (s.jump? line).map Outcome.next = some (.next (s.jump line)) := by
  rw [jump?, held_eq hs]
  rfl

/-- A trial finds its frames if what comes after it does. -/
theorem attempt?_eq {r : Except Fault α} {k? : α → Option Outcome} {k : α → Outcome}
    (h : ∀ a, r = .ok a → k? a = some (k a)) : s.attempt? r k? = some (attempt s r k) := by
  cases r with
  | error cause => rfl
  | ok a => exact h a rfl

/-- Below the frame of a loop there is another. -/
theorem Stacked.pop_ne_nil (h : Stacked image s.frames) {f : Frame} (ht : s.top? = some f)
    (hl : f.isLoop = true) : s.pop.frames ≠ [] := by
  obtain ⟨below, hs⟩ := List.head?_eq_some_iff.mp ht
  obtain ⟨g, rest, hb⟩ := (hs ▸ h).below_loop hl
  simp [pop, hs, hb]

/-- A loop that is broken off finds the frame below it. -/
theorem breakLoop?_eq (h : Stacked image s.frames) (header : Header) :
    s.breakLoop? header = some (s.breakLoop header) := by
  unfold breakLoop? breakLoop
  cases htop : s.top? with
  | none => rfl
  | some f =>
      simp only [Option.bind_some]
      cases ho : f.opener? with
      | none => rfl
      | some opener => exact jump?_eq (h.pop_ne_nil htop (by simp [Frame.isLoop, ho])) _

/-- So does a pass. -/
theorem passIf?_eq (h : Stacked image s.frames) (header : Header) (due : Bool) :
    s.passIf? header due = some (s.passIf header due) := by
  cases due with
  | true => exact advance?_eq h.ne_nil
  | false => exact breakLoop?_eq h header

/-- A return finds what it returns to. -/
theorem returnFrom?_eq (s : Interpreter) : s.returnFrom? = some s.returnFrom := by
  unfold returnFrom? returnFrom
  dsimp only
  have hpop : ∀ top g rest, s.leaveLoops.frames = top :: g :: rest →
      s.leaveLoops.pop.frames ≠ [] := fun top g rest hf => by simp [pop, hf]
  generalize s.leaveLoops = t at hpop ⊢
  cases hf : t.frames with
  | nil => rfl
  | cons top below =>
      cases below with
      | nil => rfl
      | cons g rest =>
          dsimp only
          split
          · exact advance?_eq (hpop top g rest hf)
          · rfl

/-- Entering a loop keeps a stack. -/
theorem Stacked.enterLoop (h : Stacked image s.frames) {opener : Nat} {t : Interpreter}
    (ht : s.enterLoop opener = .ok t) : Stacked image t.frames := by
  obtain ⟨f, below, hs⟩ := List.exists_cons_of_ne_nil h.ne_nil
  rw [hs] at h
  simp only [Interpreter.enterLoop, hs, push] at ht
  split at ht
  · obtain rfl := Except.ok.inj ht
    simp only [jump, modifyTop, hs]
    exact h.replace (by rfl) (by rfl) (by rfl)
  · split at ht
    · contradiction
    · obtain rfl := Except.ok.inj ht
      exact .loop (by rfl) (by rfl) (by rfl) h

/-- A loop that is entered finds the frame of its opener. -/
theorem enterLoop?_eq (h : Stacked image s.frames) (opener : Nat)
    {k? : Interpreter → Option Outcome} {k : Interpreter → Outcome}
    (hk : ∀ t : Interpreter, Stacked image t.frames → k? t = some (k t)) :
    ((s.enterLoop? opener).bind fun r => s.attempt? r k?) =
      some (attempt s (s.enterLoop opener) k) := by
  rw [enterLoop?, held_eq h.ne_nil, Option.bind_some]
  exact attempt?_eq fun t ht => hk t (h.enterLoop ht)

/-- No line takes a frame of an empty stack. -/
theorem executeLine?_eq (h : Stacked image s.frames) (header : Header) (at_ : Nat) (c : Command) :
    s.executeLine? image header at_ c = some (s.executeLine image header at_ c) := by
  have hs := h.ne_nil
  cases c with
  | set target args => exact attempt?_eq fun symbols _ => advance?_eq hs
  | clear targets => exact advance?_eq hs
  | declare name size args =>
      refine attempt?_eq fun t ht => ?_
      obtain ⟨symbols, rfl⟩ := symbols_of_declare ht
      exact advance?_eq hs
  | expr target op expression | index target expression =>
      refine attempt?_eq fun t ht => ?_
      obtain ⟨symbols, rfl⟩ := symbols_of_assignExpression ht
      exact advance?_eq hs
  | branch cond => exact attempt?_eq fun line _ => jump?_eq hs line
  | choice cond opens =>
      cases opens with
      | true => exact attempt?_eq fun line _ => jump?_eq hs line
      | false => exact jump?_eq hs _
  | elseBranch cond | otherBranch | otherChoice => exact jump?_eq hs _
  | endBranch | endChoice => exact advance?_eq hs
  | doLoop => exact enterLoop?_eq h at_ fun t ht => advance?_eq ht.ne_nil
  | whileLoop cond =>
      exact enterLoop?_eq h at_ fun t ht => attempt?_eq fun due _ => passIf?_eq ht header due
  | repeatLoop count =>
      refine enterLoop?_eq h at_ fun t ht => ?_
      rw [held_eq ht.ne_nil, Option.bind_some]
      exact attempt?_eq fun due _ => passIf?_eq ht header due
  | eachLoop target items delimiter =>
      refine enterLoop?_eq h at_ fun t ht => attempt?_eq fun text _ => ?_
      rw [held_eq ht.ne_nil, Option.bind_some]
      cases (piecesOf text delimiter)[t.loopIndex]? with
      | none => exact breakLoop?_eq ht header
      | some item => exact attempt?_eq fun symbols _ => advance?_eq ht.ne_nil
  | endLoop | continueLoop => exact held_eq hs _
  | untilLoop cond =>
      refine attempt?_eq fun holds _ => ?_
      split
      · rw [held_eq hs, Option.bind_some]
        split
        · next hl =>
            cases htop : s.top? with
            | none => simp [htop] at hl
            | some f => exact jump?_eq (h.pop_ne_nil htop (by simpa [htop] using hl)) _
        · rfl
      · exact held_eq hs _
  | breakLoop => exact breakLoop?_eq h header
  | goto targets =>
      refine attempt?_eq fun d _ => ?_
      obtain ⟨f, below, ho, -⟩ := h.outsideLoops
      rw [goTo?, held_eq (by simp [leaveLoops, ho])]
      rfl
  | gosub targets => exact attempt?_eq fun d _ => attempt?_eq fun t _ => rfl
  | invoke target args =>
      simp only [executeLine?, executeLine]
      cases image.indexOf? target with
      | none => rfl
      | some i => exact attempt?_eq fun bound _ => attempt?_eq fun t _ => rfl
  | leave => exact returnFrom?_eq s
  | exit => rfl
  | raise args => exact attempt?_eq fun message _ => rfl
  | application name args => exact attempt?_eq fun texts _ => rfl

/-- Every line finds its frames. -/
theorem execute?_eq (h : Stacked image s.frames) :
    s.execute? image = some (s.execute image) := by
  unfold execute? execute
  cases s.top? with
  | none => rfl
  | some f =>
      dsimp only
      cases image.headerAt? f.header with
      | none => rfl
      | some header =>
          dsimp only
          cases header.lines[f.line]? with
          | none => exact returnFrom?_eq s
          | some l => exact executeLine?_eq h header f.line l.command

/-- So does the answer of the host. -/
theorem answered?_eq (hs : s.frames ≠ []) (command : String) (action : Option Action) :
    s.answered? command action = some (s.answered command action) := by
  cases action with
  | none => rfl
  | some action =>
      cases action with
      | proceed => exact advance?_eq hs
      | suspend =>
          rw [answered?, advance?, held_eq hs]
          rfl
      | exit reason | fail reason | abort => rfl

/-- No step takes a frame of an empty stack. -/
theorem Sound.step?_eq (h : s.Sound) (host : Host σ) (world : σ) :
    s.step? host world = some (s.step host world) := by
  cases hr : s.isRunning with
  | false => simp [step?, Interpreter.step, hr]
  | true =>
      cases hi : s.image with
      | none => simp [step?, Interpreter.step, hr, hi]
      | some image =>
          have hstacked := h.stacked image hi
          simp only [step?, Interpreter.step, hr, hi, if_true, execute?_eq hstacked]
          cases s.execute image with
          | ask command args =>
              simp only [bind, Option.bind, answered?_eq hstacked.ne_nil]
              rfl
          | next t | pause t | fault cause t => rfl

end

/-! ## the stack of a script -/

/-- The frame of the script itself is the outermost, and no other. -/
theorem Stacked.base_iff {image : Image} {frames : List Frame} (h : Stacked image frames) {i : Nat}
    {f : Frame} (hf : frames[i]? = some f) : f.kind = .base ↔ i + 1 = frames.length := by
  -- an inner frame is of another kind, and others lie below it
  have hinner : ∀ {c g : Frame} {below : List Frame}, c.kind ≠ .base →
      (∀ {i : Nat}, (g :: below)[i]? = some f → (f.kind = .base ↔ i + 1 = (g :: below).length)) →
      ∀ {i : Nat}, (c :: g :: below)[i]? = some f →
        (f.kind = .base ↔ i + 1 = (c :: g :: below).length) := by
    intro c g below hc ih i hf
    cases i with
    | zero =>
        obtain rfl : c = f := by simpa using hf
        simp [hc]
    | succ i => simpa using ih hf
  induction h generalizing i with
  | @base b hb _ _ =>
      cases i with
      | zero =>
          obtain rfl : b = f := by simpa using hf
          simp [hb]
      | succ i => simp at hf
  | call hc _ _ _ ih => exact hinner (by rintro hk; simp [Frame.isCall, hk] at hc) ih hf
  | loop hl _ _ _ ih =>
      exact hinner (by rintro hk; simp [Frame.isLoop, Frame.opener?, hk] at hl) ih hf

/-- Whatever operations lead to, with whatever images: a script that runs has an
image and frames; the outermost frame, and no other, is that of the script itself;
every frame executes a header of the image; there are no more frames than the limit
allows, but always one; a script that has ended has just one, and without a script
there is neither frame nor image.  So no step takes a frame of an empty stack.  A
script that is not found changes nothing. -/
theorem stack_discipline {s : Interpreter} (h : s.Reachable) :
    (s.isRunning = true → s.image.isSome ∧ s.frames ≠ []) ∧
    (∀ (i : Nat) (f : Frame), s.frames[i]? = some f → (f.kind = .base ↔ i + 1 = s.depth)) ∧
    (∀ image, s.image = some image → ∀ f ∈ s.frames, f.header < image.size) ∧
    s.depth ≤ max 1 s.limits.maxFrames ∧
    (∀ reason, s.exitReason? = some reason → s.depth = 1) ∧
    (s.status = .detached → s.depth = 0 ∧ s.image = none) ∧
    (∀ (σ : Type) (host : Host σ) (world : σ), s.step? host world = some (s.step host world)) ∧
    ∀ image entry, (s.attach image entry).2 = false → (s.attach image entry).1 = s := by
  have hs := h.sound
  -- without an image there are no frames, and with one they are stacked
  have hframes : s.frames = [] ∨ ∃ image, s.image = some image ∧ Stacked image s.frames := by
    cases hi : s.image with
    | none => exact .inl (hs.bare hi)
    | some image => exact .inr ⟨image, rfl, hs.stacked image hi⟩
  refine ⟨fun hr => ⟨hs.attached hr, hs.ne_nil (hs.attached hr)⟩, fun i f hf => ?_,
    fun image hi f hf => ?_, hs.room, fun reason he => ?_, fun hd => ?_,
    fun σ host world => hs.step?_eq host world, fun image entry ha => ?_⟩
  · obtain hnil | ⟨image, -, hstacked⟩ := hframes
    · simp [hnil] at hf
    · exact hstacked.base_iff hf
  · obtain ⟨header, hh⟩ := Option.isSome_iff_exists.mp ((hs.stacked image hi).header hf)
    exact (List.getElem?_eq_some_iff.mp hh).1
  · refine hs.ended reason ?_
    unfold exitReason? at he
    split at he
    · next hstatus => rw [hstatus, Option.some.inj he]
    · contradiction
  · have hi := hs.detached.mpr hd
    exact ⟨by rw [depth, hs.bare hi]; rfl, hi⟩
  · unfold Interpreter.attach at ha ⊢
    split at ha
    · rfl
    · contradiction

/-- An image that no compiler makes: a loop that is not closed, at a depth of its
own, and a handler behind the end of its header. -/
def crookedImage : Image :=
  ⟨[⟨"main", "main", [⟨.doLoop, 7, 0, 1⟩, ⟨.gosub [.event "far"], 0, 0, 2⟩, ⟨.endBranch, 3, 0, 3⟩],
    [("far", 9)], 4⟩]⟩

/-- The script of it, called from inside of its loop. -/
def crookedCall : Interpreter :=
  let begun := ((Interpreter.new ⟨3, 4, 8, 2⟩).attach crookedImage none).1
  ((begun.step (.silent Unit) ()).state.step (.silent Unit) ()).state

theorem stack_discipline_crooked :
    crookedCall.isRunning = true ∧ crookedCall.frames.map (·.line) = [9, 1, 0] ∧
      (∀ (i : Nat) (f : Frame), crookedCall.frames[i]? = some f →
        (f.kind = .base ↔ i + 1 = crookedCall.depth)) ∧
      crookedCall.depth ≤ max 1 crookedCall.limits.maxFrames ∧
      (crookedCall.step? (.silent Unit) ()).map (·.state.frames.map (·.line)) = some [2, 0] := by
  have hreach : crookedCall.Reachable := .step _ _ (.step _ _ (.attach _ _ (.new _)))
  obtain ⟨-, hbase, -, hroom, -, -, hstep, -⟩ := stack_discipline hreach
  refine ⟨by decide +kernel, by decide +kernel, hbase, hroom, ?_⟩
  rw [hstep]
  decide +kernel

end Switchboard.Interpreter
