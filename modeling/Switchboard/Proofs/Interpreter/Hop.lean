import Switchboard.Proofs.Interpreter.Failure
import Switchboard.Proofs.Interpreter.Stride
import Switchboard.Proofs.Script.Closing

/-!
# Switchboard.Proofs.Interpreter.Hop

What a step makes of the frames, frame by frame.

1. A line goes on in its frame, enters or leaves a loop, begins its next pass, calls,
   jumps, or returns (`Hop`).  To enter a loop and leave it at once is to go on, and an
   error that is handled is a jump.
2. Lines go forward: only the next pass of a loop, and a jump, lead back.
3. A step hops, or ends the script, unless something breaks down (`step_hops`).
-/

namespace Switchboard.Interpreter

/-- What a step makes of the frames. -/
inductive Hop : List Frame → List Frame → Prop
  /-- On to a later line. -/
  | onward {f : Frame} {below : List Frame} {dest : Nat} : f.line < dest →
      Hop (f :: below) ({ f with line := dest } :: below)
  /-- Into the first pass of a loop. -/
  | enter {f : Frame} {below : List Frame} : f.opener? ≠ some f.line →
      Hop (f :: below)
        ({ f with kind := .loop f.line, line := f.line + 1, index := 0, trapped := false } ::
          f :: below)
  /-- To the next pass of the innermost loop. -/
  | again {f : Frame} {below : List Frame} {opener : Nat} : f.opener? = some opener →
      Hop (f :: below) ({ f with index := f.index + 1, line := opener } :: below)
  /-- Out of the innermost loop, to a line after it. -/
  | leave {f g : Frame} {below : List Frame} {opener dest : Nat} : f.opener? = some opener →
      f.line < dest → Hop (f :: g :: below) ({ g with line := dest } :: below)
  /-- Into a header that is called, or the handler of its errors. -/
  | call {c : Frame} {frames : List Frame} : c.isCall = true → Hop frames (c :: frames)
  /-- Somewhere else in an activation: a jump, or an error that is handled. -/
  | away {frames : List Frame} {f g : Frame} {below : List Frame} : f :: below <:+ frames →
      f.isLoop = false → g.kind = f.kind → Hop frames (g :: below)
  /-- Out of a header that was called. -/
  | back {frames : List Frame} {f g : Frame} {below : List Frame} :
      f :: g :: below <:+ frames → f.isCall = true →
      Hop frames ({ g with line := g.line + 1 } :: below)

/-- What a line at fault leaves: the frames as they were, or with that of a loop or of a call
on top. -/
inductive Halted (frames : List Frame) : List Frame → Prop
  | still : Halted frames frames
  | loop {c : Frame} : c.isLoop = true → Halted frames (c :: frames)
  | call {c : Frame} : c.isCall = true → Halted frames (c :: frames)

/-- A line that goes on hops. -/
def Outcome.Hops (frames : List Frame) : Outcome → Prop
  | .next t => Hop frames t.frames
  | .fault _ t => Halted frames t.frames
  | .pause _ | .ask _ _ => True

/-- What lies outside the loops is a part of the frames. -/
theorem outsideLoops_suffix (frames : List Frame) : outsideLoops frames <:+ frames := by
  obtain ⟨loops, hloops, -⟩ := outsideLoops_spec frames
  exact ⟨loops, hloops.symm⟩

section
variable {image : Image} {s t : Interpreter} {f : Frame} {below frames : List Frame}
  {header : Header}

/-- A trial hops if what comes after it does. -/
theorem Outcome.Hops.attempt {α : Type} {r : Except Fault α} {k : α → Outcome}
    (hs : Halted frames s.frames) (h : ∀ a, r = .ok a → (k a).Hops frames) :
    (Interpreter.attempt s r k).Hops frames := by
  cases r with
  | ok a => exact h a rfl
  | error cause => exact hs

/-- An error that is handled goes into the header that was called, or to another place. -/
theorem Halted.trapped? (h : Halted frames below) {after : List Frame}
    (ht : trapped? image below = some after) : Hop frames after := by
  obtain ⟨g, rest, line, hs, hl, -, rfl⟩ := trapped?_spec ht
  cases h with
  | still => exact .away hs hl rfl
  | loop hc =>
      rcases List.suffix_cons_iff.mp hs with heq | hs
      · obtain ⟨rfl, rfl⟩ := List.cons.inj heq
        simp [hc] at hl
      · exact .away hs hl rfl
  | call hc =>
      rcases List.suffix_cons_iff.mp hs with heq | hs
      · obtain ⟨rfl, rfl⟩ := List.cons.inj heq
        exact .call hc
      · exact .away hs hl rfl

/-- A jump changes the line of the innermost frame. -/
theorem frames_jump (hs : s.frames = f :: below) (dest : Nat) :
    (s.jump dest).frames = { f with line := dest } :: below := by
  simp [jump, modifyTop, hs]

/-- So does the next line. -/
theorem frames_advance (hs : s.frames = f :: below) :
    s.advance.frames = { f with line := f.line + 1 } :: below := by
  simp [advance, modifyTop, hs]

/-- A jump forward is a hop. -/
theorem hop_jump (hs : s.frames = f :: below) {dest : Nat} (hlt : f.line < dest) :
    Hop s.frames (s.jump dest).frames := by
  rw [frames_jump hs, hs]
  exact .onward hlt

/-- So is the next line. -/
theorem hop_advance (hs : s.frames = f :: below) (symbols : Symbols) :
    Hop s.frames ({ s with symbols } : Interpreter).advance.frames := by
  rw [frames_advance (s := { s with symbols }) hs, hs]
  exact .onward (Nat.lt_succ_self _)

/-! ## loops -/

/-- A loop that is entered has its frame, or gets one. -/
theorem frames_enterLoop (hs : s.frames = f :: below) (ht : s.enterLoop f.line = .ok t) :
    (f.opener? = some f.line ∧ t = s) ∨ (f.opener? ≠ some f.line ∧
      t = { s with frames :=
        { f with kind := .loop f.line, index := 0, trapped := false } :: f :: below }) := by
  simp only [enterLoop, hs] at ht
  split at ht
  · next ho =>
      obtain rfl := Except.ok.inj ht
      refine .inl ⟨ho, ?_⟩
      cases s
      simp_all [jump, modifyTop]
  · next ho =>
      refine .inr ⟨ho, ?_⟩
      unfold push at ht
      split at ht
      · contradiction
      · obtain rfl := Except.ok.inj ht
        rw [hs]

/-- An error may come once a loop is entered. -/
theorem halted_enterLoop (hs : s.frames = f :: below) (ht : s.enterLoop f.line = .ok t) :
    Halted s.frames t.frames := by
  obtain ⟨-, rfl⟩ | ⟨-, rfl⟩ := frames_enterLoop hs ht
  · exact .still
  · rw [hs]
    exact .loop rfl

/-- A pass that is due begins with the next line. -/
theorem hop_pass (hs : s.frames = f :: below) (ht : s.enterLoop f.line = .ok t)
    (symbols : Symbols) : Hop s.frames ({ t with symbols } : Interpreter).advance.frames := by
  obtain ⟨-, rfl⟩ | ⟨ho, rfl⟩ := frames_enterLoop hs ht
  · exact hop_advance hs symbols
  · rw [hs]
    exact .enter ho

/-- A loop that is broken off hops behind it. -/
theorem hops_breakLoop (h : Stacked image s.frames) (hs : s.frames = f :: below) :
    (s.breakLoop header).Hops s.frames := by
  cases ho : f.opener? with
  | none =>
      simp only [breakLoop, top?, hs, List.head?_cons, Option.bind_some, ho, Option.map_none]
      exact hs ▸ .still
  | some opener =>
      obtain ⟨g, rest, rfl⟩ := (hs ▸ h).below_loop (by simp [Frame.isLoop, ho])
      simp only [breakLoop, top?, hs, List.head?_cons, Option.bind_some, ho, Option.map_some,
        Outcome.Hops, pop, List.tail_cons]
      rw [frames_jump (s := { s with frames := g :: rest }) rfl]
      exact .leave ho (Scan.lt_pastLoop _ _ _)

/-- A loop that has no pass is left behind. -/
theorem hops_skip (h : Stacked image s.frames) (hs : s.frames = f :: below)
    (ht : s.enterLoop f.line = .ok t) : (t.breakLoop header).Hops s.frames := by
  obtain ⟨-, rfl⟩ | ⟨ho, rfl⟩ := frames_enterLoop hs ht
  · exact hops_breakLoop h hs
  · simp only [breakLoop, top?, List.head?_cons, Frame.opener?, Option.bind_some, Option.map_some,
      Outcome.Hops, pop, List.tail_cons]
    rw [frames_jump (s := { s with frames := f :: below }) rfl, hs]
    exact .onward (Scan.lt_pastLoop _ _ _)

/-- A pass hops into the loop, or behind it. -/
theorem hops_passIf (h : Stacked image s.frames) (hs : s.frames = f :: below)
    (ht : s.enterLoop f.line = .ok t) (due : Bool) : (t.passIf header due).Hops s.frames := by
  cases due with
  | true => exact hop_pass hs ht t.symbols
  | false => exact hops_skip h hs ht

/-- A loop that goes on hops to its opener. -/
theorem hops_continueLoop (hs : s.frames = f :: below) (command : String) :
    (s.continueLoop command).Hops s.frames := by
  cases ho : f.opener? with
  | none =>
      simp only [continueLoop, top?, hs, List.head?_cons, Option.bind_some, ho]
      exact hs ▸ .still
  | some opener =>
      simp only [continueLoop, top?, hs, List.head?_cons, Option.bind_some, ho, Outcome.Hops,
        modifyTop]
      exact .again ho

/-! ## calls -/

/-- A return hops to what is below. -/
theorem hops_returnFrom (s : Interpreter) : s.returnFrom.Hops s.frames := by
  unfold returnFrom
  dsimp only
  split
  · next top g rest hf =>
      split
      · next hc =>
          simp only [Outcome.Hops]
          have hback : s.leaveLoops.pop.frames = g :: rest := by simp [pop, hf]
          rw [frames_advance hback]
          exact .back (hf ▸ outsideLoops_suffix s.frames) hc
      · trivial
  · trivial

/-- So does a jump to a section. -/
theorem hop_goTo (h : Stacked image s.frames) (d : Destination) :
    Hop s.frames (s.goTo image d).frames := by
  obtain ⟨f, below, ho, hl, -⟩ := h.outsideLoops
  simp only [goTo, leaveLoops, modifyTop, ho]
  exact .away (ho ▸ outsideLoops_suffix s.frames) hl rfl

/-- A call hops to the section that is called. -/
theorem hop_call {kind : FrameKind} {i line : Nat}
    (hk : (∃ place, kind = .gosub place) ∨ kind = .invoke)
    (ht : s.call image kind i line = .ok t) : Hop s.frames t.frames := by
  rw [frames_of_call ht]
  refine .call ?_
  obtain ⟨place, rfl⟩ | rfl := hk <;> rfl

/-! ## lines -/

/-- Every line hops, or leaves the frames for an error that it raises. -/
theorem executeLine_hops (h : Stacked image s.frames) (hs : s.frames = f :: below)
    (c : Command) : (s.executeLine image header f.line c).Hops s.frames := by
  cases c with
  | set target args => exact .attempt .still fun symbols _ => hop_advance hs symbols
  | clear targets => exact hop_advance hs _
  | declare name size args =>
      refine .attempt .still fun t ht => ?_
      obtain ⟨symbols, rfl⟩ := symbols_of_declare ht
      exact hop_advance hs symbols
  | expr target op expression | index target expression =>
      refine .attempt .still fun t ht => ?_
      obtain ⟨symbols, rfl⟩ := symbols_of_assignExpression ht
      exact hop_advance hs symbols
  | branch cond => exact .attempt .still fun dest hdest => hop_jump hs (Scan.lt_taken hdest)
  | elseBranch cond | otherBranch | otherChoice =>
      exact hop_jump hs (Nat.lt_succ_of_lt (Scan.lt_closer _ _ _))
  | choice cond opens =>
      cases opens with
      | true => exact .attempt .still fun dest hdest => hop_jump hs (Scan.lt_taken hdest)
      | false => exact hop_jump hs (Nat.lt_succ_of_lt (Scan.lt_closer _ _ _))
  | endBranch | endChoice => exact hop_advance hs s.symbols
  | doLoop => exact .attempt .still fun t ht => hop_pass hs ht t.symbols
  | whileLoop cond | repeatLoop count =>
      exact .attempt .still fun t ht => .attempt (halted_enterLoop hs ht) fun due _ =>
        hops_passIf h hs ht due
  | eachLoop target items delimiter =>
      refine .attempt .still fun t ht => .attempt (halted_enterLoop hs ht) fun text _ => ?_
      split
      · exact hops_skip h hs ht
      · exact .attempt (halted_enterLoop hs ht) fun symbols _ => hop_pass hs ht symbols
  | endLoop | continueLoop => exact hops_continueLoop hs _
  | untilLoop cond =>
      refine .attempt .still fun holds _ => ?_
      split
      · split
        · next htop =>
            cases ho : f.opener? with
            | none => simp [top?, hs, Frame.isLoop, ho] at htop
            | some opener =>
                obtain ⟨g, rest, rfl⟩ := (hs ▸ h).below_loop (by simp [Frame.isLoop, ho])
                simp only [Outcome.Hops, pop, hs, List.tail_cons]
                rw [frames_jump (s := { s with frames := g :: rest }) rfl]
                exact .leave ho (Nat.lt_succ_self _)
        · exact .still
      · exact hops_continueLoop hs _
  | breakLoop => exact hops_breakLoop h hs
  | goto targets => exact .attempt .still fun d _ => hop_goTo h d
  | gosub targets =>
      exact .attempt .still fun d _ => .attempt .still fun t ht => hop_call (.inl ⟨_, rfl⟩) ht
  | invoke target args =>
      simp only [executeLine]
      split
      · exact .still
      · refine .attempt .still fun bound _ => .attempt .still fun t ht => ?_
        have hframes := frames_of_call ht
        obtain ⟨u, hu, he | ⟨cause, he⟩⟩ := bindArguments_frames (t := t) _ bound
        · rw [he]
          change Hop s.frames u.frames
          exact (hu.trans hframes) ▸ .call rfl
        · rw [he]
          change Halted s.frames u.frames
          exact (hu.trans hframes) ▸ .call rfl
  | leave => exact hops_returnFrom s
  | exit => trivial
  | raise args => exact .attempt .still fun _ _ => .still
  | application name args => exact .attempt .still fun _ _ => trivial

/-- Every line hops. -/
theorem execute_hops (h : Stacked image s.frames) : (s.execute image).Hops s.frames := by
  unfold execute
  split
  · trivial
  · next f hf =>
      obtain ⟨below, hs⟩ := List.head?_eq_some_iff.mp hf
      split
      · exact .still
      · split
        · exact hops_returnFrom s
        · exact executeLine_hops h hs _

end

/-! ## steps -/

section
variable {σ : Type} {s t : Interpreter} {image : Image} {host : Host σ} {world : σ}

/-- What a line comes to once the host has answered: a hop, an error, the next line after a
pause, or the end of the script. -/
theorem outcomeWith_hops (host : Host σ) (world : σ) (h : Stacked image s.frames) :
    (s.outcomeWith image host world).1.Hops s.frames ∧
      ∀ t, (s.outcomeWith image host world).1 = .pause t →
        t.isRunning = false ∨ Hop s.frames t.frames := by
  obtain ⟨f, below, hs⟩ := List.exists_cons_of_ne_nil h.ne_nil
  have hhops := execute_hops h
  have halong := execute_along image h.ne_nil
  unfold outcomeWith
  generalize s.execute image = o at hhops halong
  cases o with
  | next t => exact ⟨hhops, by simp⟩
  | fault cause t => exact ⟨hhops, by simp⟩
  | pause t =>
      obtain ⟨u, reason, -, rfl⟩ := halong
      refine ⟨trivial, fun t ht => .inl ?_⟩
      obtain rfl := Outcome.pause.inj ht
      rfl
  | ask command args =>
      have hnext := hop_advance hs s.symbols
      dsimp only
      cases (host.execute command args world).1 with
      | none => exact ⟨.still, by simp [answered]⟩
      | some action =>
          cases action with
          | proceed => exact ⟨hnext, by simp [answered]⟩
          | suspend =>
              refine ⟨trivial, fun t ht => .inr ?_⟩
              obtain rfl := Outcome.pause.inj ht
              exact hnext
          | exit reason =>
              refine ⟨trivial, fun t ht => .inl ?_⟩
              obtain rfl := Outcome.pause.inj ht
              rfl
          | fail reason | abort => exact ⟨.still, by simp [answered]⟩

/-- A step hops, or ends the script, unless something breaks down. -/
theorem step_hops (hr : s.isRunning = true) (hi : s.image = some image)
    (h : Stacked image s.frames) (hb : (s.step host world).signal ≠ .broke)
    (hr' : (s.step host world).state.isRunning = true) :
    Hop s.frames (s.step host world).state.frames := by
  obtain ⟨hhops, hpause⟩ := outcomeWith_hops host world h
  have halong := outcomeWith_along image host world h.ne_nil
  rw [step_of_running host world hr hi] at hb hr' ⊢
  dsimp only at hb hr' ⊢
  generalize (s.outcomeWith image host world).1 = o at hhops hpause halong hb hr' ⊢
  cases o with
  | next t => exact hhops
  | ask command args =>
      obtain ⟨-, hask⟩ | ⟨_, _, -, -, he, -⟩ := halong
      · exact absurd rfl (hask command args)
      · contradiction
  | pause t => exact (hpause t rfl).resolve_left (by simpa [settled] using hr')
  | fault cause t =>
      obtain ⟨⟨hcourse, -⟩, -⟩ | ⟨_, _, -, -, he, -⟩ := halong
      · have hfatal : cause.isFatal = false := by
          cases hc : cause.isFatal with
          | false => rfl
          | true => simp [settled, hc, signalAfter] at hb
        have himage := hcourse.image.trans hi
        have hrun : t.isRunning = true := by rwa [isRunning, hcourse.status]
        simp only [settled, hfatal, error, hrun, if_true, himage, Option.bind_some] at hr' ⊢
        cases ht : trapped? image t.frames with
        | some frames => exact Halted.trapped? hhops ht
        | none => simp [ht, finish, isRunning] at hr'
      · contradiction

end

end Switchboard.Interpreter
