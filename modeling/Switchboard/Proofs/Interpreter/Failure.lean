import Switchboard.Proofs.Interpreter.Reachable
import Switchboard.Proofs.Interpreter.Visible

/-!
# Switchboard.Proofs.Interpreter.Failure

What a line at fault has done to the symbols.

1. A command that changes symbols does so when nothing can fail any more, except for
   `invoke`, which gives its arguments one after the other.  So a fault of any other line
   finds the symbols as they were (`spares_executeLine`).
2. To raise an error, or to end a script because of one, touches no symbol.
-/

namespace Switchboard.Interpreter

/-! ## lines at fault -/

/-- If a line is at fault, it has left the symbols alone. -/
def Outcome.Spares (symbols : Symbols) : Outcome → Prop
  | .fault _ t => t.symbols = symbols
  | .next _ | .pause _ | .ask _ _ => True

section
variable {s : Interpreter} {symbols : Symbols}

/-- A trial spares the symbols if what comes after it does. -/
theorem Outcome.Spares.attempt {α : Type} {r : Except Fault α} {k : α → Outcome}
    (hs : s.symbols = symbols) (h : ∀ a, r = .ok a → (k a).Spares symbols) :
    (Interpreter.attempt s r k).Spares symbols := by
  cases r with
  | ok a => exact h a rfl
  | error cause => exact hs

/-- A frame more leaves the symbols alone. -/
theorem symbols_push {f : Frame} {t : Interpreter} (h : s.push f = .ok t) :
    t.symbols = s.symbols := by
  unfold push at h
  split at h
  · contradiction
  · obtain rfl := Except.ok.inj h
    rfl

/-- So does a change of the innermost frame. -/
theorem symbols_modifyTop (s : Interpreter) (change : Frame → Frame) :
    (s.modifyTop change).symbols = s.symbols := by
  unfold modifyTop
  split <;> rfl

/-- To enter a loop touches no symbol. -/
theorem symbols_enterLoop {opener : Nat} {t : Interpreter} (h : s.enterLoop opener = .ok t) :
    t.symbols = s.symbols := by
  unfold enterLoop at h
  split at h
  · obtain rfl := Except.ok.inj h
    rfl
  · split at h
    · obtain rfl := Except.ok.inj h
      exact symbols_modifyTop s _
    · exact symbols_push h

/-- A loop that is broken off spares the symbols. -/
theorem spares_breakLoop (hs : s.symbols = symbols) (header : Header) :
    (s.breakLoop header).Spares symbols := by
  unfold breakLoop
  split
  · exact hs
  · trivial

/-- So does one that goes on. -/
theorem spares_continueLoop (hs : s.symbols = symbols) (command : String) :
    (s.continueLoop command).Spares symbols := by
  unfold continueLoop
  split
  · exact hs
  · trivial

/-- So does a pass. -/
theorem spares_passIf (hs : s.symbols = symbols) (header : Header) (due : Bool) :
    (s.passIf header due).Spares symbols := by
  cases due with
  | true => trivial
  | false => exact spares_breakLoop hs header

/-- So does a return. -/
theorem spares_returnFrom (s : Interpreter) : s.returnFrom.Spares symbols := by
  unfold returnFrom
  dsimp only
  split
  · split <;> trivial
  · trivial

/-- A line at fault has left the symbols alone, unless it gives arguments. -/
theorem spares_executeLine (s : Interpreter) (image : Image) (header : Header) (line : Nat)
    {c : Command} (hc : ∀ target args, c ≠ .invoke target args) :
    (s.executeLine image header line c).Spares s.symbols := by
  cases hu : s.update? c with
  | some r =>
      rw [executeLine_of_update? hu]
      exact .attempt rfl fun _ _ => trivial
  | none =>
      cases c with
      | set | clear | declare | expr | index => contradiction
      | invoke target args => exact absurd rfl (hc target args)
      | branch cond => exact .attempt rfl fun _ _ => trivial
      | choice cond opens =>
          cases opens with
          | true => exact .attempt rfl fun _ _ => trivial
          | false => trivial
      | elseBranch | otherBranch | otherChoice | endBranch | endChoice | exit => trivial
      | doLoop => exact .attempt rfl fun _ _ => trivial
      | whileLoop cond | repeatLoop count =>
          refine .attempt rfl fun t ht => ?_
          have hsame := symbols_enterLoop ht
          exact .attempt hsame fun due _ => spares_passIf hsame header due
      | eachLoop target items delimiter =>
          refine .attempt rfl fun t ht => ?_
          have hsame := symbols_enterLoop ht
          refine .attempt hsame fun text _ => ?_
          split
          · exact spares_breakLoop hsame header
          · exact .attempt hsame fun _ _ => trivial
      | endLoop | continueLoop => exact spares_continueLoop rfl _
      | breakLoop => exact spares_breakLoop rfl header
      | untilLoop cond =>
          refine .attempt rfl fun holds _ => ?_
          split
          · split
            · trivial
            · rfl
          · exact spares_continueLoop rfl _
      | goto targets => exact .attempt rfl fun _ _ => trivial
      | gosub targets => exact .attempt rfl fun _ _ => .attempt rfl fun _ _ => trivial
      | leave => exact spares_returnFrom s
      | raise args => exact .attempt rfl fun _ _ => rfl
      | application name args => exact .attempt rfl fun _ _ => trivial

/-- So has the current line. -/
theorem spares_execute {image : Image} (hi : s.image = some image)
    (hc : ∀ target args, s.command? ≠ some (.invoke target args)) :
    (s.execute image).Spares s.symbols := by
  unfold execute
  split
  · trivial
  · next f hf =>
      split
      · rfl
      · next header hheader =>
          split
          · exact spares_returnFrom s
          · next l hl =>
              refine spares_executeLine s image header f.line fun target args heq => ?_
              refine hc target args ?_
              simp [command?, hi, hf, hheader, hl, heq]

/-- The answer of a host is no reason to change symbols. -/
theorem spares_outcomeWith {σ : Type} (host : Host σ) (world : σ) {image : Image}
    (hi : s.image = some image) (hc : ∀ target args, s.command? ≠ some (.invoke target args)) :
    (s.outcomeWith image host world).1.Spares s.symbols := by
  unfold outcomeWith
  split
  · next command args _ =>
      dsimp only
      cases (host.execute command args world).1 with
      | none => rfl
      | some action => cases action <;> trivial
  · exact spares_execute hi hc

/-! ## errors -/

@[simp] theorem symbols_error (s : Interpreter) (text : String) :
    (s.error text).state.symbols = s.symbols := by
  unfold error
  split
  · dsimp only
    split <;> rfl
  · rfl

/-- Whatever becomes of a fault, its error touches no symbol. -/
@[simp] theorem symbols_settled_fault (s t : Interpreter) (cause : Fault) :
    (s.settled (.fault cause t)).1.symbols = t.symbols := by
  unfold settled
  dsimp only
  split
  · rfl
  · exact symbols_error t cause.message

end

/-- The error of a step, and the state that its line left. -/
def raised? {σ : Type} (s : Interpreter) (host : Host σ) (world : σ) :
    Option (Fault × Interpreter) :=
  if s.isRunning then
    s.image.bind fun image =>
      match (s.outcomeWith image host world).1 with
      | .fault cause t => some (cause, t)
      | _ => none
  else none

/-- The fault to which the step of a script comes, if its line is at fault. -/
def fault? {σ : Type} (s : Interpreter) (host : Host σ) (world : σ) : Option Fault :=
  (s.raised? host world).map Prod.fst

section
variable {σ : Type} {s t : Interpreter} {host : Host σ} {world : σ} {cause : Fault}

/-- A running script raises the fault of its line. -/
theorem raised?_of_running {image : Image} (hr : s.isRunning = true) (hi : s.image = some image) :
    s.raised? host world = (match (s.outcomeWith image host world).1 with
      | .fault cause t => some (cause, t)
      | _ => none) := by
  simp only [raised?, hr, hi, if_true, Option.bind_some]

/-- The command of the current line is what is carried out. -/
theorem execute_of_command? {image : Image} {c : Command} (hi : s.image = some image)
    (hc : s.command? = some c) :
    ∃ header line, s.execute image = s.executeLine image header line c := by
  obtain ⟨f, hf, hc⟩ := Option.bind_eq_some_iff.mp hc
  obtain ⟨image', hi', hc⟩ := Option.bind_eq_some_iff.mp hc
  obtain rfl : image' = image := Option.some.inj (hi'.symm.trans hi)
  obtain ⟨header, hheader, hc⟩ := Option.bind_eq_some_iff.mp hc
  obtain ⟨l, hl, hc⟩ := Option.bind_eq_some_iff.mp hc
  refine ⟨header, f.line, ?_⟩
  rw [← Option.some.inj hc]
  simp [execute, hf, hheader, hl]

/-- A line that has nothing for the host comes to what it does without one. -/
theorem outcomeWith_of_execute {image : Image} {o : Outcome} (ho : s.execute image = o)
    (hask : ∀ command args, o ≠ .ask command args) :
    (s.outcomeWith image host world).1 = o := by
  unfold outcomeWith
  split
  · next command args he => exact absurd (ho.symm.trans he) (hask command args)
  · exact ho

/-- A line that fails raises its fault. -/
theorem raised?_of_fault (host : Host σ) (world : σ) {image : Image} (hr : s.isRunning = true)
    (hi : s.image = some image) (ho : s.execute image = .fault cause t) :
    s.raised? host world = some (cause, t) := by
  rw [raised?_of_running hr hi, outcomeWith_of_execute ho (by simp)]

/-- A line that succeeds raises nothing, and its state is the next. -/
theorem step_of_next (host : Host σ) (world : σ) {image : Image} (hr : s.isRunning = true)
    (hi : s.image = some image) (ho : s.execute image = .next t) :
    s.raised? host world = none ∧ (s.step host world).state = t := by
  rw [raised?_of_running hr hi, step_of_running host world hr hi]
  dsimp only
  rw [outcomeWith_of_execute ho (by simp)]
  exact ⟨rfl, rfl⟩

/-- A line that goes on does not break the script down. -/
theorem ne_broke_of_next (host : Host σ) (world : σ) {image : Image} (hr : s.isRunning = true)
    (hi : s.image = some image) (ho : s.execute image = .next t) :
    (s.step host world).signal ≠ .broke := by
  rw [step_of_running host world hr hi]
  dsimp only
  rw [outcomeWith_of_execute ho (by simp), settled, signalAfter]
  split <;> simp

/-- What a step at fault comes to. -/
theorem outcomeWith_of_raised? (h : s.raised? host world = some (cause, t)) :
    s.isRunning = true ∧ ∃ image, s.image = some image ∧
      (s.outcomeWith image host world).1 = .fault cause t := by
  unfold raised? at h
  split at h
  · next hr =>
      obtain ⟨image, hi, h⟩ := Option.bind_eq_some_iff.mp h
      split at h
      · next cause' t' he =>
          obtain ⟨rfl, rfl⟩ := Prod.mk.inj (Option.some.inj h)
          exact ⟨hr, image, hi, he⟩
      · contradiction
  · contradiction

/-- The error of a line touches no symbol that the line has left alone. -/
theorem symbols_step_of_raised? (h : s.raised? host world = some (cause, t)) :
    (s.step host world).state.symbols = t.symbols := by
  obtain ⟨hr, image, hi, he⟩ := outcomeWith_of_raised? h
  rw [step_of_running host world hr hi]
  dsimp only
  rw [he, symbols_settled_fault]

end

/-- A line that is at fault leaves every symbol as it was, whatever its fault is, and
whether a handler gets the error or the script ends.  That is so of every line but those
that give arguments to the header they call. -/
theorem failed_line_keeps_symbols {σ : Type} {s : Interpreter} {host : Host σ} {world : σ}
    {cause : Fault} (hf : s.fault? host world = some cause)
    (hc : ∀ target args, s.command? ≠ some (.invoke target args)) :
    (s.step host world).state.symbols = s.symbols := by
  obtain ⟨⟨cause, t⟩, hraised, rfl⟩ := Option.map_eq_some_iff.mp hf
  obtain ⟨-, image, hi, he⟩ := outcomeWith_of_raised? hraised
  have hspares := spares_outcomeWith host world hi hc
  rw [he] at hspares
  exact (symbols_step_of_raised? hraised).trans hspares

/-- A script that goes through a list, with room for the symbol `n` and no other one. -/
def crowdedImage : Image :=
  ⟨[⟨"main", "main",
      [⟨.set "n" [.literal "a,b"], 0, 0, 2⟩, ⟨.eachLoop "item" (.symbol "n") ',', 0, 0, 3⟩,
        ⟨.endLoop, 1, 0, 4⟩, ⟨.exit, 0, 0, 5⟩, ⟨.expr "n" .set [.symbol "m"], 0, 0, 7⟩],
      [("error", 4)], 0⟩]⟩

/-- The script at its list, and then in its handler, the line of which is at fault again. -/
def crowdedSteps : List Interpreter :=
  let start := ((Interpreter.new ⟨32, 1, 64, 2⟩).attach crowdedImage none).1
  let next (s : Interpreter) := (s.step (.silent Unit) ()).state
  [next start, next (next start)]

theorem failed_line_keeps_symbols_crowded :
    crowdedSteps.map (·.fault? (.silent Unit) ()) =
        [some (.symbolSpaceExhausted 1), some (.symbolNotFound "m")] ∧
      crowdedSteps.map (fun s => (s.step (.silent Unit) ()).state.isRunning) = [true, false] ∧
      ∀ s ∈ crowdedSteps, (s.step (.silent Unit) ()).state.symbols = s.symbols := by
  have hfaults : crowdedSteps.map (·.fault? (.silent Unit) ()) =
      [some (.symbolSpaceExhausted 1), some (.symbolNotFound "m")] := by decide +kernel
  have hcommands : crowdedSteps.map (·.command?) =
      [some (.eachLoop "item" (.symbol "n") ','), some (.expr "n" .set [.symbol "m"])] := by
    decide +kernel
  refine ⟨hfaults, by decide +kernel, ?_⟩
  simp only [crowdedSteps, List.map_cons, List.map_nil, List.cons.injEq, and_true]
    at hfaults hcommands
  simp only [crowdedSteps, List.forall_mem_cons]
  refine ⟨failed_line_keeps_symbols hfaults.1 ?_, failed_line_keeps_symbols hfaults.2 ?_, nofun⟩
  · simp [hcommands.1]
  · simp [hcommands.2]

end Switchboard.Interpreter
