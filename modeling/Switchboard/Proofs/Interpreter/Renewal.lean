import Switchboard.Proofs.Interpreter.Reachable
import Switchboard.Proofs.Interpreter.Visible
import Switchboard.Proofs.Symbols.Arena

/-!
# Switchboard.Proofs.Interpreter.Renewal

An interpreter that is used again.

1. Whatever an interpreter does, it keeps its limits, and its symbols come of the
   operations that symbols have (`Sequel`); so they may be kept in an arena.
2. When it is detached, nothing is left but its limits: it is as a new one
   (`Reachable.detach_eq_new`).
3. `answers` is all that operations show of an interpreter.
-/

namespace Switchboard.Interpreter

/-! ## what stays -/

/-- `t` has the limits of `s`, and symbols that operations on those of `s` lead to. -/
structure Sequel (s t : Interpreter) : Prop where
  limits : t.limits = s.limits
  symbols : ∃ ops, t.symbols = s.symbols.performAll ops

namespace Sequel

variable {s t u : Interpreter}

theorem refl (s : Interpreter) : Sequel s s := ⟨rfl, [], rfl⟩

theorem trans (h : Sequel s t) (k : Sequel t u) : Sequel s u := by
  obtain ⟨before, hb⟩ := h.symbols
  obtain ⟨after, ha⟩ := k.symbols
  refine ⟨k.limits.trans h.limits, before ++ after, ?_⟩
  rw [ha, hb, Symbols.performAll, Symbols.performAll, ← List.foldl_append]
  rfl

/-- Only limits and symbols matter. -/
theorem congr (h : Sequel s t) (hl : u.limits = t.limits) (hs : u.symbols = t.symbols) :
    Sequel s u := by
  obtain ⟨ops, ho⟩ := h.symbols
  exact ⟨hl.trans h.limits, ops, hs.trans ho⟩

/-- What is let go does not matter. -/
theorem detach_eq (h : Sequel s t) : t.detach = s.detach := by
  obtain ⟨ops, ho⟩ := h.symbols
  unfold Interpreter.detach
  rw [h.limits, ho, Symbols.reset_performAll]

/-- To change the innermost frame performs no operation on symbols. -/
theorem modifyTop (s : Interpreter) (f : Frame → Frame) : Sequel s (s.modifyTop f) := by
  unfold Interpreter.modifyTop
  split
  · exact .refl s
  · exact .congr (.refl s) rfl rfl

theorem advance (s : Interpreter) : Sequel s s.advance := modifyTop s _

theorem jump (s : Interpreter) (line : Nat) : Sequel s (s.jump line) := modifyTop s _

theorem pop (s : Interpreter) : Sequel s s.pop := congr (.refl s) rfl rfl

theorem leaveLoops (s : Interpreter) : Sequel s s.leaveLoops := congr (.refl s) rfl rfl

theorem finish (s : Interpreter) (reason : ExitReason) : Sequel s (s.finish reason) :=
  congr (.refl s) rfl rfl

theorem goTo (s : Interpreter) (image : Image) (d : Destination) : Sequel s (s.goTo image d) :=
  (leaveLoops s).trans (modifyTop s.leaveLoops _)

/-- A frame more leaves the symbols alone. -/
theorem push {f : Frame} (h : s.push f = .ok t) : Sequel s t := by
  unfold Interpreter.push at h
  split at h
  · contradiction
  · obtain rfl := Except.ok.inj h
    exact .congr (.refl s) rfl rfl

/-- A loop that is entered leaves the symbols alone. -/
theorem enterLoop {opener : Nat} (h : s.enterLoop opener = .ok t) : Sequel s t := by
  unfold Interpreter.enterLoop at h
  split at h
  · obtain rfl := Except.ok.inj h
    exact .refl s
  · split at h
    · obtain rfl := Except.ok.inj h
      exact .modifyTop s _
    · exact .push h

/-! ### symbols -/

/-- One operation on symbols is a history of one operation. -/
theorem performed (op : Symbols.Operation) {symbols : Symbols}
    (h : (s.symbols.perform op).1 = symbols) : Sequel s { s with symbols } :=
  ⟨rfl, [op], h.symm⟩

/-- To assign is one of the operations. -/
theorem assign {scope : Scope} {name value : String} {symbols : Symbols}
    (h : s.symbols.assign scope name value = .ok symbols) : Sequel s { s with symbols } := by
  refine .performed (.assign scope name value) ?_
  rw [Symbols.perform, h]
  rfl

theorem assignScoped {scope : Scope} {name value : String} {symbols : Symbols}
    (h : s.symbols.assignScoped scope name value = .ok symbols) : Sequel s { s with symbols } := by
  refine .performed (.assignScoped scope name value) ?_
  rw [Symbols.perform, h]
  rfl

/-- To define is one of the operations. -/
theorem define {scope : Scope} {name : String} {size : Option Nat} {symbols : Symbols}
    (h : s.symbols.define scope name size = .ok symbols) : Sequel s { s with symbols } := by
  refine .performed (.define scope name size) ?_
  rw [Symbols.perform, h]

/-- To clear symbols is one operation for each of them. -/
theorem clear (s : Interpreter) (scope : Scope) (targets : List String) :
    Sequel s { s with symbols := targets.foldl (fun t name => t.clear scope name) s.symbols } := by
  refine ⟨rfl, targets.map (.clear scope), ?_⟩
  rw [Symbols.performAll, List.foldl_map]
  rfl

/-- An expression assigns its value, or does nothing. -/
theorem expressed {target : String} {op : Decimal.Assignment} {expression : List Argument}
    {decimals : Nat} {symbols : Symbols}
    (h : s.expressed target op expression decimals = .ok symbols) :
    Sequel s { s with symbols } := by
  unfold Interpreter.expressed at h
  dsimp only at h
  split at h
  · obtain rfl := Except.ok.inj h
    exact .refl s
  · obtain ⟨_, -, h⟩ := ok_of_bind h
    obtain ⟨_, -, h⟩ := ok_of_bind h
    obtain ⟨_, -, h⟩ := ok_of_bind h
    exact .assign h

/-- A declaration defines its symbol, and may give it a value. -/
theorem declared {name : String} {size : Option Nat} {args : List Argument} {symbols : Symbols}
    (h : s.declared name size args = .ok symbols) : Sequel s { s with symbols } := by
  unfold Interpreter.declared at h
  obtain ⟨text, -, h⟩ := ok_of_bind h
  obtain ⟨defined, hd, h⟩ := ok_of_bind h
  split at h
  · obtain rfl := Except.ok.inj h
    exact .define hd
  · exact (define hd).trans (.assignScoped h)

/-- Commands that change symbols use the operations that symbols have. -/
theorem update? {command : Command} {symbols : Symbols}
    (h : s.update? command = some (.ok symbols)) : Sequel s { s with symbols } := by
  cases command with
  | set target args =>
      obtain ⟨text, -, h⟩ := ok_of_bind (Option.some.inj h)
      exact .assign h
  | clear targets =>
      obtain rfl := Except.ok.inj (Option.some.inj h)
      exact .clear s s.scope targets
  | declare name size args => exact .declared (Option.some.inj h)
  | expr target op expression => exact .expressed (Option.some.inj h)
  | index target expression => exact .expressed (Option.some.inj h)
  | _ => contradiction

end Sequel

/-! ## lines -/

/-- What a line can leave. -/
def Outcome.Leaves (s : Interpreter) : Outcome → Prop
  | .next t | .pause t | .fault _ t => Sequel s t
  | .ask _ _ => True

namespace Outcome.Leaves

variable {s t : Interpreter}

/-- What is left after more operations has more of them behind it. -/
theorem mono {o : Outcome} (h : Sequel s t) (ho : Leaves t o) : Leaves s o := by
  cases o with
  | next u | pause u | fault _ u => exact h.trans ho
  | ask _ _ => trivial

/-- A computation that fails has left everything as it was. -/
theorem attempt {α : Type} {r : Except Fault α} {k : α → Outcome}
    (h : ∀ a, r = .ok a → Leaves s (k a)) : Leaves s (attempt s r k) := by
  cases r with
  | ok a => exact h a rfl
  | error cause => exact .refl s

theorem breakLoop (s : Interpreter) (header : Header) : Leaves s (s.breakLoop header) := by
  unfold Interpreter.breakLoop
  split
  · exact .refl s
  · exact (Sequel.pop s).trans (.jump _ _)

theorem continueLoop (s : Interpreter) (command : String) : Leaves s (s.continueLoop command) := by
  unfold Interpreter.continueLoop
  split
  · exact .refl s
  · exact .modifyTop s _

theorem passIf (s : Interpreter) (header : Header) (due : Bool) :
    Leaves s (s.passIf header due) := by
  unfold Interpreter.passIf
  split
  · exact .advance s
  · exact .breakLoop s header

theorem returnFrom (s : Interpreter) : Leaves s s.returnFrom := by
  have hleft := Sequel.leaveLoops s
  unfold Interpreter.returnFrom
  dsimp only
  split
  · split
    · exact (hleft.trans (.pop _)).trans (.advance _)
    · exact hleft.trans (.finish _ _)
  · exact hleft.trans (.finish _ _)

theorem bindArguments (s : Interpreter) (scope : Scope) (args : List (String × String)) :
    Leaves s (s.bindArguments scope args) := by
  induction args generalizing s with
  | nil => exact .refl s
  | cons arg rest ih =>
      obtain ⟨name, text⟩ := arg
      unfold Interpreter.bindArguments
      split
      · exact .refl s
      · next symbols h => exact .mono (.assignScoped h) (ih _)

/-- The first line of a loop, once the loop has its frame. -/
theorem entered {opener : Nat} {k : Interpreter → Outcome} (h : ∀ t, Leaves t (k t)) :
    Leaves s (Interpreter.attempt s (s.enterLoop opener) k) :=
  attempt fun t ht => .mono (.enterLoop ht) (h t)

/-- Whatever its command is, a line leads on by operations on symbols. -/
theorem executeLine (s : Interpreter) (image : Image) (header : Header) (at_ : Nat)
    (command : Command) : Leaves s (s.executeLine image header at_ command) := by
  cases hu : s.update? command with
  | some result =>
      rw [executeLine_of_update? hu]
      exact attempt fun symbols hr => (Sequel.update? (hr ▸ hu)).trans (.advance _)
  | none =>
      cases command with
      | set | clear | declare | expr | index => contradiction
      | branch cond => exact attempt fun line _ => .jump s line
      | elseBranch cond | otherBranch | otherChoice => exact .jump s _
      | endBranch | endChoice => exact .advance s
      | choice cond opens =>
          cases opens with
          | true => exact attempt fun line _ => .jump s line
          | false => exact .jump s _
      | doLoop => exact entered fun t => .advance t
      | whileLoop cond => exact entered fun t => attempt fun due _ => .passIf t header due
      | repeatLoop count => exact entered fun t => attempt fun due _ => .passIf t header due
      | eachLoop target items delimiter =>
          refine entered fun t => attempt fun text _ => ?_
          split
          · exact .breakLoop t header
          · exact attempt fun symbols hs => (Sequel.assign hs).trans (.advance _)
      | endLoop => exact .continueLoop s _
      | untilLoop cond =>
          refine attempt fun holds _ => ?_
          split
          · split
            · exact (Sequel.pop s).trans (.jump _ _)
            · exact .refl s
          · exact .continueLoop s _
      | breakLoop => exact .breakLoop s header
      | continueLoop => exact .continueLoop s _
      | goto targets =>
          exact attempt fun d _ => .goTo s image d
      | gosub targets => exact attempt fun d _ => attempt fun t ht => .push ht
      | invoke target args =>
          simp only [Interpreter.executeLine]
          split
          · exact .refl s
          · exact attempt fun bound _ => attempt fun t ht => .mono (.push ht) (.bindArguments t _ _)
      | leave => exact .returnFrom s
      | exit => exact .finish s _
      | raise args => exact attempt fun message _ => .refl s
      | application name args => exact attempt fun values _ => trivial

/-- The current line leads on by operations on symbols, if there is one. -/
theorem execute (s : Interpreter) (image : Image) : Leaves s (s.execute image) := by
  unfold Interpreter.execute
  split
  · exact .refl s
  · split
    · exact .refl s
    · split
      · exact .returnFrom s
      · exact .executeLine s image _ _ _

/-- Whatever the host answers, the symbols stay as they are. -/
theorem answered (s : Interpreter) (command : String) (action : Option Action) :
    Leaves s (s.answered command action) := by
  unfold Interpreter.answered
  split
  · exact .refl s
  · exact .advance s
  · exact .advance s
  · exact .finish s _
  · exact .refl s
  · exact .refl s

end Outcome.Leaves

/-! ## operations -/

namespace Sequel

variable {σ : Type} {s t : Interpreter}

/-- An error is kept and may be handled, without an operation on symbols but that. -/
theorem error (s : Interpreter) (text : String) : Sequel s (s.error text).state := by
  unfold Interpreter.error
  split
  · dsimp only
    split
    · exact .congr (.refl s) rfl rfl
    · exact .congr (.refl s) rfl rfl
  · exact .refl s

/-- An event moves a script, and does not touch its symbols. -/
theorem trigger (s : Interpreter) (event : String) : Sequel s (s.trigger event).1 := by
  unfold Interpreter.trigger
  split
  · split
    · exact .congr (.refl s) rfl rfl
    · exact .refl s
  · exact .refl s

theorem setSymbol {name value : String} (h : s.setSymbol name value = .ok t) : Sequel s t := by
  unfold Interpreter.setSymbol Except.map at h
  split at h
  · contradiction
  · next symbols hassigned =>
      obtain rfl := Except.ok.inj h
      exact .assign hassigned

/-- Who lets go of a script resets its symbols. -/
theorem detached (s : Interpreter) : Sequel s s.detach := ⟨rfl, [.reset], rfl⟩

/-- A script that begins has symbols that were reset, if there was one before. -/
theorem attach (s : Interpreter) (image : Image) (entry : Option String) :
    Sequel s (s.attach image entry).1 := by
  unfold Interpreter.attach
  split
  · exact .refl s
  · dsimp only
    split
    · exact (detached s).congr rfl rfl
    · exact .congr (.refl s) rfl rfl

/-- What a line has come to settles without more operations than an error has. -/
theorem settled {o : Outcome} (h : o.Leaves s) : Sequel s (s.settled o).1 := by
  unfold Interpreter.settled
  split
  · exact h
  · exact h
  · exact .refl s
  · split
    · exact h
    · exact Sequel.trans h (.error _ _)

/-- A step leads on by operations on symbols. -/
theorem step (s : Interpreter) (host : Host σ) (world : σ) :
    Sequel s (s.step host world).state := by
  cases hr : s.isRunning with
  | false =>
      rw [step_of_not_running host world hr]
      exact .refl s
  | true =>
      cases hi : s.image with
      | none => simpa [Interpreter.step, hr, hi] using Sequel.refl s
      | some image =>
          rw [step_of_running host world hr hi]
          refine settled ?_
          unfold outcomeWith
          split
          · exact .answered s _ _
          · exact .execute s image

end Sequel

/-- What comes of a new interpreter has its limits, and symbols that operations lead
to. -/
theorem Reachable.sequel {s : Interpreter} (h : s.Reachable) : Sequel (.new s.limits) s := by
  have hofNew : ∃ limits, Sequel (.new limits) s := by
    induction h with
    | new limits => exact ⟨limits, .refl _⟩
    | attach image entry _ ih => exact ih.imp fun _ h => h.trans (.attach _ image entry)
    | detach _ ih => exact ih.imp fun _ h => h.trans (.detached _)
    | setSymbol _ ht ih => exact ih.imp fun _ h => h.trans (.setSymbol ht)
    | step host world _ ih => exact ih.imp fun _ h => h.trans (.step _ host world)
    | trigger event _ ih => exact ih.imp fun _ h => h.trans (.trigger _ event)
    | error text _ ih => exact ih.imp fun _ h => h.trans (.error _ text)
  obtain ⟨limits, h⟩ := hofNew
  exact h.limits ▸ h

/-- Of a script nothing is left when it is let go. -/
theorem Reachable.detach_eq_new {s : Interpreter} (h : s.Reachable) :
    s.detach = .new s.limits := h.sequel.detach_eq

/-- The symbols of an interpreter may be kept in an arena. -/
theorem Reachable.exists_arena {s : Interpreter} (h : s.Reachable) :
    ∃ past, ((Arena.new s.limits.maxSymbols s.limits.symbolSize).performAll past).Holds
      s.symbols := by
  obtain ⟨past, hs⟩ := h.sequel.symbols
  exact ⟨past, hs ▸ (Arena.Holds.new _ _).performAll past⟩

/-! ## what operations show -/

/-- What can be asked of an interpreter, with hosts whose state has type `σ`. -/
inductive Operation (σ : Type) where
  | attach (image : Image) (entry : Option String)
  | detach
  | setSymbol (name value : String)
  | step (host : Host σ)
  | trigger (event : String)
  | error (text : String)

/-- What an operation gives back. A step also shows the command that it has for the
host. -/
inductive Reply where
  | done
  | truth (b : Bool)
  | stored (fault : Option Fault)
  | stepped (asked : Option (String × List String)) (signal : Signal) (report : Option Report)
  | raised (handled : Bool) (report : Option Report)
deriving Repr, DecidableEq

/-- What can be seen of an interpreter. -/
structure View where
  image : Option Image
  frames : List Frame
  mask : Mask
  status : Status
  symbol? : String → Option String
  lastError : Option String

/-- The sight of an interpreter. -/
def view (s : Interpreter) : View :=
  ⟨s.image, s.frames, s.mask, s.status, s.symbol?, s.lastError⟩

/-- Carry out an operation; the host's state is `world`. -/
def perform {σ : Type} (s : Interpreter) (world : σ) : Operation σ → Interpreter × σ × Reply
  | .attach image entry =>
    ((s.attach image entry).1, world, .truth (s.attach image entry).2)
  | .detach => (s.detach, world, .done)
  | .setSymbol name value =>
    match s.setSymbol name value with
    | .ok t => (t, world, .stored none)
    | .error fault => (s, world, .stored (some fault))
  | .step host =>
    let r := s.step host world
    (r.state, r.world, .stepped s.asked? r.signal r.report)
  | .trigger event => ((s.trigger event).1, world, .truth (s.trigger event).2)
  | .error text =>
    let r := s.error text
    (r.state, world, .raised r.handled r.report)

/-- What operations give back one after the other, each with what can be seen after
it and the host's state. -/
def answers {σ : Type} (s : Interpreter) (world : σ) :
    List (Operation σ) → List (Reply × View × σ)
  | [] => []
  | op :: rest =>
    let (t, world, reply) := s.perform world op
    (reply, t.view, world) :: t.answers world rest

end Switchboard.Interpreter
