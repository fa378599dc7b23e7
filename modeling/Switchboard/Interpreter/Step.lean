import Switchboard.Host
import Switchboard.Interpreter.Evaluate
import Switchboard.Interpreter.Handler
import Switchboard.Interpreter.Scan

/-!
# Switchboard.Interpreter.Step

Executing one line.

1. A line either goes on, pauses the script, asks the host to execute a
   command, or is at fault. A fault keeps what the line had done before it.
2. The lines of a loop run in a frame of their own. Its first line pushes the
   frame when it is reached from outside, and finds it there on every further
   pass.
3. A header that runs out of lines returns to its caller.
4. `step` tells to go on only if the script still runs and needs the same
   resources as before, so that they can be provided in between.
-/

namespace Switchboard.Interpreter

/-! ## outcomes -/

/-- What a line did. -/
inductive Outcome where
  /-- The script goes on. -/
  | next (s : Interpreter)
  /-- The script has ended, or waits. -/
  | pause (s : Interpreter)
  /-- The line could not be carried out, and left this state. -/
  | fault (cause : Fault) (s : Interpreter)
  /-- The host must execute a command. -/
  | ask (command : String) (args : List String)
deriving Repr, DecidableEq

/-- Go on with a result, or fail in the state `s`. -/
def attempt {α : Type} (s : Interpreter) (r : Except Fault α) (k : α → Outcome) : Outcome :=
  match r with
  | .ok a => k a
  | .error cause => .fault cause s

/-! ## loops -/

/-- Have a frame for the loop that begins at `opener`. -/
def enterLoop (s : Interpreter) (opener : Nat) : Except Fault Interpreter :=
  match s.frames with
  | [] => .ok s
  | top :: _ =>
    if top.opener? = some opener then .ok (s.jump opener)
    else s.push { top with kind := .loop opener, index := 0, trapped := false }

/-- Leave the innermost loop and go to the line after it. -/
def breakLoop (s : Interpreter) (header : Header) : Outcome :=
  match s.top?.bind fun f => f.opener?.map fun opener => (f.line, opener) with
  | none => .fault (.notInLoop "break") s
  | some (line, opener) =>
    let depth := ((header.lines[opener]?).map (·.depth)).getD 0
    .next (s.pop.jump (Scan.pastLoop header.lines line depth))

/-- Begin the next pass of the innermost loop. -/
def continueLoop (s : Interpreter) (command : String) : Outcome :=
  match s.top?.bind Frame.opener? with
  | none => .fault (.notInLoop command) s
  | some opener => .next (s.modifyTop fun f => { f with index := f.index + 1, line := opener })

/-- Begin a pass if it is due, and leave the loop if it is not. -/
def passIf (s : Interpreter) (header : Header) (due : Bool) : Outcome :=
  if due then .next s.advance else s.breakLoop header

/-! ## calls -/

/-- Return to the line after the call, or end the script. -/
def returnFrom (s : Interpreter) : Outcome :=
  let s := s.leaveLoops
  match s.frames with
  | top :: _ :: _ =>
    if top.isCall then .next s.pop.advance else .pause (s.finish .exit)
  | _ => .pause (s.finish .exit)

/-- Give the symbols of a header their values, one after the other. -/
def bindArguments (s : Interpreter) (scope : Scope) : List (String × String) → Outcome
  | [] => .next s
  | (name, text) :: rest =>
    match s.symbols.assignScoped scope name text with
    | .error cause => .fault cause s
    | .ok symbols => bindArguments { s with symbols } scope rest

/-- The resources of the frame below the innermost one. -/
def inheritedMask (s : Interpreter) : Mask := ((s.frames[1]?).map (·.mask)).getD 0

/-- Go on at a destination, outside of every loop of this frame. Errors are
handled again unless the destination is inside the same header. -/
def goTo (s : Interpreter) (image : Image) (d : Destination) : Interpreter :=
  let s := s.leaveLoops
  let mask := s.inheritedMask ||| image.maskAt d.header
  s.modifyTop fun f =>
    { f with
      header := d.header
      line := d.line
      mask
      trapped := f.trapped && f.header == d.header && d.line != 0 }

/-- Add the frame of a call. -/
def call (s : Interpreter) (image : Image) (kind : FrameKind) (header line : Nat) :
    Except Fault Interpreter :=
  s.push ⟨header, line, kind, 0, s.mask ||| image.maskAt header, false⟩

/-! ## assignments -/

/-- Assign the value of an expression. With `?=`, a target that holds a text
keeps it, and the expression is not looked at. -/
def assignExpression (s : Interpreter) (target : String) (op : Decimal.Assignment)
    (expression : List Argument) (decimals : Nat) : Except Fault Interpreter :=
  let current := (s.symbol? target).getD ""
  if op = .ifEmpty ∧ current ≠ "" then .ok s
  else do
    let fragments ← s.values expression
    let value ← (Decimal.evaluate fragments decimals).mapError .arithmetic
    let result ← (Decimal.assign current op value decimals).mapError .arithmetic
    let symbols ← s.symbols.assign s.scope target result.render
    return { s with symbols }

/-- Declare a symbol of the current header, and give it a value if there is one. -/
def declare (s : Interpreter) (name : String) (size : Option Nat) (args : List Argument) :
    Except Fault Interpreter := do
  let text ← s.concat args
  let symbols ← s.symbols.define s.scope name size
  if args.isEmpty then return { s with symbols }
  else
    let symbols ← symbols.assignScoped s.scope name text
    return { s with symbols }

/-- Whether pass `index` of a `repeat` is due. -/
def repeatDue (s : Interpreter) (count : Argument) : Except Fault Bool := do
  let text ← s.value count
  match Text.readNat (Text.wordBound 64) (Text.trim text.toList) with
  | some n => return s.loopIndex < n
  | none => throw (.arithmetic (.invalidNumber text))

/-- The pieces that `foreach` goes through; the empty text has none. -/
def piecesOf (text : String) (delimiter : Char) : List String :=
  if text.isEmpty then [] else (Text.pieces (· == delimiter) text.toList).map String.ofList

/-! ## lines -/

/-- Execute a line of a header. -/
def executeLine (s : Interpreter) (image : Image) (header : Header) (at_ : Nat) :
    Command → Outcome
  | .set target args =>
    attempt s (s.concat args >>= s.symbols.assign s.scope target) fun symbols =>
      .next { s with symbols }.advance
  | .clear targets =>
    .next { s with symbols := targets.foldl (fun t name => t.clear s.scope name) s.symbols }.advance
  | .declare name size args => attempt s (s.declare name size args) fun s => .next s.advance
  | .expr target op expression =>
    attempt s (s.assignExpression target op expression s.limits.decimals) fun s => .next s.advance
  | .index target expression =>
    attempt s (s.assignExpression target .set expression 0) fun s => .next s.advance
  | .branch _ =>
    attempt s (Scan.taken Scan.branchRole Scan.branchGuard s.condition header.lines at_)
      fun line => .next (s.jump line)
  | .elseBranch _ | .otherBranch =>
    .next (s.jump (Scan.closer Scan.branchRole header.lines at_ + 1))
  | .choice _ true =>
    attempt s (Scan.taken Scan.choiceRole Scan.choiceGuard s.condition header.lines at_)
      fun line => .next (s.jump line)
  | .choice _ false | .otherChoice =>
    .next (s.jump (Scan.closer Scan.choiceRole header.lines at_ + 1))
  | .endBranch | .endChoice => .next s.advance
  | .doLoop => attempt s (s.enterLoop at_) fun s => .next s.advance
  | .whileLoop cond =>
    attempt s (s.enterLoop at_) fun s => attempt s (s.condition cond) (s.passIf header)
  | .repeatLoop count =>
    attempt s (s.enterLoop at_) fun s => attempt s (s.repeatDue count) (s.passIf header)
  | .eachLoop target items delimiter =>
    attempt s (s.enterLoop at_) fun s =>
      attempt s (s.value items) fun text =>
        match (piecesOf text delimiter)[s.loopIndex]? with
        | none => s.breakLoop header
        | some item =>
          attempt s (s.symbols.assign s.scope target item) fun symbols =>
            .next { s with symbols }.advance
  | .endLoop => s.continueLoop "loop"
  | .untilLoop cond =>
    attempt s (s.condition cond) fun holds =>
      if holds then
        if (s.top?.map Frame.isLoop).getD false then .next (s.pop.jump (at_ + 1))
        else .fault (.notInLoop "until") s
      else s.continueLoop "until"
  | .breakLoop => s.breakLoop header
  | .continueLoop => s.continueLoop "continue"
  | .goto targets => attempt s (s.resolve image header targets) fun d => .next (s.goTo image d)
  | .gosub targets =>
    attempt s (s.resolve image header targets) fun d =>
      attempt s (s.call image (.gosub d.place) d.header d.line) .next
  | .invoke target args =>
    match image.indexOf? target with
    | none => .fault (.labelNotFound ("@" ++ target)) s
    | some i =>
      attempt s (s.bound args) fun bound =>
        attempt s (s.call image .invoke i 0) fun s => s.bindArguments (some i) bound
  | .leave => s.returnFrom
  | .exit => .pause (s.finish .exit)
  | .raise args => attempt s (s.concat args) fun message => .fault (.raised message) s
  | .application name args => attempt s (s.values args) (.ask name)

/-- Execute the current line. -/
def execute (s : Interpreter) (image : Image) : Outcome :=
  match s.top? with
  | none => .pause s
  | some frame =>
    match image.headerAt? frame.header with
    | none => .fault (.labelNotFound s!"#{frame.header}") s
    | some header =>
      match header.lines[frame.line]? with
      | none => s.returnFrom
      | some line => s.executeLine image header frame.line line.command

/-- What a line did whose command the host answered. -/
def answered (s : Interpreter) (command : String) : Option Action → Outcome
  | none => .fault (.unknownCommand command) s
  | some .proceed => .next s.advance
  | some .suspend => .pause s.advance
  | some (.exit reason) => .pause (s.finish (.host reason))
  | some (.fail reason) => .fault (.commandFailed command reason) s
  | some .abort => .fault (.hostAborted command) s

/-! ## steps -/

/-- What to do after a step: take the next, wait, or give up, because a
fault came up that no script can handle. -/
inductive Signal where
  | proceed
  | pause
  | broke
deriving Repr, DecidableEq

/-- The result of a step: the interpreter and the host's state after it. -/
structure Stepped (σ : Type) where
  state : Interpreter
  world : σ
  signal : Signal
  report : Option Report

/-- Whether the next step may be taken at once. -/
def Stepped.more {σ : Type} (r : Stepped σ) : Bool := r.signal == .proceed

/-- The state after a line, with its error raised if it was at fault; the
signal takes no account of resources. -/
def settled (s : Interpreter) : Outcome → Interpreter × Signal × Option Report
  | .next s => (s, .proceed, none)
  | .pause s => (s, .pause, none)
  | .ask _ _ => (s, .pause, none)
  | .fault cause s =>
    if cause.isFatal then (s, .broke, none)
    else
      let r := s.error cause.message
      (r.state, if r.handled then .proceed else .pause, r.report)

/-- The signal of a step that began with the resources `before`: to go on is
allowed only if the script runs and needs the same ones. -/
def signalAfter (before : Mask) (s : Interpreter) : Signal → Signal
  | .proceed => if s.isRunning ∧ s.mask = before then .proceed else .pause
  | signal => signal

/-- Execute one line, with the help of a host. -/
def step {σ : Type} (s : Interpreter) (host : Host σ) (world : σ) : Stepped σ :=
  if s.isRunning then
    match s.image with
    | none => ⟨s, world, .pause, none⟩
    | some image =>
      let outcome := s.execute image
      let (outcome, world) := match outcome with
        | .ask command args =>
          let (action, world) := host.execute command args world
          (s.answered command action, world)
        | outcome => (outcome, world)
      let (after, signal, report) := s.settled outcome
      ⟨after, world, signalAfter s.mask after signal, report⟩
  else ⟨s, world, .pause, none⟩

end Switchboard.Interpreter
