import Switchboard.Interpreter.Basic

/-!
# Switchboard.Interpreter.Handler

Events and errors.

1. An event goes to the innermost frame outside loops whose header handles
   it; the frames above that one are dropped.
2. An error is the event `error`, but no frame at or below one that is
   handling an error gets it. An error without a handler ends the script.
-/

namespace Switchboard.Interpreter

/-! ## reports -/

/-- A line of a source, and the word it begins with. -/
structure Place where
  file : String
  line : UInt32
  keyword : String
deriving Repr, DecidableEq

/-- An error that ended a script, and the line at which it stood. -/
structure Report where
  place : Option Place
  text : String
deriving Repr, DecidableEq

/-- The report in words. -/
def Report.message (r : Report) : String :=
  match r.place with
  | some p => s!"Script error at {p.file}:{p.line} ({p.keyword}): {r.text}"
  | none => s!"Script error: {r.text}"

/-- The line that is executed. -/
def place? (s : Interpreter) : Option Place := do
  let frame ← s.top?
  let image ← s.image
  let header ← image.headerAt? frame.header
  let line ← header.lines[frame.line]?
  return ⟨header.file, line.number, line.command.keyword⟩

/-! ## handlers -/

/-- The line at which the handler of an event begins in the header of a frame. -/
def handlerOf? (image : Image) (event : String) (f : Frame) : Option Nat :=
  (image.headerAt? f.header).bind (·.event? event)

/-- The frames after an event went to its handler. -/
def dispatched? (image : Image) (event : String) : List Frame → Option (List Frame)
  | [] => none
  | f :: below =>
    if f.isLoop then dispatched? image event below
    else match handlerOf? image event f with
      | some line => some ({ f with line } :: below)
      | none => dispatched? image event below

/-- The frames after an error went to its handler. -/
def trapped? (image : Image) : List Frame → Option (List Frame)
  | [] => none
  | f :: below =>
    if f.isLoop then trapped? image below
    else if f.trapped then none
    else match handlerOf? image "error" f with
      | some line => some ({ f with line, trapped := true } :: below)
      | none => trapped? image below

/-- Raise an event. The answer tells whether it was handled. -/
def trigger (s : Interpreter) (event : String) : Interpreter × Bool :=
  if s.isRunning then
    match s.image.bind fun image => dispatched? image event s.frames with
    | some frames => ({ s with frames }, true)
    | none => (s, false)
  else (s, false)

/-- What became of an error: whether a handler has it, and else the report
of the script's end. -/
structure Raised where
  state : Interpreter
  handled : Bool
  report : Option Report
deriving Repr, DecidableEq

/-- Raise an error. -/
def error (s : Interpreter) (text : String) : Raised :=
  if s.isRunning then
    let s := { s with lastError := some text }
    match s.image.bind fun image => trapped? image s.frames with
    | some frames => ⟨{ s with frames }, true, none⟩
    | none => ⟨s.finish (.error text), false, some ⟨s.place?, text⟩⟩
  else ⟨s, false, none⟩

end Switchboard.Interpreter
