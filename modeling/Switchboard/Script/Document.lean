import Switchboard.Document
import Switchboard.Script.Image

/-!
# Switchboard.Script.Document

Compiled scripts as documents, for tools that inspect or make them.

1. A line is a table with the parts of its command, under the word `cmd` the
   word it begins with, and its depth, mask and number. A command of an
   application has its name under `custom` as well.
2. An argument is a table with one key, which says what kind of argument it is.
3. When a document is read, a part that is absent is empty or nought.
-/

namespace Switchboard

open Document (ofNat ofOption ofList list? Settings)

/-! ## arguments -/

namespace Argument

/-- An argument as a document. -/
def document : Argument → Document
  | .literal t => .table [("lit", .text t)]
  | .symbol t => .table [("sym", .text t)]
  | .label t => .table [("label", .text t)]
  | .event t => .table [("event", .text t)]
  | .keyword n a => .table [("kw", .list [.text n, a.document])]

/-- The argument that a document describes. -/
def ofDocument? : Document → Option Argument
  | .table [("lit", .text t)] => some (.literal t)
  | .table [("sym", .text t)] => some (.symbol t)
  | .table [("label", .text t)] => some (.label t)
  | .table [("event", .text t)] => some (.event t)
  | .table [("kw", .list [.text n, d])] => (ofDocument? d).map (.keyword n)
  | _ => none

/-- A named argument as a document. -/
def pairDocument (p : String × Argument) : Document := .list [.text p.1, p.2.document]

/-- The named argument that a document describes. -/
def pairOfDocument? : Document → Option (String × Argument)
  | .list [.text n, d] => (ofDocument? d).map fun a => (n, a)
  | _ => none

end Argument

/-! ## conditions -/

namespace Test

/-- A test as a document. -/
def document : Test → Document
  | .compare a op b => .table [("cmp", .list [a.document, .text op.text, b.document])]
  | .empty a => .table [("empty", a.document)]
  | .defined n => .table [("defined", .text n)]
  | .value a => .table [("value", a.document)]

/-- The test that a document describes. -/
def ofDocument? : Document → Option Test
  | .table [("cmp", .list [a, .text op, b])] => do
    return .compare (← Argument.ofDocument? a) (← Comparison.ofText? op) (← Argument.ofDocument? b)
  | .table [("empty", a)] => (Argument.ofDocument? a).map .empty
  | .table [("defined", .text n)] => some (.defined n)
  | .table [("value", a)] => (Argument.ofDocument? a).map .value
  | _ => none

end Test

namespace Join

/-- The word for a way of joining. -/
def word : Join → String
  | .first => "first"
  | .and => "and"
  | .or => "or"

/-- The way of joining that a word names. -/
def ofWord? (word : String) : Option Join := [first, .and, .or].find? fun j => j.word == word

end Join

namespace Clause

/-- A clause as a document. -/
def document (c : Clause) : Document :=
  .table [("join", .text c.join.word), ("neg", .bool c.negate), ("test", c.test.document)]

/-- The clause that a document describes. -/
def ofDocument? (d : Document) : Option Clause := do
  let s ← d.settings?
  let join ← s.get "join" (fun d => d.text?.bind Join.ofWord?) .first
  return ⟨join, ← s.get "neg" Document.bool? false, ← s.need "test" Test.ofDocument?⟩

end Clause

/-! ## commands -/

namespace Command

/-- Arguments as a document. -/
def argumentsDocument (args : List Argument) : Document := ofList Argument.document args

/-- A condition as a document. -/
def conditionDocument (c : Condition) : Document := ofList Clause.document c

/-- The parts of a command as documents. -/
def parts : Command → Settings
  | .set target args => [("target", .text target), ("values", argumentsDocument args)]
  | .clear targets => [("targets", ofList .text targets)]
  | .declare name size args =>
    [("name", .text name), ("size", ofOption ofNat size), ("values", argumentsDocument args)]
  | .expr target op e =>
    [("target", .text target), ("op", .text op.text), ("expr", argumentsDocument e)]
  | .index target e => [("target", .text target), ("expr", argumentsDocument e)]
  | .branch c | .elseBranch c | .whileLoop c | .untilLoop c => [("cond", conditionDocument c)]
  | .choice c opens => [("cond", conditionDocument c), ("first", .bool opens)]
  | .repeatLoop count => [("count", count.document)]
  | .eachLoop target items c =>
    [("target", .text target), ("list", items.document),
      ("delimiter", .text (String.singleton c))]
  | .goto targets | .gosub targets => [("targets", argumentsDocument targets)]
  | .invoke target args =>
    [("target", .text target), ("args", ofList Argument.pairDocument args)]
  | .raise args => [("message", argumentsDocument args)]
  | .application name args => [("custom", .text name), ("args", argumentsDocument args)]
  | _ => []

end Command

namespace Document.Settings

/-- A text, empty if it is absent. -/
def string (s : Settings) (name : String) : Option String := s.get name Document.text? ""

/-- A number, nought if it is absent. -/
def number (s : Settings) (name : String) : Option Nat := s.get name Document.word? 0

/-- Arguments, none if they are absent. -/
def arguments (s : Settings) (name : String) : Option (List Argument) :=
  s.get name (list? Argument.ofDocument?) []

/-- An argument. -/
def argument (s : Settings) (name : String) : Option Argument := s.need name Argument.ofDocument?

/-- A condition, without clauses if it is absent. -/
def condition (s : Settings) : Option Condition := s.get "cond" (list? Clause.ofDocument?) []

end Document.Settings

namespace Command

/-- The command of an application with parts. -/
def applicationOf (s : Settings) (name : String) : Option Command :=
  (s.arguments "args").map (.application name)

/-- The command with a first word and parts. -/
def ofWord? (s : Settings) (word : String) : Option Command := do
  match word with
  | "set" => return .set (← s.string "target") (← s.arguments "values")
  | "clear" => return .clear (← s.get "targets" (list? Document.text?) [])
  | "var" =>
    let size ← s.get "size" (Document.optional? Document.word?) none
    return .declare (← s.string "name") size (← s.arguments "values")
  | "expr" =>
    let op ← s.get "op" (fun d => d.text?.bind Decimal.Assignment.ofText?) .set
    return .expr (← s.string "target") op (← s.arguments "expr")
  | "index" => return .index (← s.string "target") (← s.arguments "expr")
  | "if" => return .branch (← s.condition)
  | "elif" => return .elseBranch (← s.condition)
  | "else" => return .otherBranch
  | "endif" => return .endBranch
  | "case" => return .choice (← s.condition) (← s.get "first" Document.bool? false)
  | "otherwise" => return .otherChoice
  | "endcase" => return .endChoice
  | "do" => return .doLoop
  | "while" => return .whileLoop (← s.condition)
  | "repeat" => return .repeatLoop (← s.argument "count")
  | "foreach" =>
    let delimiter := (← s.string "delimiter").toList.headD ','
    return .eachLoop (← s.string "target") (← s.argument "list") delimiter
  | "loop" => return .endLoop
  | "until" => return .untilLoop (← s.condition)
  | "break" => return .breakLoop
  | "continue" => return .continueLoop
  | "goto" => return .goto (← s.arguments "targets")
  | "gosub" => return .gosub (← s.arguments "targets")
  | "invoke" =>
    return .invoke (← s.string "target") (← s.get "args" (list? Argument.pairOfDocument?) [])
  | "return" => return .leave
  | "exit" => return .exit
  | "error" => return .raise (← s.arguments "message")
  | name => applicationOf s name

/-- The command that the parts of a line describe. -/
def ofParts? (s : Settings) : Option Command := do
  match ← s.get "custom" (Document.optional? Document.text?) none with
  | some name => applicationOf s name
  | none => ofWord? s (← s.string "cmd")

end Command

/-! ## lines, headers and images -/

/-- A mask as a document. -/
def Document.ofMask (m : Mask) : Document := ofNat m.toNat

/-- A mask, empty if it is absent. -/
def Document.Settings.mask (s : Settings) : Option Mask := (s.number "mask").map UInt64.ofNat

/-- The number of a line, nought if it is absent. -/
def Document.Settings.line (s : Settings) : Option UInt32 :=
  (s.get "lnum" (Document.nat? UInt32.size) 0).map UInt32.ofNat

/-- The depth of a line, nought if it is absent. -/
def Document.Settings.depth (s : Settings) : Option Nat :=
  s.get "depth" (Document.nat? UInt16.size) 0

namespace Line

/-- A line as a document. -/
def document (l : Line) : Document :=
  .table (l.command.parts ++ [("cmd", .text l.command.keyword), ("depth", ofNat l.depth),
    ("mask", .ofMask l.mask), ("lnum", ofNat l.number.toNat)])

/-- The line that a document describes. -/
def ofDocument? (d : Document) : Option Line := do
  let s ← d.settings?
  return ⟨← Command.ofParts? s, ← s.depth, ← s.mask, ← s.line⟩

end Line

namespace Header

/-- The events of a header in the order of their names. -/
def sortedEvents (h : Header) : List (String × Nat) := h.events.mergeSort fun a b => a.1 ≤ b.1

/-- A header as a document. -/
def document (h : Header) : Document :=
  .table [("name", .text h.name), ("file", .text h.file), ("mask", .ofMask h.mask),
    ("events", ofList (fun (name, line) => .list [.text name, ofNat line]) h.sortedEvents),
    ("lines", ofList Line.document h.lines)]

/-- The place of an event handler that a document describes. -/
def eventOfDocument? : Document → Option (String × Nat)
  | .list [.text name, d] => d.word?.map fun line => (name, line)
  | _ => none

/-- The header that a document describes. -/
def ofDocument? (d : Document) : Option Header := do
  let s ← d.settings?
  let lines ← s.get "lines" (list? Line.ofDocument?) []
  let events ← s.get "events" (list? eventOfDocument?) []
  let h : Header := ⟨← s.string "name", ← s.string "file", lines, [], ← s.mask⟩
  return events.foldl (fun h (name, line) => h.setEvent name line) h

end Header

namespace Image

/-- An image as a document: its headers in order. -/
def document (image : Image) : Document := ofList Header.document image.headers

/-- The image that a document describes. -/
def ofDocument? (d : Document) : Option Image :=
  (list? Header.ofDocument? d).map ofHeaders

end Image

end Switchboard
