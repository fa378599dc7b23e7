import Switchboard.Document
import Switchboard.Event

/-!
# Switchboard.Event.Document

Events and states of slots as documents.

1. A state, and an event that is no signal, is a word with a capital in front.
   A table with that word as its one key and nothing below it means the same.
2. A signal is a table with its name under the key `Signal`.
-/

namespace Switchboard

/-- A text with its first letter, if it is a small one, as a capital. -/
def capitalized (s : String) : String :=
  match s.toList with
  | c :: cs => String.ofList (c.toUpper :: cs)
  | [] => ""

/-- A word in a document. -/
def Document.word : Document → Option String
  | .text word => some word
  | .table [(word, .null)] => some word
  | _ => none

namespace Event

/-- An event as a document. -/
def document : Event → Document
  | .signal name => .table [("Signal", .text name)]
  | e => .text (capitalized e.name)

/-- The event that a document describes. -/
def ofDocument? : Document → Option Event
  | .table [("Signal", .text name)] => some (.signal name)
  | d => d.word.bind fun word => plain.find? fun e => capitalized e.name == word

end Event

namespace SlotState

/-- A state as a document. -/
def document (s : SlotState) : Document := .text (capitalized s.label)

/-- The state that a document describes. -/
def ofDocument? (d : Document) : Option SlotState :=
  d.word.bind fun word => all.find? fun s => capitalized s.label == word

end SlotState

end Switchboard
