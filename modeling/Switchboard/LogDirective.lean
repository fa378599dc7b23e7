import Switchboard.LogLevel
import Switchboard.Scientific
import Switchboard.Text.Alphanumeric
import Switchboard.Text.Blank
import Switchboard.Text.Extent
import Switchboard.Text.Pattern
import Switchboard.Text.Pieces

/-!
# Switchboard.LogDirective

Directives that say which messages are logged.

1. A directive is a level; or it names a target, a span in square brackets
   after the target, or both, and may give them a level after `=`. A comma may
   end it.
2. A span may list fields in braces, each with a pattern for its value after
   `=`, or with a number.
3. The name of a target begins with a letter, a digit, `-`, `:` or `_`, and
   goes on with any character but `=`, `[` and `,`.
4. The marks are those of the text without the blanks around it. The words
   between them are taken from the same places of the whole text, so that
   blanks in front move every word by as many bytes as they take. A place
   inside a character ends no word.
-/

namespace Switchboard.LogDirective

open Text

/-- A character of a directive and its place: the bytes in front of it, blanks
before the directive left out. -/
structure Sign where
  char : Char
  place : Nat
deriving Repr, DecidableEq

namespace Sign

/-- The place after a sign. -/
def next (s : Sign) : Nat := s.place + s.char.utf8Size

/-- The signs of a text from a place on. -/
def ofList (place : Nat) : List Char → List Sign
  | [] => []
  | c :: cs => ⟨c, place⟩ :: ofList (place + c.utf8Size) cs

end Sign

/-- Whether a character may begin the name of a target. -/
def beginsTarget (c : Char) : Bool := isAlphanumeric c || c == '-' || c == ':' || c == '_'

/-! ## words -/

/-- Whether a word is a level, or none at all. -/
def isLevel (word : List Char) : Bool := word.isEmpty || LogLevel.isThreshold word

/-- Whether a value of a field is a number, with a sign or without, or one of
the words for infinity and for what is no number. -/
def isAmount (value : List Char) : Bool :=
  (Scientific.parse? value).isSome ||
    ["inf", "infinity", "nan"].any (alike · (String.ofList (Scientific.signed value).2))

/-- Whether a field is written well: a name, and perhaps a value. -/
def isField (field : List Char) : Bool :=
  !field.isEmpty && match pieces (· == '=') field with
    | _ :: value :: _ => isAmount value || Pattern.isPattern value
    | _ => true

/-! ## parts -/

/-- Whether a level begins at a place. A comma may follow it. -/
def hasLevel (whole : List Char) (place : Nat) (signs : List Sign) : Bool :=
  match signs.dropWhile (·.char != ',') with
  | [] => (from? place whole).any isLevel
  | comma :: rest => rest.isEmpty && (between? place comma.place whole).any isLevel

/-- Whether a directive may go on like this after a span. -/
def isAfterSpan (whole : List Char) : List Sign → Bool
  | [] => true
  | s :: rest => s.char == '=' && hasLevel whole s.next rest

/-- Whether the fields of a span go on from a place, and the directive after
them. -/
def hasFields (whole : List Char) (place : Nat) : List Sign → Bool
  | [] => false
  | s :: rest =>
    if s.char == ',' then (between? place s.place whole).any isField && hasFields whole s.next rest
    else if s.char == '\x7d' then
      (between? place s.place whole).any isField && match rest with
        | close :: rest => close.char == ']' && isAfterSpan whole rest
        | [] => false
    else hasFields whole place rest

/-- Whether a span begins at a place, and the directive goes on after it. -/
def hasSpan (whole : List Char) (place : Nat) (signs : List Sign) : Bool :=
  match signs.dropWhile fun s => s.char != ']' && s.char != '\x7b' with
  | [] => false
  | s :: rest =>
    (between? place s.place whole).isSome &&
      if s.char == ']' then isAfterSpan whole rest else hasFields whole s.next rest

/-- Whether a target or a level begins the directive, and it goes on after it. -/
def hasTarget (whole : List Char) (signs : List Sign) : Bool :=
  match signs.dropWhile fun s => s.char != '=' && s.char != '[' && s.char != ',' with
  | [] => true
  | s :: rest =>
    if s.char == ',' then rest.isEmpty
    else (splitAt? s.place whole).isSome &&
      if s.char == '=' then hasLevel whole s.next rest else hasSpan whole s.next rest

/-! ## directives -/

/-- Whether a text is a directive. -/
def isDirective (text : String) : Bool :=
  let whole := text.toList
  match Sign.ofList 0 (trim whole) with
  | [] => false
  | first :: rest =>
    if first.char == '[' then hasSpan whole first.next rest
    else beginsTarget first.char && hasTarget whole (first :: rest)

end Switchboard.LogDirective
