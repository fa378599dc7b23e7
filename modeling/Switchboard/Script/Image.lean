import Switchboard.Total
import Switchboard.Script.Command

/-!
# Switchboard.Script.Image

Compiled scripts.

1. A header is a named list of lines, with the places at which its event
   handlers begin.
2. An image is a list of headers with different keys. The key of a name is
   the name without one leading `@`, its ASCII capitals made small.
3. Of several headers with one key the last counts, at the place of the first.
-/

namespace Switchboard

/-! ## headers -/

/-- A label or subroutine. `mask` is the union of what its lines need. -/
structure Header where
  name : String
  file : String
  lines : List Line
  events : List (String × Nat)
  mask : Mask
deriving Repr, DecidableEq

namespace Header

/-- A name without the `@` in front of it. -/
def bare (name : String) : String :=
  String.ofList ((Text.after? '@' name.toList).getD name.toList)

/-- What two names of one header have in common. -/
def key (name : String) : String := Text.lowered (bare name)

/-- A header without lines. -/
def empty (name file : String) : Header := ⟨name, file, [], [], 0⟩

/-- The line at which the handler of an event begins. -/
def event? (h : Header) (name : String) : Option Nat := h.events.lookup name

/-- Let the handler of an event begin at a line, in place of an earlier one. -/
def setEvent (h : Header) (name : String) (line : Nat) : Header :=
  { h with events := (name, line) :: h.events.filter (·.1 != name) }

/-- Add a line at the end. -/
def push (h : Header) (line : Line) : Header :=
  { h with lines := h.lines ++ [line], mask := h.mask ||| line.mask }

end Header

/-! ## images -/

/-- A compiled program. -/
structure Image where
  headers : List Header
deriving Repr, DecidableEq

namespace Image

/-- The image without headers. -/
def empty : Image := ⟨[]⟩

/-- Whether two headers have one key. -/
def sameKey (a b : Header) : Bool := Header.key a.name == Header.key b.name

/-- The headers with one more: in place of that with its key, or else last. -/
def place (h : Header) : List Header → List Header
  | [] => [h]
  | g :: rest => if sameKey g h then h :: rest else g :: place h rest

/-- The image of a list of headers. -/
def ofHeaders (headers : List Header) : Image :=
  ⟨headers.foldl (fun placed h => place h placed) []⟩

/-- The place of the header with this name. -/
def indexOf? (image : Image) (name : String) : Option Nat :=
  image.headers.findIdx? fun h => Header.key h.name == Header.key name

/-- The header with this name. -/
def header? (image : Image) (name : String) : Option Header :=
  image.headers.find? fun h => Header.key h.name == Header.key name

/-- The header at a place. -/
def headerAt? (image : Image) (i : Nat) : Option Header := image.headers[i]?

/-- What the header at a place needs; nothing if there is none. -/
def maskAt (image : Image) (i : Nat) : Mask := ((image.headerAt? i).map (·.mask)).getD 0

/-- The number of headers. -/
def size (image : Image) : Nat := image.headers.length

/-- The number of lines in all headers. -/
def lineCount (image : Image) : Nat := total (image.headers.map (·.lines.length))

end Image

end Switchboard
