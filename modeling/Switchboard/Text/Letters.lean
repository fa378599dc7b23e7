/-!
# Switchboard.Text.Letters

Letters without regard to case. Only the twenty-six ASCII letters have two
cases here; every other character equals itself alone.
-/

namespace Switchboard.Text

/-- The text with its ASCII capitals as small letters. -/
def lowered (s : String) : String := String.ofList (s.toList.map Char.toLower)

/-- Two texts are alike when they differ in the case of ASCII letters only. -/
def alike (s t : String) : Bool := lowered s == lowered t

/-- A letter, or the underscore that may stand in its place. -/
def isNameStart (c : Char) : Bool := c.isAlpha || c == '_'

/-- A character that may follow in a name: a letter, a digit, `_` or `.`. -/
def isNameRest (c : Char) : Bool := c.isAlphanum || c == '_' || c == '.'

/-- Names begin with an ASCII letter or `_` and go on with letters, digits, `_` and `.`. -/
def isName : List Char → Bool
  | [] => false
  | c :: cs => isNameStart c && cs.all isNameRest

end Switchboard.Text
