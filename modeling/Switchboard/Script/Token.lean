import Switchboard.Script.Argument
import Switchboard.Script.Problem

/-!
# Switchboard.Script.Token

The tokens of a statement.

1. Blanks divide tokens, except between two quotes.
2. A quote may open inside a token; the quoted characters join the others.
3. A token that begins with a quote is literal whatever it holds.
4. A statement has tokens unless one of its quotes is left open.
-/

namespace Switchboard

/-- A token; `quoted` ones begin with a quote. -/
structure Token where
  text : String
  quoted : Bool
deriving Repr, DecidableEq

namespace Token

open Text

/-- Where in a statement the scan stands: between tokens, inside a token, or
inside the quotes of a token. -/
inductive Place where
  | between
  | inside (text : List Char) (quoted : Bool)
  | string (text : List Char) (quoted : Bool)

/-- The tokens of what is left of a statement; none if a quote stays open. -/
def scan : Place → List Char → Option (List Token)
  | .between, [] => some []
  | .inside text quoted, [] => some [⟨String.ofList text, quoted⟩]
  | .string _ _, [] => none
  | .between, c :: cs =>
    if isBlank c then scan .between cs
    else if c = '"' then scan (.string [] true) cs
    else scan (.inside [c] false) cs
  | .inside text quoted, c :: cs =>
    if isBlank c then (scan .between cs).map (⟨String.ofList text, quoted⟩ :: ·)
    else if c = '"' then scan (.string text (quoted || text.isEmpty)) cs
    else scan (.inside (text ++ [c]) quoted) cs
  | .string text quoted, c :: cs =>
    if c = '"' then scan (.inside text quoted) cs
    else scan (.string (text ++ [c]) quoted) cs

/-- The tokens of a statement. -/
def tokenize (cs : List Char) : Except Problem (List Token) :=
  match scan .between cs with
  | some tokens => .ok tokens
  | none => .error .unterminatedString

/-- Whether a token is this word, without quotes. -/
def isBare (t : Token) (word : String) : Bool := !t.quoted && t.text == word

/-- The argument that a token stands for. -/
def argument (t : Token) : Argument :=
  if t.quoted then .literal t.text else .ofWord t.text.toList

/-- The symbol that a token names, with or without the marks `%` in front. -/
def symbolName (t : Token) : String :=
  String.ofList (t.text.toList.dropWhile (· == '%'))

end Token

end Switchboard
