import Switchboard.Text.Pieces
import Switchboard.Text.Letters

/-!
# Switchboard.Script.Argument

The arguments of a statement.

1. `%name` stands for the value of a symbol, `@name` for a header, `^name`
   for an event handler of the same header.
2. `name=value` gives the argument `value` a name; the value is again any of
   these forms, quoted text apart.
3. Everything else, and all quoted text, is literal.
-/

namespace Switchboard

/-- An argument of a statement. -/
inductive Argument where
  | literal (text : String)
  | symbol (name : String)
  | label (name : String)
  | event (name : String)
  | keyword (name : String) (value : Argument)
deriving Repr, DecidableEq, Inhabited

namespace Argument

open Text

/-- The argument that an unquoted word stands for. -/
def ofWord : List Char → Argument
  | '%' :: name => .symbol (String.ofList name)
  | '@' :: name => .label (String.ofList name)
  | '^' :: name => .event (String.ofList name)
  | cs =>
    match _h : cut? '=' cs with
    | some (name, value) =>
      if isName name then .keyword (String.ofList name) (ofWord value)
      else .literal (String.ofList cs)
    | none => .literal (String.ofList cs)
termination_by cs => cs.length
decreasing_by
  have := congrArg List.length (eq_of_cut? _h)
  simp only [List.length_append, List.length_cons] at this
  omega

/-- The written form of an argument. A literal is quoted where it would
otherwise be no word. -/
def text : Argument → String
  | .literal t => if t.isEmpty || hasBlank t.toList then "\"" ++ t ++ "\"" else t
  | .symbol name => "%" ++ name
  | .label name => "@" ++ name
  | .event name => "^" ++ name
  | .keyword name value => name ++ "=" ++ value.text

end Argument

end Switchboard
