import Switchboard.Script.Command
import Switchboard.Script.Token

/-!
# Switchboard.Script.Condition

Reading conditions.

```
condition ::= clause (('and' | 'or') clause)*
clause    ::= ('!' | 'not')? test
test      ::= '-empty' arg | '-defined' name | arg comparison arg | arg
```

1. A bare `and` or `or` always joins, so it is never an argument.
2. A bare `!` or `not` at the start of a clause always negates.
-/

namespace Switchboard

namespace Test

/-- The test that the tokens of a clause write, without its negation. -/
def ofTokens? : List Token → Option Test
  | [arg] => some (.value arg.argument)
  | [word, arg] =>
    if word.isBare "-empty" then some (.empty arg.argument)
    else if word.isBare "-defined" then some (.defined arg.symbolName)
    else none
  | [lhs, op, rhs] =>
    if op.quoted then none
    else (Comparison.ofText? op.text).map fun c => .compare lhs.argument c rhs.argument
  | _ => none

end Test

namespace Condition

/-- The word that joins two clauses. -/
def joinOf? (t : Token) : Option Join :=
  if t.isBare "and" then some .and else if t.isBare "or" then some .or else none

/-- Whether a token negates the clause it begins. -/
def negates (t : Token) : Bool := t.isBare "!" || t.isBare "not"

/-- The clause that the tokens between two joining words write. -/
def clause? (join : Join) (tokens : List Token) : Option Clause :=
  match tokens with
  | t :: rest =>
    if negates t then (Test.ofTokens? rest).map (⟨join, true, ·⟩)
    else (Test.ofTokens? tokens).map (⟨join, false, ·⟩)
  | [] => none

/-- The clauses of the tokens, of which `held` belong to the clause that
`join` begins. The first clause that is none wins over a missing last one. -/
def clauses (join : Join) (held : List Token) : List Token → Except Problem Condition
  | [] =>
    match clause? join held with
    | some c => .ok [c]
    | none => .error .invalidCondition
  | t :: rest =>
    match joinOf? t with
    | none => clauses join (held ++ [t]) rest
    | some next =>
      match clause? join held with
      | none => .error .invalidCondition
      | some c =>
        if rest.isEmpty then .error .openCondition
        else (clauses next [] rest).map (c :: ·)

/-- The condition that a list of tokens writes. -/
def ofTokens (tokens : List Token) : Except Problem Condition :=
  if tokens.isEmpty then .error .missingCondition else clauses .first [] tokens

end Condition

end Switchboard
