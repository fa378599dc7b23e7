import Switchboard.Decimal.Expression
import Switchboard.Script.Argument

/-!
# Switchboard.Script.Command

The statements of the script language.

1. A condition is a chain of tests, each joined to the result so far by
   `and` or `or`; there is no precedence between the two.
2. A command is one statement with the parts its kind needs. Commands that
   the language does not know itself are handed to an application.
3. A line adds to a command its depth in loops, the resources it needs and
   its number in the source.
-/

namespace Switchboard

/-! ## conditions -/

/-- The numeric relations a test can ask for. -/
inductive Relation where
  | eq | ne | lt | le | gt | ge
deriving Repr, DecidableEq

/-- Whether two numbers in the given order stand in the relation. -/
def Relation.holds : Relation → Ordering → Bool
  | .eq, o => o == .eq
  | .ne, o => o != .eq
  | .lt, o => o == .lt
  | .le, o => o != .gt
  | .gt, o => o == .gt
  | .ge, o => o != .lt

/-- Comparisons: of numbers by a relation, or of texts for being `same`. -/
inductive Comparison where
  | numeric (relation : Relation)
  | textual (same : Bool)
deriving Repr, DecidableEq

/-- The comparison that a word stands for. -/
def Comparison.ofText? : String → Option Comparison
  | "-eq" => some (.numeric .eq)
  | "-ne" => some (.numeric .ne)
  | "-lt" => some (.numeric .lt)
  | "-le" => some (.numeric .le)
  | "-gt" => some (.numeric .gt)
  | "-ge" => some (.numeric .ge)
  | "==" => some (.textual true)
  | "!=" => some (.textual false)
  | _ => none

/-- The word for a comparison. -/
def Comparison.text : Comparison → String
  | .numeric .eq => "-eq"
  | .numeric .ne => "-ne"
  | .numeric .lt => "-lt"
  | .numeric .le => "-le"
  | .numeric .gt => "-gt"
  | .numeric .ge => "-ge"
  | .textual true => "=="
  | .textual false => "!="

/-- How a clause joins the clauses before it. -/
inductive Join where
  | first | and | or
deriving Repr, DecidableEq

/-- A single test. -/
inductive Test where
  | compare (lhs : Argument) (op : Comparison) (rhs : Argument)
  | empty (arg : Argument)
  | defined (name : String)
  | value (arg : Argument)
deriving Repr, DecidableEq

/-- A test, perhaps negated, and how it joins the ones before it. -/
structure Clause where
  join : Join
  negate : Bool
  test : Test
deriving Repr, DecidableEq

/-- A chain of clauses, read from left to right. -/
abbrev Condition := List Clause

/-- The result after one more clause. -/
def Join.apply : Join → Bool → Bool → Bool
  | .first, _, value => value
  | .and, result, value => result && value
  | .or, result, value => result || value

/-! ## commands -/

/-- One statement. -/
inductive Command where
  | set (target : String) (values : List Argument)
  | clear (targets : List String)
  | declare (name : String) (size : Option Nat) (values : List Argument)
  | expr (target : String) (op : Decimal.Assignment) (expression : List Argument)
  | index (target : String) (expression : List Argument)
  | branch (cond : Condition)
  | elseBranch (cond : Condition)
  | otherBranch
  | endBranch
  | choice (cond : Condition) (opens : Bool)
  | otherChoice
  | endChoice
  | doLoop
  | whileLoop (cond : Condition)
  | repeatLoop (count : Argument)
  | eachLoop (target : String) (list : Argument) (delimiter : Char)
  | endLoop
  | untilLoop (cond : Condition)
  | breakLoop
  | continueLoop
  | goto (targets : List Argument)
  | gosub (targets : List Argument)
  | invoke (target : String) (args : List (String × Argument))
  | leave
  | exit
  | raise (message : List Argument)
  | application (name : String) (args : List Argument)
deriving Repr, DecidableEq

/-- The word that begins a statement. -/
def Command.keyword : Command → String
  | .set .. => "set"
  | .clear .. => "clear"
  | .declare .. => "var"
  | .expr .. => "expr"
  | .index .. => "index"
  | .branch .. => "if"
  | .elseBranch .. => "elif"
  | .otherBranch => "else"
  | .endBranch => "endif"
  | .choice .. => "case"
  | .otherChoice => "otherwise"
  | .endChoice => "endcase"
  | .doLoop => "do"
  | .whileLoop .. => "while"
  | .repeatLoop .. => "repeat"
  | .eachLoop .. => "foreach"
  | .endLoop => "loop"
  | .untilLoop .. => "until"
  | .breakLoop => "break"
  | .continueLoop => "continue"
  | .goto .. => "goto"
  | .gosub .. => "gosub"
  | .invoke .. => "invoke"
  | .leave => "return"
  | .exit => "exit"
  | .raise .. => "error"
  | .application name _ => name

/-- The words that begin statements of the language itself. -/
def keywords : List String :=
  ["set", "clear", "var", "expr", "index", "if", "elif", "else", "endif", "case", "otherwise",
    "endcase", "do", "while", "repeat", "foreach", "loop", "until", "break", "continue", "goto",
    "gosub", "invoke", "return", "exit", "error"]

/-! ## lines -/

/-- A set of resources, one bit each. -/
abbrev Mask := UInt64

/-- A compiled statement. `depth` counts the loops around it; the body of a
loop and its last line are one deeper than its first line. -/
structure Line where
  command : Command
  depth : Nat
  mask : Mask
  number : UInt32
deriving Repr, DecidableEq

end Switchboard
