import Switchboard.Script.Condition
import Switchboard.Script.Image

/-!
# Switchboard.Script.Statement

Reading one statement inside the blocks that are open around it.

1. `if` … `endif`, `case` … `endcase` and the loops are blocks. A statement
   that opens, divides or closes a block must find the right one innermost.
2. A `case` directly in a `case` block continues it, so that only another
   block between them lets one open inside the other.
3. A refused statement leaves the open blocks as they were.
4. The first line of a loop counts as outside the loop, its last line as inside.
-/

namespace Switchboard

/-! ## open blocks -/

/-- A block that is not closed yet. -/
inductive Block where
  | branch (hasElse : Bool)
  | choice (hasOtherwise : Bool)
  | loop (untilAllowed : Bool)
deriving Repr, DecidableEq

/-- The kind of a block. -/
def Block.kind : Block → BlockKind
  | .branch _ => .branch
  | .choice _ => .choice
  | .loop _ => .loop

/-- The open blocks, innermost first, each with the number of the line that
opened it; and the depth in loops, which wraps at its bound. -/
structure Nest where
  blocks : List (Block × UInt32)
  depth : Nat
deriving Repr, DecidableEq

namespace Nest

/-- No open block. -/
def empty : Nest := ⟨[], 0⟩

/-- The number of depths that are told apart. -/
def depthBound : Nat := 65536

/-- The innermost open block. -/
def innermost? (n : Nest) : Option Block := n.blocks.head?.map (·.1)

/-- Open a block that is no loop. -/
def enter (n : Nest) (b : Block) (line : UInt32) : Nest :=
  { n with blocks := (b, line) :: n.blocks }

/-- Open a loop. -/
def enterLoop (n : Nest) (untilAllowed : Bool) (line : UInt32) : Nest :=
  ⟨(.loop untilAllowed, line) :: n.blocks, (n.depth + 1) % depthBound⟩

/-- Close the innermost block, which is no loop. -/
def close (n : Nest) : Nest := { n with blocks := n.blocks.tail }

/-- Close the innermost block, which is a loop. -/
def closeLoop (n : Nest) : Nest := ⟨n.blocks.tail, n.depth - 1⟩

/-- Put another state of the same block in place of the innermost one. -/
def become (n : Nest) (b : Block) : Nest :=
  match n.blocks with
  | (_, line) :: rest => { n with blocks := (b, line) :: rest }
  | [] => n

/-- Whether some open block is a loop. -/
def inLoop (n : Nest) : Bool := n.blocks.any (·.1.kind == .loop)

end Nest

/-! ## application commands -/

/-- The commands an application adds to the language, and what each needs. -/
abbrev Commands := List (String × Mask)

/-- Add a command, in place of one of the same name. The words of the
language itself are not available. -/
def Commands.register (commands : Commands) (name : String) (mask : Mask) : Commands :=
  if keywords.contains name then commands
  else (name, mask) :: commands.filter (·.1 != name)

/-- What a command needs, if there is one of this name. -/
def Commands.mask? (commands : Commands) (name : String) : Option Mask := commands.lookup name

/-! ## statements -/

namespace Statement

/-- A statement that was read: its command, what it needs, and the blocks
that are open after it. -/
structure Accepted where
  command : Command
  mask : Mask
  nest : Nest
deriving Repr, DecidableEq

/-- The arguments that tokens stand for. -/
def arguments (tokens : List Token) : List Argument := tokens.map Token.argument

/-- The symbol that the first token names. -/
def target (command : String) : List Token → Except Problem String
  | t :: _ => if t.quoted then .error (.missingTarget command) else .ok t.symbolName
  | [] => .error (.missingTarget command)

/-- The size and the values in the arguments of `var`. The last size counts. -/
def sized (size : Option Nat) : List Argument → Except Problem (Option Nat × List Argument)
  | [] => .ok (size, [])
  | arg :: rest =>
    match arg with
    | .keyword "size" value =>
      match value with
      | .literal text =>
        match Text.readNat (Text.wordBound 64) text.toList with
        | some n => sized (some n) rest
        | none => .error (.invalidSize text)
      | _ => .error .sizeNotNumber
    | _ => (sized size rest).map fun (n, values) => (n, arg :: values)

/-- The named arguments of `invoke`. -/
def bindings : List Token → Except Problem (List (String × Argument))
  | [] => .ok []
  | t :: rest =>
    match t.argument with
    | .keyword name value => (bindings rest).map ((name, value) :: ·)
    | _ => .error (.unnamedArgument t.text)

/-- The character between the pieces of a list: a comma unless one is given. -/
def delimiter : Option Token → Except Problem Char
  | none => .ok ','
  | some t =>
    match t.text.toList with
    | [c] => .ok c
    | _ => .error .invalidDelimiter

/-- Statements that leave the blocks alone. -/
def simple (keyword : String) (rest : List Token) : Except Problem (Option Command) :=
  match keyword with
  | "set" => do
    let name ← target keyword rest
    return some (.set name (arguments rest.tail))
  | "clear" =>
    if rest.isEmpty then .error .nothingToClear
    else .ok (some (.clear (rest.map Token.symbolName)))
  | "var" => do
    let name ← target keyword rest
    let (size, values) ← sized none (arguments rest.tail)
    return some (.declare name size values)
  | "expr" => do
    let name ← target keyword rest
    match rest with
    | _ :: op :: expression =>
      match if op.quoted then none else Decimal.Assignment.ofText? op.text with
      | none => .error .missingOperator
      | some assignment =>
        if expression.isEmpty then .error (.missingExpression keyword)
        else .ok (some (.expr name assignment (arguments expression)))
    | _ => .error .missingOperator
  | "index" => do
    let name ← target keyword rest
    let expression := match rest.tail with
      | t :: others => if t.isBare "=" then others else t :: others
      | [] => []
    if expression.isEmpty then .error (.missingExpression keyword)
    else .ok (some (.index name (arguments expression)))
  | "goto" =>
    if rest.isEmpty then .error (.missingDestination keyword)
    else .ok (some (.goto (arguments rest)))
  | "gosub" =>
    if rest.isEmpty then .error (.missingDestination keyword)
    else .ok (some (.gosub (arguments rest)))
  | "invoke" =>
    match rest with
    | t :: args =>
      if t.quoted then .error .missingSubroutine
      else (bindings args).map fun bound => some (.invoke (Header.bare t.text) bound)
    | [] => .error .missingSubroutine
  | "return" => .ok (some .leave)
  | "exit" => .ok (some .exit)
  | "error" => .ok (some (.raise (arguments rest)))
  | _ => .ok none

/-- Statements that open, divide or close a branch or a choice. -/
def branching (keyword : String) (rest : List Token) (nest : Nest) (line : UInt32) :
    Except Problem (Option (Command × Nest)) :=
  match keyword with
  | "if" => do
    let cond ← Condition.ofTokens rest
    return some (.branch cond, nest.enter (.branch false) line)
  | "elif" =>
    match nest.innermost? with
    | some (.branch false) => do
      let cond ← Condition.ofTokens rest
      return some (.elseBranch cond, nest)
    | some (.branch true) => .error (.after keyword "else")
    | _ => .error (.without keyword .branch)
  | "else" =>
    match nest.innermost? with
    | some (.branch false) => .ok (some (.otherBranch, nest.become (.branch true)))
    | some (.branch true) => .error (.duplicate keyword)
    | _ => .error (.without keyword .branch)
  | "endif" =>
    match nest.innermost? with
    | some (.branch _) => .ok (some (.endBranch, nest.close))
    | _ => .error (.without keyword .branch)
  | "case" => do
    let cond ← Condition.ofTokens rest
    match nest.innermost? with
    | some (.choice true) => .error (.after keyword "otherwise")
    | some (.choice false) => .ok (some (.choice cond false, nest))
    | _ => .ok (some (.choice cond true, nest.enter (.choice false) line))
  | "otherwise" =>
    match nest.innermost? with
    | some (.choice false) => .ok (some (.otherChoice, nest.become (.choice true)))
    | some (.choice true) => .error (.duplicate keyword)
    | _ => .error (.without keyword .choice)
  | "endcase" =>
    match nest.innermost? with
    | some (.choice _) => .ok (some (.endChoice, nest.close))
    | _ => .error (.without keyword .choice)
  | _ => .ok none

/-- Statements that open, close or leave a loop. -/
def looping (keyword : String) (rest : List Token) (nest : Nest) (line : UInt32) :
    Except Problem (Option (Command × Nest)) :=
  match keyword with
  | "do" => .ok (some (.doLoop, nest.enterLoop true line))
  | "while" => do
    let cond ← Condition.ofTokens rest
    return some (.whileLoop cond, nest.enterLoop false line)
  | "repeat" =>
    match rest with
    | count :: _ => .ok (some (.repeatLoop count.argument, nest.enterLoop false line))
    | [] => .error .missingCount
  | "foreach" => do
    let name ← target keyword rest
    match rest.tail with
    | [] => .error .missingList
    | items :: others =>
      let c ← delimiter others.head?
      return some (.eachLoop name items.argument c, nest.enterLoop false line)
  | "loop" =>
    match nest.innermost? with
    | some (.loop _) => .ok (some (.endLoop, nest.closeLoop))
    | _ => .error (.without keyword .loop)
  | "until" =>
    match nest.innermost? with
    | some (.loop true) => do
      let cond ← Condition.ofTokens rest
      return some (.untilLoop cond, nest.closeLoop)
    | some (.loop false) => .error .untilOnlyClosesDo
    | _ => .error (.without keyword .loop)
  | "break" => if nest.inLoop then .ok (some (.breakLoop, nest)) else .error (.outsideLoop keyword)
  | "continue" =>
    if nest.inLoop then .ok (some (.continueLoop, nest)) else .error (.outsideLoop keyword)
  | _ => .ok none

/-- Read a statement. A word that the language does not know must be a
command of the application. -/
def read (commands : Commands) (nest : Nest) (line : UInt32) (tokens : List Token) :
    Except Problem Accepted :=
  match tokens with
  | [] => .error .emptyStatement
  | first :: rest => do
    if first.quoted then throw (.quotedCommand first.text)
    let keyword := first.text
    if let some command ← simple keyword rest then
      return ⟨command, 0, nest⟩
    if let some (command, after) ← branching keyword rest nest line then
      return ⟨command, 0, after⟩
    if let some (command, after) ← looping keyword rest nest line then
      return ⟨command, 0, after⟩
    match commands.mask? keyword with
    | some mask => return ⟨.application keyword (arguments rest), mask, nest⟩
    | none => throw (.unknownCommand keyword)

end Statement

end Switchboard
