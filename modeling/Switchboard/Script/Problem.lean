/-!
# Switchboard.Script.Problem

Remarks of the compiler. A `Problem` says what is wrong with one line of a
source; a `Diagnostic` adds the file and the number of the line.
-/

namespace Switchboard

/-- The kinds of block that a statement can open. -/
inductive BlockKind where
  | branch | choice | loop
deriving Repr, DecidableEq

/-- The word by which remarks call a block. -/
def BlockKind.word : BlockKind → String
  | .branch => "if"
  | .choice => "case"
  | .loop => "loop"

/-- What is wrong with a line. -/
inductive Problem where
  | invalidHeader (name : String)
  | duplicateHeader (name : String)
  | outsideHeader
  | eventInBlock (event : String) (block : BlockKind)
  | unterminated (block : BlockKind)
  | unterminatedString
  | emptyStatement
  | quotedCommand (text : String)
  | unknownCommand (name : String)
  | missingTarget (command : String)
  | nothingToClear
  | sizeNotNumber
  | invalidSize (text : String)
  | missingOperator
  | missingExpression (command : String)
  | missingCondition
  | invalidCondition
  | openCondition
  | without (word : String) (block : BlockKind)
  | after (word earlier : String)
  | duplicate (word : String)
  | untilOnlyClosesDo
  | outsideLoop (word : String)
  | missingCount
  | missingList
  | invalidDelimiter
  | missingDestination (command : String)
  | missingSubroutine
  | unnamedArgument (text : String)
deriving Repr, DecidableEq

/-- The remark in words. -/
def Problem.message : Problem → String
  | .invalidHeader name => s!"invalid header name '{name}'"
  | .duplicateHeader name => s!"duplicate header @{name}"
  | .outsideHeader => "statement outside of a header"
  | .eventInBlock event block => s!"event ^{event} inside open {block.word} block"
  | .unterminated block => s!"unterminated {block.word} block"
  | .unterminatedString => "unterminated string"
  | .emptyStatement => "empty statement"
  | .quotedCommand text => s!"expected command, found \"{text}\""
  | .unknownCommand name => s!"unknown command '{name}'"
  | .missingTarget command => s!"{command} requires a target symbol"
  | .nothingToClear => "clear requires at least one symbol"
  | .sizeNotNumber => "size must be a number"
  | .invalidSize text => s!"invalid size '{text}'"
  | .missingOperator => "expr requires an assignment operator"
  | .missingExpression command => s!"{command} requires an expression"
  | .missingCondition => "missing condition"
  | .invalidCondition => "invalid condition"
  | .openCondition => "condition ends with a conjunction"
  | .without word block => s!"{word} without {block.word}"
  | .after word earlier => s!"{word} after {earlier}"
  | .duplicate word => s!"duplicate {word}"
  | .untilOnlyClosesDo => "until only closes a do loop"
  | .outsideLoop word => s!"{word} outside of loop"
  | .missingCount => "repeat requires a count"
  | .missingList => "foreach requires a list"
  | .invalidDelimiter => "foreach delimiter must be one character"
  | .missingDestination command => s!"{command} requires a destination"
  | .missingSubroutine => "invoke requires a subroutine"
  | .unnamedArgument text => s!"invoke argument '{text}' must be name=value"

/-- A problem on one line of a source file. -/
structure Diagnostic where
  file : String
  line : UInt32
  problem : Problem
deriving Repr, DecidableEq

/-- The remark with its place in front. -/
def Diagnostic.text (d : Diagnostic) : String := s!"{d.file}:{d.line}: {d.problem.message}"

end Switchboard
