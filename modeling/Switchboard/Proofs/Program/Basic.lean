import Switchboard.Interpreter.Scan
import Switchboard.Script.Statement

/-!
# Switchboard.Proofs.Program.Basic

Structured programs, as trees.

1. A program is a list of phrases.  A phrase is a plain command, a chain of
   guarded bodies, a loop, or a way out of a loop.
2. There are two kinds of chain, which differ in their words only.  After the
   first body there are further arms, of which the last may have no guard.
3. `commands` writes a program as a flat list of commands, the way a header has
   it, and `shapes` puts beside each the depth in loops at which it stands.
-/

namespace Switchboard

/-! ## parts -/

/-- The kinds of chain: `if` … `endif`, and `case` … `endcase`. -/
inductive Chain where
  | branch
  | choice
deriving Repr, DecidableEq

namespace Chain

/-- The command that opens a chain. -/
def opener : Chain → Condition → Command
  | .branch, cond => .branch cond
  | .choice, cond => .choice cond true

/-- The command between two bodies, with the guard of the second. -/
def divider : Chain → Condition → Command
  | .branch, cond => .elseBranch cond
  | .choice, cond => .choice cond false

/-- The command before the body without a guard. -/
def other : Chain → Command
  | .branch => .otherBranch
  | .choice => .otherChoice

/-- The command that closes a chain. -/
def closer : Chain → Command
  | .branch => .endBranch
  | .choice => .endChoice

/-- Whether a chain is one of choices. -/
def isChoice : Chain → Bool
  | .branch => false
  | .choice => true

/-- What a command does to chains of a kind. -/
def role : Chain → Command → Scan.Role
  | .branch => Scan.branchRole
  | .choice => Scan.choiceRole

/-- The guard that a command of a chain puts before its body. -/
def guard : Chain → Command → Option Condition
  | .branch => Scan.branchGuard
  | .choice => Scan.choiceGuard

@[simp] theorem role_divider_self (kind : Chain) (cond : Condition) :
    kind.role (kind.divider cond) = .divides := by
  cases kind <;> rfl

@[simp] theorem role_other_self (kind : Chain) : kind.role kind.other = .divides := by
  cases kind <;> rfl

@[simp] theorem role_closer_self (kind : Chain) : kind.role kind.closer = .closes := by
  cases kind <;> rfl

@[simp] theorem guard_opener (kind : Chain) (cond : Condition) :
    kind.guard (kind.opener cond) = some cond := by
  cases kind <;> rfl

@[simp] theorem guard_divider (kind : Chain) (cond : Condition) :
    kind.guard (kind.divider cond) = some cond := by
  cases kind <;> rfl

@[simp] theorem guard_other (kind : Chain) : kind.guard kind.other = none := by
  cases kind <;> rfl

@[simp] theorem guard_closer (kind : Chain) : kind.guard kind.closer = none := by
  cases kind <;> rfl

end Chain

/-- The first line of a loop. -/
inductive Opener where
  | doLoop
  | whileLoop (cond : Condition)
  | repeatLoop (count : Argument)
  | eachLoop (target : String) (items : Argument) (delimiter : Char)
deriving Repr, DecidableEq

/-- The command that opens a loop. -/
def Opener.command : Opener → Command
  | .doLoop => .doLoop
  | .whileLoop cond => .whileLoop cond
  | .repeatLoop count => .repeatLoop count
  | .eachLoop target items delimiter => .eachLoop target items delimiter

/-- The last line of a loop. -/
inductive Closer where
  | endLoop
  | untilLoop (cond : Condition)
deriving Repr, DecidableEq

/-- The command that closes a loop. -/
def Closer.command : Closer → Command
  | .endLoop => .endLoop
  | .untilLoop cond => .untilLoop cond

/-- Whether a command belongs to no block and leaves none. -/
def Command.isPlain : Command → Bool
  | .set .. | .clear .. | .declare .. | .expr .. | .index .. => true
  | .goto .. | .gosub .. | .invoke .. | .leave | .exit | .raise .. => true
  | .application .. => true
  | _ => false

/-! ## trees -/

mutual

/-- A structured program. -/
inductive Program where
  | nil
  | cons (phrase : Phrase) (rest : Program)

/-- A piece of a program. -/
inductive Phrase where
  | plain (command : Command) (isPlain : command.isPlain = true)
  | chain (kind : Chain) (cond : Condition) (body : Program) (arms : Arms)
  | loop (opener : Opener) (body : Program) (closer : Closer)
  | breakLoop
  | continueLoop

/-- The arms of a chain after its first body. -/
inductive Arms where
  | done
  | other (body : Program)
  | more (cond : Condition) (body : Program) (arms : Arms)

end

/-! ## texts -/

mutual

/-- A program as a flat list of commands. -/
def Program.commands : Program → List Command
  | .nil => []
  | .cons phrase rest => phrase.commands ++ rest.commands

/-- A phrase as a flat list of commands. -/
def Phrase.commands : Phrase → List Command
  | .plain command _ => [command]
  | .chain kind cond body arms => kind.opener cond :: (body.commands ++ arms.commands kind)
  | .loop opener body closer => opener.command :: (body.commands ++ [closer.command])
  | .breakLoop => [.breakLoop]
  | .continueLoop => [.continueLoop]

/-- Arms as a flat list of commands, up to the end of their chain. -/
def Arms.commands (kind : Chain) : Arms → List Command
  | .done => [kind.closer]
  | .other body => kind.other :: (body.commands ++ [kind.closer])
  | .more cond body arms => kind.divider cond :: (body.commands ++ arms.commands kind)

end

mutual

/-- The commands of a program, with their depths. -/
def Program.shapes (depth : Nat) : Program → List (Command × Nat)
  | .nil => []
  | .cons phrase rest => phrase.shapes depth ++ rest.shapes depth

/-- The commands of a phrase, with their depths. -/
def Phrase.shapes (depth : Nat) : Phrase → List (Command × Nat)
  | .plain command _ => [(command, depth)]
  | .chain kind cond body arms =>
    (kind.opener cond, depth) :: (body.shapes depth ++ arms.shapes kind depth)
  | .loop opener body closer =>
    (opener.command, depth) :: (body.shapes (depth + 1) ++ [(closer.command, depth + 1)])
  | .breakLoop => [(.breakLoop, depth)]
  | .continueLoop => [(.continueLoop, depth)]

/-- The commands of arms, with their depths. -/
def Arms.shapes (kind : Chain) (depth : Nat) : Arms → List (Command × Nat)
  | .done => [(kind.closer, depth)]
  | .other body => (kind.other, depth) :: (body.shapes depth ++ [(kind.closer, depth)])
  | .more cond body arms =>
    (kind.divider cond, depth) :: (body.shapes depth ++ arms.shapes kind depth)

end

mutual

/-- How many loops stand inside each other. -/
def Program.loops : Program → Nat
  | .nil => 0
  | .cons phrase rest => max phrase.loops rest.loops

/-- How many loops of a phrase stand inside each other. -/
def Phrase.loops : Phrase → Nat
  | .plain .. | .breakLoop | .continueLoop => 0
  | .chain _ _ body arms => max body.loops arms.loops
  | .loop _ body _ => body.loops + 1

/-- How many loops of some arms stand inside each other. -/
def Arms.loops : Arms → Nat
  | .done => 0
  | .other body => body.loops
  | .more _ body arms => max body.loops arms.loops

end

mutual

/-- The ways out of a loop stand inside one, given whether the program does. -/
def Program.Enclosed (inLoop : Bool) : Program → Prop
  | .nil => True
  | .cons phrase rest => phrase.Enclosed inLoop ∧ rest.Enclosed inLoop

/-- The ways out of a loop in a phrase stand inside one. -/
def Phrase.Enclosed (inLoop : Bool) : Phrase → Prop
  | .plain .. => True
  | .chain _ _ body arms => body.Enclosed inLoop ∧ arms.Enclosed inLoop
  | .loop _ body _ => body.Enclosed true
  | .breakLoop | .continueLoop => inLoop = true

/-- The ways out of a loop in some arms stand inside one. -/
def Arms.Enclosed (inLoop : Bool) : Arms → Prop
  | .done => True
  | .other body => body.Enclosed inLoop
  | .more _ body arms => body.Enclosed inLoop ∧ arms.Enclosed inLoop

end

mutual

/-- No chain of choices stands directly in an arm of another one, given whether the program
does.  A `case` there would go on with the outer chain. -/
def Program.Legible (inChoice : Bool) : Program → Prop
  | .nil => True
  | .cons phrase rest => phrase.Legible inChoice ∧ rest.Legible inChoice

/-- No chain of choices of a phrase stands directly in an arm of another one. -/
def Phrase.Legible (inChoice : Bool) : Phrase → Prop
  | .plain .. | .breakLoop | .continueLoop => True
  | .chain kind _ body arms =>
    (kind = .choice → inChoice = false) ∧ body.Legible kind.isChoice ∧ arms.Legible kind.isChoice
  | .loop _ body _ => body.Legible false

/-- No chain of choices in some arms stands directly in an arm of another one. -/
def Arms.Legible (inChoice : Bool) : Arms → Prop
  | .done => True
  | .other body => body.Legible inChoice
  | .more _ body arms => body.Legible inChoice ∧ arms.Legible inChoice

end

end Switchboard
