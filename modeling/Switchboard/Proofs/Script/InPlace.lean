import Switchboard.Proofs.Script.Section
import Switchboard.Proofs.Script.Wording

/-!
# Switchboard.Proofs.Script.InPlace

Statements that work on the open blocks in place.

1. A reader in place (`Edit`) changes the blocks step by step, and what it has
   changed stays changed where it fails.
2. Each statement in place makes all its checks before its first change. So it
   answers as `Statement.read` does: accepted, it leaves the new blocks, and
   refused, it leaves the blocks as they were (`perform_eq`).
3. So a compiler that keeps whatever blocks a refused statement leaves is the
   compiler that keeps those from before it (`addStatement_eq_addInPlace`).
-/

namespace Switchboard

/-! ## changes in place -/

/-- A reader that changes the open blocks as it goes. It may fail in the middle,
and then leaves what it has changed. -/
abbrev Edit (α : Type) := ExceptT Problem (StateM Nest) α

namespace Edit

/-- The innermost open block. -/
def top : Edit (Option Block) := return (← get).innermost?

/-- Open a block. -/
def push (b : Block) (line : UInt32) : Edit Unit :=
  modify fun n => { n with blocks := (b, line) :: n.blocks }

/-- Close the innermost block. -/
def pop : Edit Unit := modify fun n => { n with blocks := n.blocks.tail }

/-- Set the mark of the innermost block: that it has had its last part. -/
def mark : Edit Unit := modify fun n =>
  match n.blocks with
  | (.branch _, line) :: rest => { n with blocks := (.branch true, line) :: rest }
  | (.choice _, line) :: rest => { n with blocks := (.choice true, line) :: rest }
  | _ => n

/-- Go one loop deeper. -/
def deepen : Edit Unit := modify fun n => { n with depth := (n.depth + 1) % Nest.depthBound }

/-- Come out of a loop. -/
def rise : Edit Unit := modify fun n => { n with depth := n.depth - 1 }

/-- What is done in two parts is done part by part, each on the blocks that the one
before it leaves. -/
theorem run_bind {α β : Type} (x : Edit α) (f : α → Edit β) (nest : Nest) :
    (x >>= f).run.run nest =
      match x.run.run nest with
      | (.ok a, after) => (f a).run.run after
      | (.error p, after) => (.error p, after) := by
  change (match x.run.run nest with | (r, after) => ExceptT.bindCont f r after) = _
  obtain ⟨r | r, after⟩ := x.run.run nest <;> rfl

/-- Looking at the blocks leaves them alone. -/
theorem run_get {β : Type} (f : Nest → Edit β) (nest : Nest) :
    (get >>= f).run.run nest = (f nest).run.run nest := rfl

/-- What a reader in place comes to that makes all its checks before its first
change: the blocks of the answer, or those from before. -/
def settled (nest : Nest) :
    Except Problem (Option (Command × Nest)) → Except Problem (Option Command) × Nest
  | .ok (some (command, after)) => (.ok (some command), after)
  | .ok none => (.ok none, nest)
  | .error p => (.error p, nest)

end Edit

namespace Statement

open Edit

/-! ## statements in place -/

/-- Statements of a branch or a choice, in place. -/
def branchingInPlace (keyword : String) (rest : List Token) (line : UInt32) :
    Edit (Option Command) :=
  match keyword with
  | "if" => do
    let cond ← Condition.ofTokens rest
    push (.branch false) line
    return some (.branch cond)
  | "elif" => do
    match ← top with
    | some (.branch false) => pure ()
    | some (.branch true) => throw (.after keyword "else")
    | _ => throw (.without keyword .branch)
    return some (.elseBranch (← Condition.ofTokens rest))
  | "else" => do
    match ← top with
    | some (.branch false) => mark
    | some (.branch true) => throw (.duplicate keyword)
    | _ => throw (.without keyword .branch)
    return some .otherBranch
  | "endif" => do
    match ← top with
    | some (.branch _) => pop
    | _ => throw (.without keyword .branch)
    return some .endBranch
  | "case" => do
    let cond ← Condition.ofTokens rest
    let first ←
      match ← top with
      | some (.choice true) => throw (.after keyword "otherwise")
      | some (.choice false) => pure false
      | _ => do
        push (.choice false) line
        pure true
    return some (.choice cond first)
  | "otherwise" => do
    match ← top with
    | some (.choice false) => mark
    | some (.choice true) => throw (.duplicate keyword)
    | _ => throw (.without keyword .choice)
    return some .otherChoice
  | "endcase" => do
    match ← top with
    | some (.choice _) => pop
    | _ => throw (.without keyword .choice)
    return some .endChoice
  | _ => return none

/-- The command that begins a loop. -/
def loopHead (keyword : String) (rest : List Token) : Except Problem Command :=
  match keyword with
  | "do" => return .doLoop
  | "while" => return .whileLoop (← Condition.ofTokens rest)
  | "repeat" =>
    match rest with
    | count :: _ => return .repeatLoop count.argument
    | [] => throw .missingCount
  | _ => do
    let name ← target keyword rest
    match rest.tail with
    | [] => throw .missingList
    | items :: others => return .eachLoop name items.argument (← delimiter others.head?)

/-- The command that ends a loop, which may allow `until`. -/
def loopEnd (keyword : String) (rest : List Token) (untilAllowed : Bool) :
    Except Problem Command := do
  if keyword == "until" then
    if !untilAllowed then throw .untilOnlyClosesDo
    return .untilLoop (← Condition.ofTokens rest)
  else return .endLoop

/-- Statements of a loop, in place. -/
def loopingInPlace (keyword : String) (rest : List Token) (line : UInt32) :
    Edit (Option Command) :=
  match keyword with
  | "do" | "while" | "repeat" | "foreach" => do
    let command ← loopHead keyword rest
    push (.loop (keyword == "do")) line
    deepen
    return some command
  | "loop" | "until" => do
    let untilAllowed ←
      match ← top with
      | some (.loop untilAllowed) => pure untilAllowed
      | _ => throw (.without keyword .loop)
    let command ← loopEnd keyword rest untilAllowed
    pop
    rise
    return some command
  | "break" | "continue" => do
    if !(← get).inLoop then throw (.outsideLoop keyword)
    return some (if keyword == "break" then .breakLoop else .continueLoop)
  | _ => return none

/-- Read a statement in place, into a line with the depth from before it. -/
def perform (commands : Commands) (line : UInt32) (tokens : List Token) : Edit Line :=
  match tokens with
  | [] => throw .emptyStatement
  | first :: rest => do
    if first.quoted then throw (.quotedCommand first.text)
    let keyword := first.text
    let depth := (← get).depth
    if let some command ← simple keyword rest then
      return ⟨command, depth, 0, line⟩
    if let some command ← branchingInPlace keyword rest line then
      return ⟨command, depth, 0, line⟩
    if let some command ← loopingInPlace keyword rest line then
      return ⟨command, depth, 0, line⟩
    match commands.mask? keyword with
    | some mask => return ⟨.application keyword (arguments rest), depth, mask, line⟩
    | none => throw (.unknownCommand keyword)

/-- One case for each keyword, and in each one case for each innermost block. -/
theorem branchingInPlace_eq (keyword : String) (rest : List Token) (nest : Nest) (line : UInt32) :
    (branchingInPlace keyword rest line).run.run nest =
      settled nest (branching keyword rest nest line) := by
  obtain ⟨blocks, depth⟩ := nest
  unfold branchingInPlace
  split
  case h_1 =>
    rw [branching]
    cases Condition.ofTokens rest <;> rfl
  case h_2 =>
    obtain _ | ⟨⟨block, opener⟩, outer⟩ := blocks
    · rfl
    · cases block with
      | choice | loop => rfl
      | branch hasElse =>
          cases hasElse with
          | true => rfl
          | false =>
              rw [branching]
              dsimp only [Nest.innermost?, List.head?, Option.map]
              cases Condition.ofTokens rest <;> rfl
  case h_5 =>
    rw [branching]
    cases Condition.ofTokens rest with
    | error p => rfl
    | ok cond =>
        obtain _ | ⟨⟨block, opener⟩, outer⟩ := blocks
        · rfl
        · cases block with
          | branch | loop => rfl
          | choice hasOtherwise => cases hasOtherwise <;> rfl
  case h_3 | h_4 | h_6 | h_7 =>
    obtain _ | ⟨⟨block, opener⟩, outer⟩ := blocks
    · rfl
    · cases block with
      | loop => rfl
      | branch last | choice last => cases last <;> rfl
  case h_8 =>
    rw [branching_eq_none.2 (by simp_all [branchingWords])]
    rfl

theorem loopingInPlace_eq (keyword : String) (rest : List Token) (nest : Nest) (line : UInt32) :
    (loopingInPlace keyword rest line).run.run nest =
      settled nest (looping keyword rest nest line) := by
  unfold loopingInPlace
  split
  case h_1 => rfl
  case h_2 =>
    rw [looping, loopHead]
    cases Condition.ofTokens rest <;> rfl
  case h_3 => cases rest <;> rfl
  case h_4 =>
    rw [looping, loopHead]
    · cases target "foreach" rest with
      | error p => rfl
      | ok name =>
          cases rest.tail with
          | nil => rfl
          | cons items others =>
              dsimp only [bind, Except.bind]
              cases delimiter others.head? <;> rfl
    all_goals decide
  case h_5 =>
    obtain ⟨_ | ⟨⟨block, opener⟩, outer⟩, depth⟩ := nest
    · rfl
    · cases block <;> rfl
  case h_6 =>
    obtain ⟨_ | ⟨⟨block, opener⟩, outer⟩, depth⟩ := nest
    · rfl
    · cases block with
      | branch | choice => rfl
      | loop untilAllowed =>
          cases untilAllowed with
          | false => rfl
          | true =>
              rw [looping]
              unfold loopEnd
              dsimp only [Nest.innermost?, List.head?, Option.map]
              cases Condition.ofTokens rest <;> rfl
  case h_7 | h_8 =>
    rw [looping, run_get]
    cases nest.inLoop <;> rfl
  case h_9 =>
    rw [looping_eq_none.2 (by simp_all [loopingWords])]
    rfl

/-- What reading a statement in place comes to: the line and the blocks of the
answer, or the problem and the blocks from before. -/
def answered (nest : Nest) (line : UInt32) :
    Except Problem Accepted → Except Problem Line × Nest
  | .ok a => (.ok ⟨a.command, nest.depth, a.mask, line⟩, a.nest)
  | .error p => (.error p, nest)

/-- Where one reader does not know the statement, the next one reads it in the
same blocks. -/
theorem answered_orElse {x : Edit (Option Command)}
    {r : Except Problem (Option (Command × Nest))} {next : Edit Line}
    {other : Except Problem Accepted} {nest : Nest} {line : UInt32}
    (hfirst : x.run.run nest = settled nest r)
    (hsecond : next.run.run nest = answered nest line other) :
    (do
      if let some command ← x then
        return ⟨command, nest.depth, 0, line⟩
      next : Edit Line).run.run nest =
      answered nest line (do
        if let some (command, after) ← r then
          return ⟨command, 0, after⟩
        other) := by
  rw [run_bind, hfirst]
  match r with
  | .error p => rfl
  | .ok (some (command, after)) => rfl
  | .ok none => exact hsecond

/-- A statement in place answers as the one that is read, and leaves other blocks
only where it is accepted. -/
theorem perform_eq (commands : Commands) (nest : Nest) (line : UInt32) (tokens : List Token) :
    (perform commands line tokens).run.run nest =
      answered nest line (read commands nest line tokens) := by
  match tokens with
  | [] => rfl
  | first :: rest =>
    unfold perform read
    dsimp only
    cases first.quoted with
    | true => rfl
    | false =>
        match simple first.text rest with
        | .error p => rfl
        | .ok (some command) => rfl
        | .ok none =>
          have hbranches := branchingInPlace_eq first.text rest nest line
          have hloops := loopingInPlace_eq first.text rest nest line
          refine answered_orElse hbranches (answered_orElse hloops ?_)
          cases commands.mask? first.text <;> rfl

theorem perform_error_iff {commands : Commands} {nest : Nest} {line : UInt32} {tokens : List Token}
    {p : Problem} :
    ((perform commands line tokens).run.run nest).1 = .error p ↔
      read commands nest line tokens = .error p := by
  rw [perform_eq]
  cases read commands nest line tokens <;> simp [answered]

end Statement

namespace Compiler

/-! ## the compiler in place -/

/-- Read a statement into the current header in place. Whatever blocks a refused
one leaves are those of the lines after it. -/
def addInPlace (commands : Commands) (d : Draft) (s : Section) (file : String) (line : UInt32)
    (text : List Char) : Draft :=
  match Token.tokenize text with
  | .error p => d.report file line p
  | .ok tokens =>
    match (Statement.perform commands line tokens).run.run s.nest with
    | (.error p, nest) => { d.report file line p with current := some { s with nest } }
    | (.ok l, nest) =>
      let indent := String.ofList (List.replicate (2 * l.depth) ' ')
      { d.list line (indent ++ String.ofList text) with
        current := some { header := s.header.push l, nest } }

theorem addStatement_eq_addInPlace (commands : Commands) {d : Draft} {s : Section}
    (hs : d.current = some s) (file : String) (line : UInt32) (text : List Char) :
    addStatement commands d s file line text = addInPlace commands d s file line text := by
  unfold addStatement addInPlace
  cases Token.tokenize text with
  | error p => rfl
  | ok tokens =>
      dsimp only [bind, Except.bind]
      rw [Statement.perform_eq]
      cases Statement.read commands s.nest line tokens with
      | error p =>
          change d.report file line p = { d.report file line p with current := some s }
          rw [← hs]
          rfl
      | ok a => rfl

end Compiler

end Switchboard
