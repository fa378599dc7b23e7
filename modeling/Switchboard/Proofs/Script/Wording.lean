import Switchboard.Proofs.Script.Grammar
import Switchboard.Proofs.Script.Nesting

/-!
# Switchboard.Proofs.Script.Wording

Statements as words of the grammar of blocks.

1. The first word of a statement says what the statement is to the blocks
   around it.
2. A statement that is accepted inside some blocks is accepted wherever its word
   may stand, and then its command, the blocks after it and the depth after it
   are those of the word; anywhere else it is refused for the blocks around it
   (`read_fits`).
-/

namespace Switchboard

/-! ## words -/

/-- The word of a statement that begins with a keyword. -/
def Grammar.Word.ofKeyword : String → Grammar.Word
  | "if" => .branch
  | "elif" => .elseBranch
  | "else" => .otherBranch
  | "endif" => .endBranch
  | "case" => .choice
  | "otherwise" => .otherChoice
  | "endcase" => .endChoice
  | "do" => .doLoop
  | "while" | "repeat" | "foreach" => .loop
  | "loop" => .endLoop
  | "until" => .untilLoop
  | "break" | "continue" => .leave
  | _ => .plain

/-- The word of a command. -/
def Command.word : Command → Grammar.Word
  | .branch _ => .branch
  | .elseBranch _ => .elseBranch
  | .otherBranch => .otherBranch
  | .endBranch => .endBranch
  | .choice .. => .choice
  | .otherChoice => .otherChoice
  | .endChoice => .endChoice
  | .doLoop => .doLoop
  | .whileLoop _ | .repeatLoop _ | .eachLoop .. => .loop
  | .endLoop => .endLoop
  | .untilLoop _ => .untilLoop
  | .breakLoop | .continueLoop => .leave
  | _ => .plain

/-- Whether a command is marked as the first of its choice. -/
def Command.opensChoice : Command → Bool
  | .choice _ first => first
  | _ => false

/-- A line with its notes. -/
def Line.mark (l : Line) : Grammar.Mark := ⟨l.command.word, l.depth, l.command.opensChoice⟩

/-- Problems with the blocks around a line. -/
def Problem.isBlock : Problem → Bool
  | .eventInBlock .. | .unterminated _ | .without .. | .after .. | .duplicate _ => true
  | .untilOnlyClosesDo | .outsideLoop _ => true
  | _ => false

/-- The open blocks without their lines. -/
def Nest.opened (n : Nest) : List Block := n.blocks.map (·.1)

/-- The depth in loops after a word. -/
def Grammar.Word.depthAfter (depth : Nat) : Grammar.Word → Nat
  | .doLoop | .loop => (depth + 1) % Nest.depthBound
  | .endLoop | .untilLoop => depth - 1
  | _ => depth

open Grammar

theorem Nest.inLoop_iff (n : Nest) : n.inLoop = true ↔ 0 < loops n.opened := by
  simp [Nest.inLoop, loops, Nest.opened, List.countP_pos_iff]

namespace Statement

/-- A statement that is read as a word is accepted where the word may stand, and
refused for the blocks around it elsewhere. -/
def Fits (nest : Nest) (w : Word) (r : Except Problem (Option (Command × Nest))) : Prop :=
  match step? nest.opened w with
  | some blocks =>
    ∃ command after, r = .ok (some (command, after)) ∧ after.opened = blocks ∧
      after.depth = w.depthAfter nest.depth ∧ command.word = w ∧
      command.opensChoice = (mark nest.opened w).opens
  | none => ∃ p, r = .error p ∧ p.isBlock = true

theorem Fits.accepted {nest : Nest} {w : Word} {r : Except Problem (Option (Command × Nest))}
    {blocks : List Block} (command : Command) (after : Nest)
    (hs : step? nest.opened w = some blocks) (hr : r = .ok (some (command, after)))
    (hb : after.opened = blocks)
    (hd : after.depth = w.depthAfter nest.depth) (hw : command.word = w)
    (ho : command.opensChoice = (mark nest.opened w).opens) : Fits nest w r := by
  rw [Fits, hs]
  exact ⟨command, after, hr, hb, hd, hw, ho⟩

theorem Fits.refused {nest : Nest} {w : Word} {r : Except Problem (Option (Command × Nest))}
    {p : Problem} (hs : step? nest.opened w = none) (hr : r = .error p) (hp : p.isBlock = true) :
    Fits nest w r := by
  rw [Fits, hs]
  exact ⟨p, hr, hp⟩

/-- One case for each keyword, and in each one case for each innermost block. -/
theorem branching_fits {keyword : String} {rest : List Token} {nest₀ : Nest} {line₀ : UInt32}
    {r : Command × Nest} (h : branching keyword rest nest₀ line₀ = .ok (some r)) (nest : Nest)
    (line : UInt32) : Fits nest (Word.ofKeyword keyword) (branching keyword rest nest line) := by
  obtain ⟨_, _⟩ := r
  obtain ⟨blocks, depth⟩ := nest
  -- a `case` is read alike whether it opened a chain or went on with one
  have hchoice {cond : Condition} (hc : Condition.ofTokens rest = .ok cond) :
      Fits ⟨blocks, depth⟩ .choice (branching "case" rest ⟨blocks, depth⟩ line) := by
    match blocks with
    | (.choice true, _) :: _ => exact .refused rfl (by rw [branching, hc]; rfl) rfl
    | (.choice false, _) :: _ =>
        exact .accepted (.choice cond false) _ rfl (by rw [branching, hc]; rfl) rfl rfl rfl rfl
    | [] | (.branch _, _) :: _ | (.loop _, _) :: _ =>
        exact .accepted (.choice cond true) (Nest.enter ⟨_, depth⟩ (.choice false) line) rfl
          (by rw [branching, hc]; rfl) rfl rfl rfl rfl
  cases branches_of_some h with
  | @branch cond hc =>
      exact .accepted (.branch cond) (Nest.enter ⟨blocks, depth⟩ (.branch false) line) rfl
        (by rw [branching, hc]; rfl) rfl rfl rfl rfl
  | @elseBranch cond _ hc =>
      match blocks with
      | (.branch false, _) :: _ =>
          exact .accepted (.elseBranch cond) _ rfl (by rw [branching, hc]; rfl) rfl rfl rfl rfl
      | [] | (.branch true, _) :: _ | (.choice _, _) :: _ | (.loop _, _) :: _ =>
          exact .refused rfl rfl rfl
  | otherBranch _ =>
      match blocks with
      | (.branch false, _) :: _ => exact .accepted _ _ rfl rfl rfl rfl rfl rfl
      | [] | (.branch true, _) :: _ | (.choice _, _) :: _ | (.loop _, _) :: _ =>
          exact .refused rfl rfl rfl
  | endBranch _ =>
      match blocks with
      | (.branch _, _) :: _ => exact .accepted _ _ rfl rfl rfl rfl rfl rfl
      | [] | (.choice _, _) :: _ | (.loop _, _) :: _ => exact .refused rfl rfl rfl
  | nextChoice _ hc => exact hchoice hc
  | choice _ hc => exact hchoice hc
  | otherChoice _ =>
      match blocks with
      | (.choice false, _) :: _ => exact .accepted _ _ rfl rfl rfl rfl rfl rfl
      | [] | (.choice true, _) :: _ | (.branch _, _) :: _ | (.loop _, _) :: _ =>
          exact .refused rfl rfl rfl
  | endChoice _ =>
      match blocks with
      | (.choice _, _) :: _ => exact .accepted _ _ rfl rfl rfl rfl rfl rfl
      | [] | (.branch _, _) :: _ | (.loop _, _) :: _ => exact .refused rfl rfl rfl

/-- The ways out of a loop stand inside one. -/
theorem fits_leave {nest : Nest} {command : Command} {p : Problem} (hw : command.word = .leave)
    (ho : command.opensChoice = false) (hp : p.isBlock = true) :
    Fits nest .leave (if nest.inLoop then .ok (some (command, nest)) else .error p) := by
  by_cases hinside : nest.inLoop = true
  · exact .accepted command nest (if_pos (nest.inLoop_iff.mp hinside)) (if_pos hinside) rfl rfl
      hw ho
  · exact .refused (if_neg fun hloops => hinside (nest.inLoop_iff.mpr hloops)) (if_neg hinside) hp

theorem looping_fits {keyword : String} {rest : List Token} {nest₀ : Nest} {line₀ : UInt32}
    {r : Command × Nest} (h : looping keyword rest nest₀ line₀ = .ok (some r)) (nest : Nest)
    (line : UInt32) : Fits nest (Word.ofKeyword keyword) (looping keyword rest nest line) := by
  obtain ⟨_, _⟩ := r
  cases loops_of_some h with
  | doLoop => exact .accepted _ _ rfl rfl rfl rfl rfl rfl
  | @whileLoop cond hc =>
      exact .accepted (.whileLoop cond) (nest.enterLoop false line) rfl
        (by rw [looping, hc]; rfl) rfl rfl rfl rfl
  | repeatLoop hrest =>
      subst hrest
      exact .accepted _ _ rfl rfl rfl rfl rfl rfl
  | @eachLoop name items _ c hn hr hc =>
      refine .accepted (.eachLoop name items.argument c) (nest.enterLoop false line) rfl ?_
        rfl rfl rfl rfl
      rw [looping, hn, hr]
      simp only [bind, Except.bind, hc]
      rfl
  | endLoop _ =>
      obtain ⟨blocks, depth⟩ := nest
      match blocks with
      | (.loop _, _) :: _ => exact .accepted _ _ rfl rfl rfl rfl rfl rfl
      | [] | (.branch _, _) :: _ | (.choice _, _) :: _ => exact .refused rfl rfl rfl
  | @untilLoop cond _ hc =>
      obtain ⟨blocks, depth⟩ := nest
      match blocks with
      | (.loop true, l) :: outer =>
          exact .accepted (.untilLoop cond) (Nest.closeLoop ⟨(.loop true, l) :: outer, depth⟩) rfl
            (by rw [looping, hc]; rfl) rfl rfl rfl rfl
      | [] | (.loop false, _) :: _ | (.branch _, _) :: _ | (.choice _, _) :: _ =>
          exact .refused rfl rfl rfl
  | breakLoop _ => exact fits_leave rfl rfl rfl
  | continueLoop _ => exact fits_leave rfl rfl rfl

/-- A keyword of the simple statements is no word of a block. -/
theorem ofKeyword_of_simple {keyword : String} {rest : List Token} {command : Command}
    (h : simple keyword rest = .ok (some command)) : Word.ofKeyword keyword = .plain := by
  unfold Word.ofKeyword
  split <;> first | rfl | cases h

/-- Only other keywords are left to the readers that come later. -/
theorem branching_eq_none {keyword : String} {rest : List Token} {nest : Nest} {line : UInt32} :
    branching keyword rest nest line = .ok none ↔ keyword ∉ branchingWords := by
  constructor
  · intro h
    rcases branches_of_ok h with ⟨_, _, hsome, -⟩ | ⟨-, hother⟩
    · contradiction
    · exact hother
  · intro h
    unfold branching
    split
    case h_8 => rfl
    all_goals simp [branchingWords] at h

theorem looping_eq_none {keyword : String} {rest : List Token} {nest : Nest} {line : UInt32} :
    looping keyword rest nest line = .ok none ↔ keyword ∉ loopingWords := by
  constructor
  · intro h
    rcases loops_of_ok h with ⟨_, _, hsome, -⟩ | ⟨-, hother⟩
    · contradiction
    · exact hother
  · intro h
    unfold looping
    split
    case h_9 => rfl
    all_goals simp [loopingWords] at h

/-- A keyword that no block has is no word of a block. -/
theorem ofKeyword_of_none {keyword : String} {rest : List Token} {nest : Nest} {line : UInt32}
    (hb : branching keyword rest nest line = .ok none)
    (hl : looping keyword rest nest line = .ok none) : Word.ofKeyword keyword = .plain := by
  rw [branching_eq_none] at hb
  rw [looping_eq_none] at hl
  unfold Word.ofKeyword
  split <;> first | rfl | exact absurd (by decide) hb | exact absurd (by decide) hl

theorem fits_plain {nest : Nest} {command : Command} (h : command.isPlain = true) :
    Fits nest .plain (.ok (some (command, nest))) := by
  have hw : command.word = .plain := by cases command <;> first | rfl | cases h
  have ho : command.opensChoice = false := by cases command <;> first | rfl | cases h
  exact .accepted command nest rfl rfl rfl rfl hw ho

/-- What a reader of blocks answers, the whole reader answers. -/
theorem Fits.bind {nest : Nest} {w : Word} {x : Except Problem (Option (Command × Nest))}
    {f : Option (Command × Nest) → Except Problem Accepted} (h : Fits nest w x)
    (hf : ∀ command after, f (some (command, after)) = .ok ⟨command, 0, after⟩) :
    Fits nest w ((x >>= f).map fun a => some (a.command, a.nest)) := by
  unfold Fits at h ⊢
  split at h
  · obtain ⟨command, after, rfl, h⟩ := h
    exact ⟨command, after, by rw [show Except.ok _ >>= f = f _ from rfl, hf]; rfl, h⟩
  · obtain ⟨p, rfl, hp⟩ := h
    exact ⟨p, rfl, hp⟩

/-- A statement that is accepted in one place is read as its word everywhere. -/
theorem read_fits {commands : Commands} {nest₀ : Nest} {line₀ : UInt32} {first : Token}
    {rest : List Token} {a : Accepted} (h : read commands nest₀ line₀ (first :: rest) = .ok a)
    (nest : Nest) (line : UInt32) :
    Fits nest (Word.ofKeyword first.text)
      ((read commands nest line (first :: rest)).map fun a => some (a.command, a.nest)) := by
  obtain ⟨word, rest, htokens, hreads⟩ := reads_of_read h
  obtain ⟨rfl, rfl⟩ := List.cons.inj htokens
  have hother {nest₀ : Nest} {line₀ : UInt32}
      (hb : branching word rest nest₀ line₀ = .ok none) :
      branching word rest nest line = .ok none :=
    branching_eq_none.mpr (branching_eq_none.mp hb)
  change Fits nest (Word.ofKeyword word) _
  simp only [read, Token.bare, Bool.false_eq_true, if_false]
  cases hreads with
  | simple hs =>
      rw [hs, ofKeyword_of_simple hs]
      exact fits_plain (isPlain_of_simple hs)
  | branching hs hb =>
      rw [hs]
      exact (branching_fits hb nest line).bind fun _ _ => rfl
  | looping hs hb hl =>
      rw [hs, hother hb]
      exact (looping_fits hl nest line).bind fun _ _ => rfl
  | application hs hb hl hmask =>
      have hl' : looping word rest nest line = .ok none :=
        looping_eq_none.mpr (looping_eq_none.mp hl)
      rw [hs, hother hb, hl', ofKeyword_of_none hb hl]
      have hplain : (Command.application word (arguments rest)).isPlain = true := rfl
      simpa [bind, Except.bind, pure, Except.pure, Except.map, hmask] using fits_plain hplain

end Statement

end Switchboard
