import Switchboard.Proofs.Program.Layout
import Switchboard.Proofs.Script.Nesting

/-!
# Switchboard.Proofs.Program.Reading

Compiled lines as structured programs.

1. Lines that follow each other and have the commands of a program have its
   depths too, as long as the depths can be told apart.  They leave the open
   blocks as they were, and the ways out of a loop stand inside one
   (`Program.fits_of_follows`).
2. Lines that follow each other to the end of all blocks are the lines of some
   program (`exists_program`).
-/

namespace Switchboard

/-! ## lines and blocks -/

/-- The lines of two parts follow each other if each part does. -/
theorem Follows.append_inv {n m : Nest} {ls others : List Line}
    (h : Follows n (ls ++ others) m) : ∃ n', Follows n ls n' ∧ Follows n' others m := by
  induction ls generalizing n with
  | nil => exact ⟨n, .nil n, h⟩
  | cons l ls ih =>
      obtain ⟨hd, n', ha, h⟩ := h.uncons
      obtain ⟨k, hk, h⟩ := ih h
      exact ⟨k, .cons hd ha hk, h⟩

/-- The block of a chain, which may have come to its body without a guard. -/
def Chain.block : Chain → Bool → Block
  | .branch, last => .branch last
  | .choice, last => .choice last

namespace Nest

variable {n n' : Nest} {line : UInt32} {kind : Chain}

/-- Whether the innermost open block is a chain of choices. -/
def inChoice (n : Nest) : Bool :=
  match n.innermost? with
  | some (.choice _) => true
  | _ => false

/-- After the opener of a chain its block is open, and no choice lies in a choice. -/
theorem after_opener {cond : Condition} (h : n.after? line (kind.opener cond) = some n') :
    n' = n.enter (kind.block false) line ∧ (kind = .choice → n.inChoice = false) := by
  cases kind with
  | branch => exact ⟨(Option.some.inj h).symm, nofun⟩
  | choice =>
      simp only [Chain.opener, after?] at h
      split at h
      · contradiction
      · next hother =>
          refine ⟨(Option.some.inj h).symm, fun _ => ?_⟩
          rw [inChoice]
          split
          · next last hlast => exact absurd hlast (hother last)
          · rfl

/-- A divider stands in a chain of its kind, and leaves it open. -/
theorem after_divider {cond : Condition} (h : n.after? line (kind.divider cond) = some n') :
    n.innermost? = some (kind.block false) ∧ n' = n := by
  cases kind with
  | branch | choice =>
      obtain ⟨hinner, hn⟩ := Option.ite_none_right_eq_some.mp h
      exact ⟨hinner, (Option.some.inj hn).symm⟩

/-- The last arm stands in such a chain, and is then open. -/
theorem after_other (h : n.after? line kind.other = some n') :
    n.innermost? = some (kind.block false) ∧ n' = n.become (kind.block true) := by
  cases kind with
  | branch | choice =>
      obtain ⟨hinner, hn⟩ := Option.ite_none_right_eq_some.mp h
      exact ⟨hinner, (Option.some.inj hn).symm⟩

/-- A closer stands in such a chain, and closes it. -/
theorem after_closer (h : n.after? line kind.closer = some n') :
    (∃ last, n.innermost? = some (kind.block last)) ∧ n' = n.close := by
  cases kind with
  | branch | choice =>
      simp only [Chain.closer, after?] at h
      split at h
      · next last hinner => exact ⟨⟨last, hinner⟩, (Option.some.inj h).symm⟩
      · contradiction

/-- After the opener of a loop the loop is open. -/
theorem after_loopOpener {opener : Opener} (h : n.after? line opener.command = some n') :
    ∃ untilAllowed, n' = n.enterLoop untilAllowed line := by
  cases opener <;> exact ⟨_, (Option.some.inj h).symm⟩

/-- The closer of a loop stands in one, and closes it. -/
theorem after_loopCloser {closer : Closer} (h : n.after? line closer.command = some n') :
    (∃ untilAllowed, n.innermost? = some (.loop untilAllowed)) ∧ n' = n.closeLoop := by
  cases closer with
  | endLoop =>
      simp only [Closer.command, after?] at h
      split at h
      · next untilAllowed hinner => exact ⟨⟨untilAllowed, hinner⟩, (Option.some.inj h).symm⟩
      · contradiction
  | untilLoop cond =>
      obtain ⟨hinner, hn⟩ := Option.ite_none_right_eq_some.mp h
      exact ⟨⟨true, hinner⟩, (Option.some.inj hn).symm⟩

/-- The ways out of a loop stand inside one. -/
theorem after_leave {c : Command} (hc : c = .breakLoop ∨ c = .continueLoop)
    (h : n.after? line c = some n') : n.inLoop = true ∧ n' = n := by
  have hleave : (if n.inLoop then some n else none) = some n' := by
    rcases hc with rfl | rfl <;> exact h
  obtain ⟨hinside, hn⟩ := Option.ite_none_right_eq_some.mp hleave
  exact ⟨hinside, (Option.some.inj hn).symm⟩

/-- An open block that is no loop changes nothing about loops. -/
theorem inLoop_enter (n : Nest) (kind : Chain) (last : Bool) (line : UInt32) :
    (n.enter (kind.block last) line).inLoop = n.inLoop := by
  cases kind <;> rfl

/-- In a chain one is in a choice exactly if the chain is a choice. -/
theorem inChoice_of_innermost {kind : Chain} {last : Bool}
    (h : n.innermost? = some (kind.block last)) : n.inChoice = kind.isChoice := by
  rw [inChoice, h]
  cases kind <;> rfl

/-- The innermost block is the first of those open. -/
theorem blocks_of_innermost? {b : Block} (h : n.innermost? = some b) :
    ∃ line outer, n.blocks = (b, line) :: outer := by
  unfold innermost? at h
  cases hb : n.blocks with
  | nil => simp [hb] at h
  | cons block outer =>
      obtain ⟨b', line⟩ := block
      simp only [hb, List.head?_cons, Option.map_some, Option.some.injEq] at h
      exact ⟨line, outer, by rw [← h]⟩

end Nest

/-! ## depths -/

mutual

/-- Lines with the commands of a program have its depths, and leave the open blocks
as they were.  Its chains of choices are apart, since a `case` that opens one does not
stand directly in another. -/
theorem Program.fits_of_follows :
    (p : Program) → {n m : Nest} → {ls : List Line} → Follows n ls m →
      ls.map (·.command) = p.commands → n.depth + p.loops < Nest.depthBound →
      m = n ∧ ls.map Line.shape = p.shapes n.depth ∧ p.Enclosed n.inLoop ∧ p.Legible n.inChoice
  | .nil, n, m, ls, h, hc, _ => by
      obtain rfl := List.map_eq_nil_iff.mp hc
      cases h
      exact ⟨rfl, rfl, trivial, trivial⟩
  | .cons phrase rest, n, m, ls, h, hc, hd => by
      obtain ⟨front, back, rfl, hfront, hback⟩ := List.map_eq_append_iff.mp hc
      obtain ⟨k, hk, hothers⟩ := h.append_inv
      rw [Program.loops] at hd
      obtain ⟨rfl, hs, he, hl⟩ := phrase.fits_of_follows hk hfront (by omega)
      obtain ⟨rfl, hs', he', hl'⟩ := rest.fits_of_follows hothers hback (by omega)
      refine ⟨rfl, ?_, ⟨he, he'⟩, hl, hl'⟩
      rw [List.map_append, hs, hs', Program.shapes]

/-- Lines with the commands of a phrase have its depths, and what is in it is well placed. -/
theorem Phrase.fits_of_follows :
    (p : Phrase) → {n m : Nest} → {ls : List Line} → Follows n ls m →
      ls.map (·.command) = p.commands → n.depth + p.loops < Nest.depthBound →
      m = n ∧ ls.map Line.shape = p.shapes n.depth ∧ p.Enclosed n.inLoop ∧ p.Legible n.inChoice
  | .plain command hp, n, m, ls, h, hc, _ => by
      obtain ⟨l, rfl, rfl⟩ := List.map_eq_singleton_iff.mp hc
      obtain ⟨hdepth, n', ha, h⟩ := h.uncons
      cases h
      rw [Nest.after?_plain _ _ hp] at ha
      exact ⟨(Option.some.inj ha).symm, by rw [← hdepth]; rfl, trivial, trivial⟩
  | .chain kind cond body arms, n, m, ls, h, hc, hd => by
      obtain ⟨l, rest, rfl, hl, hc⟩ := List.map_eq_cons_iff.mp hc
      obtain ⟨front, back, rfl, hfront, hback⟩ := List.map_eq_append_iff.mp hc
      obtain ⟨hdepth, n', ha, h⟩ := h.uncons
      obtain ⟨k, hk, h⟩ := h.append_inv
      rw [hl] at ha
      obtain ⟨rfl, hapart⟩ := Nest.after_opener ha
      rw [Phrase.loops] at hd
      have hinside : (n.enter (kind.block false) l.number).inChoice = kind.isChoice :=
        Nest.inChoice_of_innermost rfl
      obtain ⟨rfl, hs, he, hlegible⟩ :=
        body.fits_of_follows hk hfront (by simp only [Nest.enter]; omega)
      obtain ⟨rfl, hs', he', hlegible'⟩ := arms.fits_of_follows kind h hback rfl
        (by simp only [Nest.enter]; omega)
      rw [Nest.inLoop_enter] at he he'
      rw [hinside] at hlegible
      refine ⟨rfl, ?_, ⟨he, he'⟩, hapart, hlegible, hlegible'⟩
      rw [List.map_cons, List.map_append, hs, hs', Line.shape, hl, hdepth]
      rfl
  | .loop opener body closer, n, m, ls, h, hc, hd => by
      obtain ⟨l, rest, rfl, hl, hc⟩ := List.map_eq_cons_iff.mp hc
      obtain ⟨front, back, rfl, hfront, hback⟩ := List.map_eq_append_iff.mp hc
      obtain ⟨last, rfl, hlast⟩ := List.map_eq_singleton_iff.mp hback
      obtain ⟨hdepth, n', ha, h⟩ := h.uncons
      obtain ⟨k, hk, h⟩ := h.append_inv
      rw [hl] at ha
      obtain ⟨untilAllowed, rfl⟩ := Nest.after_loopOpener ha
      rw [Phrase.loops] at hd
      -- there are fewer loops than depths, so that the depth of the body is one more
      have hinner : (n.enterLoop untilAllowed l.number).depth = n.depth + 1 :=
        Nat.mod_eq_of_lt (by omega)
      obtain ⟨rfl, hs, he, hlegible⟩ := body.fits_of_follows hk hfront (by omega)
      obtain ⟨hdepth', n', ha', h⟩ := h.uncons
      cases h
      rw [hlast] at ha'
      obtain ⟨-, rfl⟩ := Nest.after_loopCloser ha'
      refine ⟨?_, ?_, he, hlegible⟩
      · unfold Nest.closeLoop
        rw [hinner]
        rfl
      · rw [List.map_cons, List.map_append, hs, hinner, List.map_singleton, Line.shape, hl, hdepth,
          Line.shape, hlast, hdepth', hinner]
        rfl
  | .breakLoop, n, m, ls, h, hc, _ => by
      obtain ⟨l, rfl, hl⟩ := List.map_eq_singleton_iff.mp hc
      obtain ⟨hdepth, n', ha, h⟩ := h.uncons
      cases h
      obtain ⟨hin, rfl⟩ := Nest.after_leave (.inl hl) ha
      refine ⟨rfl, ?_, hin, trivial⟩
      rw [List.map_singleton, Line.shape, hl, hdepth]
      rfl
  | .continueLoop, n, m, ls, h, hc, _ => by
      obtain ⟨l, rfl, hl⟩ := List.map_eq_singleton_iff.mp hc
      obtain ⟨hdepth, n', ha, h⟩ := h.uncons
      cases h
      obtain ⟨hin, rfl⟩ := Nest.after_leave (.inr hl) ha
      refine ⟨rfl, ?_, hin, trivial⟩
      rw [List.map_singleton, Line.shape, hl, hdepth]
      rfl

/-- Lines with the commands of some arms have their depths, and close the block of
the chain. -/
theorem Arms.fits_of_follows (kind : Chain) :
    (a : Arms) → {n m : Nest} → {ls : List Line} → {line : UInt32} →
      {outer : List (Block × UInt32)} → Follows n ls m →
      ls.map (·.command) = a.commands kind → n.blocks = (kind.block false, line) :: outer →
      n.depth + a.loops < Nest.depthBound →
      m = ⟨outer, n.depth⟩ ∧ ls.map Line.shape = a.shapes kind n.depth ∧ a.Enclosed n.inLoop ∧
        a.Legible kind.isChoice
  | .done, n, m, ls, line, outer, h, hc, hb, _ => by
      obtain ⟨l, rfl, hl⟩ := List.map_eq_singleton_iff.mp hc
      obtain ⟨hdepth, n', ha, h⟩ := h.uncons
      cases h
      rw [hl] at ha
      obtain ⟨-, rfl⟩ := Nest.after_closer ha
      refine ⟨?_, ?_, trivial, trivial⟩
      · rw [Nest.close, hb]
        rfl
      · rw [List.map_singleton, Line.shape, hl, hdepth]
        rfl
  | .other body, n, m, ls, line, outer, h, hc, hb, hd => by
      obtain ⟨l, rest, rfl, hl, hc⟩ := List.map_eq_cons_iff.mp hc
      obtain ⟨front, back, rfl, hfront, hback⟩ := List.map_eq_append_iff.mp hc
      obtain ⟨last, rfl, hlast⟩ := List.map_eq_singleton_iff.mp hback
      obtain ⟨hdepth, n', ha, hinside⟩ := h.uncons
      obtain ⟨k, hk, hend⟩ := hinside.append_inv
      rw [hl] at ha
      obtain ⟨hinner, rfl⟩ := Nest.after_other ha
      have hbecome : n.become (kind.block true) = ⟨(kind.block true, line) :: outer, n.depth⟩ := by
        rw [Nest.become, hb]
      rw [hbecome] at hk
      obtain ⟨rfl, hs, he, hlegible⟩ := body.fits_of_follows hk hfront hd
      rw [Nest.inChoice_of_innermost rfl] at hlegible
      obtain ⟨hdepth', n', ha', h⟩ := hend.uncons
      cases h
      rw [hlast] at ha'
      obtain ⟨-, rfl⟩ := Nest.after_closer ha'
      have hloop : n.inLoop = (⟨(kind.block true, line) :: outer, n.depth⟩ : Nest).inLoop := by
        simp only [Nest.inLoop, hb]
        cases kind <;> rfl
      refine ⟨rfl, ?_, hloop ▸ he, hlegible⟩
      rw [List.map_cons, List.map_append, hs, List.map_singleton, Line.shape, hl, hdepth,
        Line.shape, hlast, hdepth']
      rfl
  | .more cond body arms, n, m, ls, line, outer, h, hc, hb, hd => by
      obtain ⟨l, rest, rfl, hl, hc⟩ := List.map_eq_cons_iff.mp hc
      obtain ⟨front, back, rfl, hfront, hback⟩ := List.map_eq_append_iff.mp hc
      obtain ⟨hdepth, n', ha, hinside⟩ := h.uncons
      obtain ⟨k, hk, hothers⟩ := hinside.append_inv
      rw [hl] at ha
      obtain ⟨hinner, rfl⟩ := Nest.after_divider ha
      rw [Arms.loops] at hd
      obtain ⟨rfl, hs, he, hlegible⟩ := body.fits_of_follows hk hfront (by omega)
      rw [Nest.inChoice_of_innermost hinner] at hlegible
      obtain ⟨rfl, hs', he', hlegible'⟩ := arms.fits_of_follows kind hothers hback hb (by omega)
      refine ⟨rfl, ?_, ⟨he, he'⟩, hlegible, hlegible'⟩
      rw [List.map_cons, List.map_append, hs, hs', Line.shape, hl, hdepth]
      rfl

end

/-! ## every text is a program's -/

/-- Whether a command ends a body. -/
def Command.isEnd : Command → Bool
  | .elseBranch _ | .otherBranch | .endBranch => true
  | .choice _ false | .otherChoice | .endChoice => true
  | .endLoop | .untilLoop _ => true
  | _ => false

/-- What a command can be. -/
theorem Command.kinds (c : Command) :
    c.isPlain = true ∨ (∃ kind cond, c = Chain.opener kind cond) ∨
      (∃ opener, c = Opener.command opener) ∨ c = .breakLoop ∨ c = .continueLoop ∨
      c.isEnd = true := by
  cases c with
  | branch cond => exact .inr (.inl ⟨.branch, cond, rfl⟩)
  | choice cond opens =>
      cases opens with
      | true => exact .inr (.inl ⟨.choice, cond, rfl⟩)
      | false => simp [Command.isEnd]
  | doLoop => exact .inr (.inr (.inl ⟨.doLoop, rfl⟩))
  | whileLoop cond => exact .inr (.inr (.inl ⟨.whileLoop cond, rfl⟩))
  | repeatLoop count => exact .inr (.inr (.inl ⟨.repeatLoop count, rfl⟩))
  | eachLoop target items delimiter =>
      exact .inr (.inr (.inl ⟨.eachLoop target items delimiter, rfl⟩))
  | _ => simp [Command.isPlain, Command.isEnd]

/-- What a command that ends a body can be. -/
theorem Command.end_kinds {c : Command} (h : c.isEnd = true) :
    (∃ kind cond, c = Chain.divider kind cond) ∨ (∃ kind, c = Chain.other kind) ∨
      (∃ kind, c = Chain.closer kind) ∨ ∃ closer, c = Closer.command closer := by
  cases c with
  | elseBranch cond => exact .inl ⟨.branch, cond, rfl⟩
  | choice cond opens =>
      cases opens with
      | false => exact .inl ⟨.choice, cond, rfl⟩
      | true => contradiction
  | otherBranch => exact .inr (.inl ⟨.branch, rfl⟩)
  | otherChoice => exact .inr (.inl ⟨.choice, rfl⟩)
  | endBranch => exact .inr (.inr (.inl ⟨.branch, rfl⟩))
  | endChoice => exact .inr (.inr (.inl ⟨.choice, rfl⟩))
  | endLoop => exact .inr (.inr (.inr ⟨.endLoop, rfl⟩))
  | untilLoop cond => exact .inr (.inr (.inr ⟨.untilLoop cond, rfl⟩))
  | _ => contradiction

/-- The block of a chain tells its kind, and whether the last arm is open. -/
theorem Chain.block_inj {kind other : Chain} {last last' : Bool}
    (h : kind.block last = other.block last') : kind = other ∧ last = last' := by
  cases kind <;> cases other <;> simp_all [Chain.block]

/-- The block of a chain is no loop. -/
theorem Chain.block_ne_loop (kind : Chain) (last untilAllowed : Bool) :
    kind.block last ≠ .loop untilAllowed := by
  cases kind <;> simp [Chain.block]

/-- A body ends at a line that belongs to the innermost block, and only there. -/
theorem Nest.after_end {n n' : Nest} {line : UInt32} {c : Command} (he : c.isEnd = true)
    (ha : n.after? line c = some n') :
    (∃ kind last, n.innermost? = some (Chain.block kind last) ∧
      ((last = false ∧ (∃ cond, c = kind.divider cond) ∧ n' = n) ∨
        (last = false ∧ c = kind.other ∧ n' = n.become (kind.block true)) ∨
        (c = kind.closer ∧ n' = n.close))) ∨
      ∃ untilAllowed, n.innermost? = some (.loop untilAllowed) ∧
        (∃ closer, c = Closer.command closer) ∧ n' = n.closeLoop := by
  rcases Command.end_kinds he with ⟨kind, cond, rfl⟩ | ⟨kind, rfl⟩ | ⟨kind, rfl⟩ | ⟨closer, rfl⟩
  · obtain ⟨hb, hn⟩ := Nest.after_divider ha
    exact .inl ⟨kind, false, hb, .inl ⟨rfl, ⟨cond, rfl⟩, hn⟩⟩
  · obtain ⟨hb, hn⟩ := Nest.after_other ha
    exact .inl ⟨kind, false, hb, .inr (.inl ⟨rfl, rfl, hn⟩)⟩
  · obtain ⟨⟨last, hb⟩, hn⟩ := Nest.after_closer ha
    exact .inl ⟨kind, last, hb, .inr (.inr ⟨rfl, hn⟩)⟩
  · obtain ⟨⟨untilAllowed, hb⟩, hn⟩ := Nest.after_loopCloser ha
    exact .inr ⟨untilAllowed, hb, ⟨closer, rfl⟩, hn⟩

/-- A body of a chain ends at the next arm or at the end of the same chain, and after
a body without a guard there is no next arm. -/
theorem Nest.after_end_of_chain {n n' : Nest} {line : UInt32} {c : Command} {kind : Chain}
    {last : Bool} (he : c.isEnd = true) (ha : n.after? line c = some n')
    (hb : n.innermost? = some (kind.block last)) :
    (last = false ∧ (∃ cond, c = kind.divider cond) ∧ n' = n) ∨
      (last = false ∧ c = kind.other ∧ n' = n.become (kind.block true)) ∨
      (c = kind.closer ∧ n' = n.close) := by
  rcases Nest.after_end he ha with ⟨other, last', hother, hcases⟩ | ⟨untilAllowed, hloop, -⟩
  · obtain ⟨rfl, rfl⟩ := Chain.block_inj (Option.some.inj (hb.symm.trans hother))
    exact hcases
  · exact absurd (Option.some.inj (hb.symm.trans hloop)) (kind.block_ne_loop last untilAllowed)

/-- The body of a loop ends at the last line of the loop. -/
theorem Nest.after_end_of_loop {n n' : Nest} {line : UInt32} {c : Command} {untilAllowed : Bool}
    (he : c.isEnd = true) (ha : n.after? line c = some n')
    (hb : n.innermost? = some (.loop untilAllowed)) :
    (∃ closer, c = Closer.command closer) ∧ n' = n.closeLoop := by
  rcases Nest.after_end he ha with ⟨kind, last, hchain, -⟩ | ⟨-, -, hcases⟩
  · exact absurd (Option.some.inj (hchain.symm.trans hb)) (kind.block_ne_loop last untilAllowed)
  · exact hcases

/-- Lines begin with some commands, and go on with others inside these blocks. -/
structure Parsed (front : List Command) (ls rest : List Line) (blocks : List (Block × UInt32))
    (m : Nest) : Prop where
  commands : ls.map (·.command) = front ++ rest.map (·.command)
  follows : ∃ n : Nest, n.blocks = blocks ∧ Follows n rest m

namespace Parsed

variable {front others : List Command} {ls rest rest' : List Line}
  {blocks blocks' : List (Block × UInt32)} {m : Nest}

/-- No more lines are left than there were. -/
theorem length_le (h : Parsed front ls rest blocks m) : rest.length ≤ ls.length := by
  have := congrArg List.length h.commands
  simp only [List.length_map, List.length_append] at this
  omega

/-- What is parsed may be followed by what is parsed of the rest. -/
theorem append (h : Parsed front ls rest blocks m) (h' : Parsed others rest rest' blocks' m) :
    Parsed (front ++ others) ls rest' blocks' m :=
  ⟨by rw [h.commands, h'.commands, List.append_assoc], h'.follows⟩

/-- One more line may come in front of what is parsed. -/
theorem cons {l : Line} (h : Parsed front ls rest blocks m) :
    Parsed (l.command :: front) (l :: ls) rest blocks m :=
  ⟨by rw [List.map_cons, h.commands]; rfl, h.follows⟩

end Parsed

/-- Lines begin with a program, which ends where a body does. -/
def BeginsWithProgram (ls : List Line) : Prop :=
  ∀ {n m : Nest}, Follows n ls m → m.blocks = [] →
    ∃ (p : Program) (rest : List Line), Parsed p.commands ls rest n.blocks m ∧
      ∀ l, rest.head? = some l → l.command.isEnd = true

/-- Lines that go on where a body of a chain has ended begin with its arms. -/
def BeginsWithArms (ls : List Line) : Prop :=
  ∀ {n m : Nest} {kind : Chain} {last : Bool}, Follows n ls m → m.blocks = [] →
    n.innermost? = some (kind.block last) → (∀ l, ls.head? = some l → l.command.isEnd = true) →
    ∃ (a : Arms) (rest : List Line), Parsed (a.commands kind) ls rest n.blocks.tail m

/-- An open block has a line that ends its body. -/
theorem ends_of_innermost? {n m : Nest} {ls : List Line} {b : Block} (h : Follows n ls m)
    (hm : m.blocks = []) (hb : n.innermost? = some b)
    (he : ∀ l, ls.head? = some l → l.command.isEnd = true) :
    ∃ l rest n', ls = l :: rest ∧ l.command.isEnd = true ∧
      n.after? l.number l.command = some n' ∧ Follows n' rest m := by
  cases h with
  | nil =>
      obtain ⟨line, outer, hblocks⟩ := Nest.blocks_of_innermost? hb
      simp [hblocks] at hm
  | cons hd ha h => exact ⟨_, _, _, rfl, he _ rfl, ha, h⟩

/-- A line and those after it begin with a program, if all shorter texts do. -/
theorem beginsWithProgram_cons {l : Line} {ls : List Line}
    (ih : ∀ others : List Line, others.length ≤ ls.length →
      BeginsWithProgram others ∧ BeginsWithArms others) : BeginsWithProgram (l :: ls) := by
  intro n m h hm
  obtain ⟨-, n', ha, hf⟩ := h.uncons
  -- once the first phrase is found, the rest is shorter
  have hphrase : ∀ (phrase : Phrase) {rest : List Line},
      Parsed phrase.commands (l :: ls) rest n.blocks m → rest.length ≤ ls.length →
      ∃ (p : Program) (rest : List Line), Parsed p.commands (l :: ls) rest n.blocks m ∧
        ∀ l, rest.head? = some l → l.command.isEnd = true := by
    intro phrase rest hp hle
    obtain ⟨k, hk, hrest⟩ := hp.follows
    obtain ⟨p, rest', hp', he⟩ := (ih rest hle).1 hrest hm
    exact ⟨.cons phrase p, rest', hp.append (hk ▸ hp'), he⟩
  have hsingle : n' = n → Parsed [l.command] (l :: ls) ls n.blocks m := fun hn =>
    ⟨rfl, n', congrArg Nest.blocks hn, hf⟩
  rcases l.command.kinds with hp | ⟨kind, cond, hc⟩ | ⟨opener, hc⟩ | hc | hc | hc
  · rw [Nest.after?_plain _ _ hp] at ha
    exact hphrase (.plain l.command hp) (hsingle (Option.some.inj ha).symm) (Nat.le_refl _)
  · rw [hc] at ha
    obtain ⟨rfl, -⟩ := Nest.after_opener ha
    obtain ⟨body, rest, hbody, he⟩ := (ih ls (Nat.le_refl _)).1 hf hm
    obtain ⟨k, hk, hrest⟩ := hbody.follows
    have hinner : k.innermost? = some (kind.block false) := by
      rw [Nest.innermost?, hk]
      rfl
    obtain ⟨arms, rest', harms⟩ := (ih rest hbody.length_le).2 hrest hm hinner he
    rw [hk] at harms
    have hparsed := (hbody.append harms).cons (l := l)
    rw [hc] at hparsed
    exact hphrase (.chain kind cond body arms) hparsed
      (Nat.le_trans harms.length_le hbody.length_le)
  · rw [hc] at ha
    obtain ⟨untilAllowed, rfl⟩ := Nest.after_loopOpener ha
    obtain ⟨body, rest, hbody, he⟩ := (ih ls (Nat.le_refl _)).1 hf hm
    obtain ⟨k, hk, hrest⟩ := hbody.follows
    have hinner : k.innermost? = some (.loop untilAllowed) := by
      rw [Nest.innermost?, hk]
      rfl
    obtain ⟨last, rest', k', rfl, hend, ha', hf'⟩ := ends_of_innermost? hrest hm hinner he
    obtain ⟨⟨closer, hc'⟩, rfl⟩ := Nest.after_end_of_loop hend ha' hinner
    have hclose : Parsed [closer.command] (last :: rest') rest' n.blocks m :=
      ⟨by rw [List.map_cons, hc']; rfl, _, by rw [Nest.closeLoop, hk]; rfl, hf'⟩
    have hparsed := (hbody.append hclose).cons (l := l)
    rw [hc] at hparsed
    have hle := hbody.length_le
    rw [List.length_cons] at hle
    exact hphrase (.loop opener body closer) hparsed (by omega)
  · have hparsed := hsingle (Nest.after_leave (.inl hc) ha).2
    rw [hc] at hparsed
    exact hphrase .breakLoop hparsed (Nat.le_refl _)
  · have hparsed := hsingle (Nest.after_leave (.inr hc) ha).2
    rw [hc] at hparsed
    exact hphrase .continueLoop hparsed (Nat.le_refl _)
  · refine ⟨.nil, l :: ls, ⟨rfl, n, rfl, h⟩, fun l' hl => ?_⟩
    obtain rfl := Option.some.inj hl
    exact hc

/-- Where a body of a chain has ended there are arms, if all shorter texts are read. -/
theorem beginsWithArms_of_shorter {ls : List Line}
    (ih : ∀ others : List Line, others.length < ls.length →
      BeginsWithProgram others ∧ BeginsWithArms others) : BeginsWithArms ls := by
  intro n m kind last h hm hinner he
  obtain ⟨l, ls, n', rfl, hend, ha, hf⟩ := ends_of_innermost? h hm hinner he
  have hshort : ls.length < (l :: ls).length := Nat.lt_succ_self _
  obtain ⟨line, outer, hblocks⟩ := Nest.blocks_of_innermost? hinner
  rcases Nest.after_end_of_chain hend ha hinner with ⟨rfl, ⟨cond, hc⟩, rfl⟩ | ⟨rfl, hc, rfl⟩ |
    ⟨hc, rfl⟩
  · obtain ⟨body, rest, hbody, he⟩ := (ih ls hshort).1 hf hm
    obtain ⟨k, hk, hrest⟩ := hbody.follows
    have hinner' : k.innermost? = some (kind.block false) := by
      rw [Nest.innermost?, hk]
      exact hinner
    obtain ⟨arms, rest', harms⟩ := (ih rest (Nat.lt_of_le_of_lt hbody.length_le hshort)).2
      hrest hm hinner' he
    rw [hk] at harms
    have hparsed := (hbody.append harms).cons (l := l)
    rw [hc] at hparsed
    exact ⟨.more cond body arms, rest', hparsed⟩
  · obtain ⟨body, rest, hbody, he⟩ := (ih ls hshort).1 hf hm
    obtain ⟨k, hk, hrest⟩ := hbody.follows
    rw [Nest.become, hblocks] at hk
    have hinner' : k.innermost? = some (kind.block true) := by
      rw [Nest.innermost?, hk]
      rfl
    -- after the body without a guard there is only the end of the chain
    obtain ⟨l', rest', k', rfl, hend', ha', hf'⟩ := ends_of_innermost? hrest hm hinner' he
    obtain ⟨hc', rfl⟩ : l'.command = kind.closer ∧ k' = k.close := by
      rcases Nest.after_end_of_chain hend' ha' hinner' with ⟨h, -⟩ | ⟨h, -⟩ | h
      · contradiction
      · contradiction
      · exact h
    have hclose : Parsed [kind.closer] (l' :: rest') rest' n.blocks.tail m :=
      ⟨by rw [List.map_cons, hc']; rfl, _, by rw [Nest.close, hk, hblocks]; rfl, hf'⟩
    have hparsed := (hbody.append hclose).cons (l := l)
    rw [hc] at hparsed
    exact ⟨.other body, rest', hparsed⟩
  · exact ⟨.done, ls, ⟨by rw [List.map_cons, hc]; rfl, _, rfl, hf⟩⟩

/-- Lines begin with a program, and with arms inside a chain. -/
theorem beginsWith (ls : List Line) : BeginsWithProgram ls ∧ BeginsWithArms ls := by
  induction hn : ls.length using Nat.strongRecOn generalizing ls with
  | ind n ih =>
      subst hn
      have hshorter : ∀ others : List Line, others.length < ls.length →
          BeginsWithProgram others ∧ BeginsWithArms others := fun others hlt =>
        ih others.length hlt others rfl
      refine ⟨?_, beginsWithArms_of_shorter hshorter⟩
      cases ls with
      | nil =>
          intro n m h hm
          exact ⟨.nil, [], ⟨rfl, n, rfl, h⟩, by simp⟩
      | cons l ls =>
          exact beginsWithProgram_cons fun others hle =>
            hshorter others (Nat.lt_succ_of_le hle)

/-- Lines that follow each other from outside of all blocks to outside of all blocks
are the lines of a program. -/
theorem exists_program {n m : Nest} {ls : List Line} (h : Follows n ls m) (hn : n.blocks = [])
    (hm : m.blocks = []) : ∃ p : Program, p.commands = ls.map (·.command) := by
  obtain ⟨p, rest, hp, he⟩ := (beginsWith ls).1 h hm
  obtain ⟨k, hk, hrest⟩ := hp.follows
  have hcommands := hp.commands
  cases rest with
  | nil => exact ⟨p, by rw [hcommands, List.map_nil, List.append_nil]⟩
  | cons l rest =>
      -- a line that ends a body cannot stand outside of all blocks
      exfalso
      obtain ⟨-, n', ha, -⟩ := hrest.uncons
      have hnone : k.innermost? = none := by
        rw [Nest.innermost?, hk, hn]
        rfl
      rcases Nest.after_end (he l rfl) ha with ⟨kind, last, hb, -⟩ | ⟨untilAllowed, hb, -⟩
      · simp [hb] at hnone
      · simp [hb] at hnone

end Switchboard
