import Switchboard.Script.Statement

/-!
# Switchboard.Proofs.Script.Grammar

The blocks of a header, as a grammar.

```
body     ::= (plain | event | leave | branch | choice | loop)*
branch   ::= 'if' body branches
branches ::= 'elif' body branches | ('else' body)? 'endif'
choice   ::= 'case' body choices
choices  ::= 'case' body choices | ('otherwise' body)? 'endcase'
loop     ::= 'do' body ('loop' | 'until') | ('while' | 'repeat' | 'foreach') body 'loop'
```

1. A handler of an event stands outside of all blocks, a way out of a loop
   inside a loop, and a choice nowhere directly in the body of a choice: a `case`
   there goes on with the choice around it.
2. A derivation notes beside each word how many loops are open around it, and
   whether it opens a choice. The first word of a loop counts as outside the
   loop, the last one as inside.
3. `Runs` reads the words one by one with a stack of open blocks.
4. Both accept the same words, with the same notes: `derives_iff_runs`.
-/

namespace Switchboard.Grammar

/-! ## words -/

/-- What a line of a header is to the blocks around it. -/
inductive Word where
  | plain | event | leave
  | branch | elseBranch | otherBranch | endBranch
  | choice | otherChoice | endChoice
  | doLoop | loop | endLoop | untilLoop
deriving Repr, DecidableEq

/-- A word with its notes: the loops around it, and whether it opens a choice. -/
structure Mark where
  word : Word
  depth : Nat
  opens : Bool
deriving Repr, DecidableEq

/-- A word that opens no choice, at a depth. -/
def Word.at (w : Word) (depth : Nat) : Mark := ⟨w, depth, false⟩

/-! ## derivations -/

/-- The parts of a header: a body directly in a block of some kind, or in none;
and what follows the first body of a branch or of a choice. -/
inductive Part where
  | body (inside : Option BlockKind)
  | branches
  | choices

/-- Words are a part that stands inside so many loops. -/
inductive Derives : Part → Nat → List Mark → Prop where
  | nil : Derives (.body inside) depth []
  | plain (rest : Derives (.body inside) depth ms) :
      Derives (.body inside) depth (Word.plain.at depth :: ms)
  | event (rest : Derives (.body none) depth ms) :
      Derives (.body none) depth (Word.event.at depth :: ms)
  | leave (inLoop : 0 < depth) (rest : Derives (.body inside) depth ms) :
      Derives (.body inside) depth (Word.leave.at depth :: ms)
  | branch (first : Derives (.body (some .branch)) depth b) (others : Derives .branches depth bs)
      (rest : Derives (.body inside) depth ms) :
      Derives (.body inside) depth (Word.branch.at depth :: (b ++ bs ++ ms))
  | elseBranch (body : Derives (.body (some .branch)) depth b)
      (others : Derives .branches depth bs) :
      Derives .branches depth (Word.elseBranch.at depth :: (b ++ bs))
  | otherBranch (body : Derives (.body (some .branch)) depth b) :
      Derives .branches depth (Word.otherBranch.at depth :: (b ++ [Word.endBranch.at depth]))
  | endBranch : Derives .branches depth [Word.endBranch.at depth]
  | choice (apart : inside ≠ some .choice) (first : Derives (.body (some .choice)) depth b)
      (others : Derives .choices depth bs) (rest : Derives (.body inside) depth ms) :
      Derives (.body inside) depth (⟨.choice, depth, true⟩ :: (b ++ bs ++ ms))
  | nextChoice (body : Derives (.body (some .choice)) depth b)
      (others : Derives .choices depth bs) :
      Derives .choices depth (Word.choice.at depth :: (b ++ bs))
  | otherChoice (body : Derives (.body (some .choice)) depth b) :
      Derives .choices depth (Word.otherChoice.at depth :: (b ++ [Word.endChoice.at depth]))
  | endChoice : Derives .choices depth [Word.endChoice.at depth]
  | doLoop {w : Word} (body : Derives (.body (some .loop)) (depth + 1) b)
      (closer : w = .endLoop ∨ w = .untilLoop) (rest : Derives (.body inside) depth ms) :
      Derives (.body inside) depth (Word.doLoop.at depth :: (b ++ [w.at (depth + 1)] ++ ms))
  | loop (body : Derives (.body (some .loop)) (depth + 1) b)
      (rest : Derives (.body inside) depth ms) :
      Derives (.body inside) depth
        (Word.loop.at depth :: (b ++ [Word.endLoop.at (depth + 1)] ++ ms))

/-! ## reading word by word -/

/-- The loops among open blocks. -/
def loops (blocks : List Block) : Nat := blocks.countP fun b => b.kind == .loop

/-- The kind of the innermost of the open blocks. -/
def inside? (blocks : List Block) : Option BlockKind := blocks.head?.map Block.kind

/-- The open blocks after a word, unless it may not stand there. -/
def step? (blocks : List Block) : Word → Option (List Block)
  | .plain => some blocks
  | .event => if blocks = [] then some blocks else none
  | .leave => if 0 < loops blocks then some blocks else none
  | .branch => some (.branch false :: blocks)
  | .elseBranch =>
    match blocks with
    | .branch false :: _ => some blocks
    | _ => none
  | .otherBranch =>
    match blocks with
    | .branch false :: outer => some (.branch true :: outer)
    | _ => none
  | .endBranch =>
    match blocks with
    | .branch _ :: outer => some outer
    | _ => none
  | .choice =>
    match blocks with
    | .choice true :: _ => none
    | .choice false :: _ => some blocks
    | _ => some (.choice false :: blocks)
  | .otherChoice =>
    match blocks with
    | .choice false :: outer => some (.choice true :: outer)
    | _ => none
  | .endChoice =>
    match blocks with
    | .choice _ :: outer => some outer
    | _ => none
  | .doLoop => some (.loop true :: blocks)
  | .loop => some (.loop false :: blocks)
  | .endLoop =>
    match blocks with
    | .loop _ :: outer => some outer
    | _ => none
  | .untilLoop =>
    match blocks with
    | .loop true :: outer => some outer
    | _ => none

/-- A word with its notes, where some blocks are open. -/
def mark (blocks : List Block) (w : Word) : Mark :=
  ⟨w, loops blocks, w == .choice && inside? blocks != some .choice⟩

/-- Words that may come one after the other, from some open blocks to others. -/
inductive Runs : List Block → List Mark → List Block → Prop where
  | nil : Runs blocks [] blocks
  | cons (step : step? blocks w = some next) (rest : Runs next ms last) :
      Runs blocks (mark blocks w :: ms) last

theorem Runs.append {blocks next last : List Block} {ms ms' : List Mark}
    (h : Runs blocks ms next) (h' : Runs next ms' last) : Runs blocks (ms ++ ms') last := by
  induction h with
  | nil => exact h'
  | cons hstep _ ih => exact .cons hstep (ih h')

/-- One more word in front, whose notes are those of the place. -/
theorem Runs.cons_of_eq {blocks next last : List Block} {m : Mark} {ms : List Mark}
    (h : Runs next ms last) (hstep : step? blocks m.word = some next)
    (hnotes : mark blocks m.word = m) : Runs blocks (m :: ms) last := by
  rw [← hnotes]
  exact .cons hstep h

/-- The first word, and what follows it. -/
theorem Runs.uncons {blocks last : List Block} {ms : List Mark} {w : Word} {words : List Word}
    (h : Runs blocks ms last) (hw : ms.map Mark.word = w :: words) :
    ∃ next rest, step? blocks w = some next ∧ Runs next rest last ∧
      ms = mark blocks w :: rest ∧ rest.map Mark.word = words := by
  cases h with
  | nil => cases hw
  | cons hstep hrest =>
      injection hw with hfirst hothers
      subst hfirst
      exact ⟨_, _, hstep, hrest, rfl, hothers⟩

/-- There is one way to read words. -/
theorem Runs.unique {blocks last last' : List Block} {ms ms' : List Mark}
    (h : Runs blocks ms last) (h' : Runs blocks ms' last')
    (hw : ms'.map Mark.word = ms.map Mark.word) : ms' = ms ∧ last' = last := by
  induction h generalizing ms' with
  | nil =>
      obtain rfl := List.map_eq_nil_iff.1 hw
      cases h'
      exact ⟨rfl, rfl⟩
  | cons hstep _ ih =>
      obtain ⟨next, rest, hstep', hothers, rfl, hwords⟩ := h'.uncons (hw.trans List.map_cons)
      obtain rfl := Option.some.inj (hstep.symm.trans hstep')
      obtain ⟨rfl, rfl⟩ := ih hothers hwords
      exact ⟨rfl, rfl⟩

@[simp] theorem loops_nil : loops [] = 0 := rfl

@[simp] theorem loops_branch (last : Bool) (outer : List Block) :
    loops (.branch last :: outer) = loops outer := rfl

@[simp] theorem loops_choice (last : Bool) (outer : List Block) :
    loops (.choice last :: outer) = loops outer := rfl

@[simp] theorem loops_loop (untilAllowed : Bool) (outer : List Block) :
    loops (.loop untilAllowed :: outer) = loops outer + 1 := by
  simp [loops, Block.kind]

/-- No word but `case` is noted to open a choice. -/
theorem mark_eq {w : Word} {blocks : List Block} {depth : Nat} (h : w ≠ .choice)
    (hd : loops blocks = depth) : mark blocks w = w.at depth := by
  simp [mark, Word.at, h, hd]

theorem mark_at (w : Word) (h : w ≠ .choice) (blocks : List Block) :
    mark blocks w = w.at (loops blocks) := mark_eq h rfl

theorem mark_choice {blocks : List Block} {depth : Nat} (hd : loops blocks = depth) :
    mark blocks .choice = ⟨.choice, depth, inside? blocks != some .choice⟩ := by
  simp [mark, hd]

/-- A choice opens where it does not go on with another one. -/
theorem step_choice {blocks : List Block} (h : inside? blocks ≠ some .choice) :
    step? blocks .choice = some (.choice false :: blocks) := by
  match blocks with
  | .choice _ :: _ => exact absurd rfl h
  | [] | .branch _ :: _ | .loop _ :: _ => rfl

/-! ## what is derived can be read -/

/-- How a part is read: a body leaves the open blocks as they are, and what
follows the first body of a block closes it. -/
def Part.Read (depth : Nat) (ms : List Mark) : Part → Prop
  | .body inside => ∀ blocks, inside? blocks = inside → loops blocks = depth → Runs blocks ms blocks
  | .branches => ∀ outer, loops outer = depth → Runs (.branch false :: outer) ms outer
  | .choices => ∀ outer, loops outer = depth → Runs (.choice false :: outer) ms outer

/-- By induction on the derivation: each rule is read from its first word on,
with one more open block while the body of a block is read. -/
theorem Derives.read {p : Part} {depth : Nat} {ms : List Mark} (h : Derives p depth ms) :
    p.Read depth ms := by
  induction h with
  | nil => exact fun blocks _ _ => .nil
  | plain _ ih =>
      intro blocks hk hd
      exact (ih blocks hk hd).cons_of_eq rfl (mark_eq nofun hd)
  | event _ ih =>
      intro blocks hk hd
      have houtside : blocks = [] := by simpa [inside?] using hk
      exact (ih blocks hk hd).cons_of_eq (if_pos houtside) (mark_eq nofun hd)
  | leave hinLoop _ ih =>
      intro blocks hk hd
      exact (ih blocks hk hd).cons_of_eq (if_pos (hd ▸ hinLoop)) (mark_eq nofun hd)
  | branch _ _ _ hfirst hothers hrest =>
      intro blocks hk hd
      have hbody := hfirst (.branch false :: blocks) rfl hd
      have hblock := hbody.append (hothers blocks hd)
      exact (hblock.append (hrest blocks hk hd)).cons_of_eq rfl (mark_eq nofun hd)
  | elseBranch _ _ hbody hothers =>
      intro outer hd
      have hinner := hbody (.branch false :: outer) rfl hd
      exact (hinner.append (hothers outer hd)).cons_of_eq rfl (mark_eq nofun hd)
  | @otherBranch depth b _ hbody =>
      intro outer hd
      have hinner := hbody (.branch true :: outer) rfl hd
      have hclose : Runs (.branch true :: outer) [Word.endBranch.at depth] outer :=
        Runs.nil.cons_of_eq rfl (mark_eq nofun hd)
      exact (hinner.append hclose).cons_of_eq rfl (mark_eq nofun hd)
  | endBranch =>
      intro outer hd
      exact Runs.nil.cons_of_eq rfl (mark_eq nofun hd)
  | choice hapart _ _ _ hfirst hothers hrest =>
      intro blocks hk hd
      have hbody := hfirst (.choice false :: blocks) rfl hd
      have hblock := hbody.append (hothers blocks hd)
      refine (hblock.append (hrest blocks hk hd)).cons_of_eq (step_choice (hk ▸ hapart)) ?_
      rw [mark_choice hd, hk, bne_iff_ne.2 hapart]
  | nextChoice _ _ hbody hothers =>
      intro outer hd
      have hinner := hbody (.choice false :: outer) rfl hd
      exact (hinner.append (hothers outer hd)).cons_of_eq rfl (mark_choice hd)
  | @otherChoice depth b _ hbody =>
      intro outer hd
      have hinner := hbody (.choice true :: outer) rfl hd
      have hclose : Runs (.choice true :: outer) [Word.endChoice.at depth] outer :=
        Runs.nil.cons_of_eq rfl (mark_eq nofun hd)
      exact (hinner.append hclose).cons_of_eq rfl (mark_eq nofun hd)
  | endChoice =>
      intro outer hd
      exact Runs.nil.cons_of_eq rfl (mark_eq nofun hd)
  | @doLoop depth b inside ms w _ hcloser _ hbody hrest =>
      intro blocks hk hd
      have hdeeper : loops (.loop true :: blocks) = depth + 1 := by rw [loops_loop, hd]
      have hinner := hbody (.loop true :: blocks) rfl hdeeper
      have hclose : Runs (.loop true :: blocks) [w.at (depth + 1)] blocks := by
        obtain rfl | rfl := hcloser
        · exact Runs.nil.cons_of_eq (m := Word.endLoop.at _) rfl (mark_eq nofun hdeeper)
        · exact Runs.nil.cons_of_eq (m := Word.untilLoop.at _) rfl (mark_eq nofun hdeeper)
      exact ((hinner.append hclose).append (hrest blocks hk hd)).cons_of_eq rfl (mark_eq nofun hd)
  | @loop depth b inside ms _ _ hbody hrest =>
      intro blocks hk hd
      have hdeeper : loops (.loop false :: blocks) = depth + 1 := by rw [loops_loop, hd]
      have hinner := hbody (.loop false :: blocks) rfl hdeeper
      have hclose : Runs (.loop false :: blocks) [Word.endLoop.at (depth + 1)] blocks :=
        Runs.nil.cons_of_eq rfl (mark_eq nofun hdeeper)
      exact ((hinner.append hclose).append (hrest blocks hk hd)).cons_of_eq rfl (mark_eq nofun hd)

/-! ## what can be read is derived -/

/-- The words that end the body of a block which stands inside so many loops. -/
def Ends (depth : Nat) (ms : List Mark) : Block → Prop
  | .branch false => Derives .branches depth ms
  | .branch true => ms = [Word.endBranch.at depth]
  | .choice false => Derives .choices depth ms
  | .choice true => ms = [Word.endChoice.at depth]
  | .loop untilAllowed =>
    ∃ w : Word, (w = .endLoop ∨ untilAllowed = true ∧ w = .untilLoop) ∧ ms = [w.at (depth + 1)]

/-- What is left of a header where some blocks are open: what is left of the
body of the innermost one, the end of that block, and what is left around it. -/
def Remains : List Block → List Mark → Prop
  | [], ms => Derives (.body none) 0 ms
  | b :: outer, ms =>
    ∃ body close rest, ms = body ++ close ++ rest ∧
      Derives (.body (some b.kind)) (loops (b :: outer)) body ∧ Ends (loops outer) close b ∧
      Remains outer rest

/-- What may stand in front of any body may stand in front of what remains. -/
theorem Remains.grow {blocks : List Block} {ms : List Mark} (h : Remains blocks ms)
    (front : List Mark) (hf : ∀ body, Derives (.body (inside? blocks)) (loops blocks) body →
      Derives (.body (inside? blocks)) (loops blocks) (front ++ body)) :
    Remains blocks (front ++ ms) := by
  cases blocks with
  | nil => exact hf ms h
  | cons b outer =>
      obtain ⟨body, close, rest, rfl, hb, he, hr⟩ := h
      exact ⟨front ++ body, close, rest, by simp only [List.append_assoc], hf body hb, he, hr⟩

/-- The end of a block remains where its body is over. -/
theorem Remains.close {outer : List Block} {rest : List Mark} (h : Remains outer rest) (b : Block)
    (close : List Mark) (he : Ends (loops outer) close b) :
    Remains (b :: outer) (close ++ rest) :=
  ⟨[], close, rest, rfl, .nil, he, h⟩

/-- A word and what remains after it remain where it stands. One case for each
word: it goes on with a body, opens a block there, or begins the end of one. -/
theorem Remains.cons {blocks next : List Block} {w : Word} {ms : List Mark}
    (h : Remains next ms) (hstep : step? blocks w = some next) :
    Remains blocks (mark blocks w :: ms) := by
  cases w with
  | plain =>
      cases hstep
      rw [mark_at .plain nofun]
      exact h.grow [_] fun _ hb => .plain hb
  | event =>
      obtain ⟨rfl, rfl⟩ : blocks = [] ∧ blocks = next := by simpa [step?] using hstep
      rw [mark_at .event nofun]
      exact h.grow [_] fun _ hb => .event hb
  | leave =>
      obtain ⟨hinLoop, rfl⟩ : 0 < loops blocks ∧ blocks = next := by simpa [step?] using hstep
      rw [mark_at .leave nofun]
      exact h.grow [_] fun _ hb => .leave hinLoop hb
  | branch =>
      cases hstep
      obtain ⟨body, close, rest, rfl, hb, he, hr⟩ := h
      rw [mark_at .branch nofun]
      exact hr.grow (_ :: (body ++ close)) fun _ hrest => .branch hb he hrest
  | elseBranch =>
      match blocks, hstep with
      | .branch false :: outer, rfl =>
        obtain ⟨body, close, rest, rfl, hb, he, hr⟩ := h
        rw [mark_at .elseBranch nofun]
        exact hr.close (.branch false) (_ :: (body ++ close)) (.elseBranch hb he)
  | otherBranch =>
      match blocks, hstep with
      | .branch false :: outer, rfl =>
        obtain ⟨body, close, rest, rfl, hb, rfl, hr⟩ := h
        rw [mark_at .otherBranch nofun]
        exact hr.close (.branch false) (_ :: (body ++ [_])) (.otherBranch hb)
  | endBranch =>
      match blocks, hstep with
      | .branch false :: outer, rfl =>
        rw [mark_at .endBranch nofun]
        exact h.close (.branch false) [_] .endBranch
      | .branch true :: outer, rfl =>
        rw [mark_at .endBranch nofun]
        exact h.close (.branch true) [_] rfl
  | choice =>
      by_cases hinside : inside? blocks = some .choice
      · match blocks, hinside, hstep with
        | .choice false :: outer, _, rfl =>
          obtain ⟨body, close, rest, rfl, hb, he, hr⟩ := h
          exact hr.close (.choice false) (_ :: (body ++ close)) (.nextChoice hb he)
      · rw [step_choice hinside] at hstep
        cases hstep
        obtain ⟨body, close, rest, rfl, hb, he, hr⟩ := h
        rw [mark_choice rfl, bne_iff_ne.2 hinside]
        exact hr.grow (_ :: (body ++ close)) fun _ hrest => .choice hinside hb he hrest
  | otherChoice =>
      match blocks, hstep with
      | .choice false :: outer, rfl =>
        obtain ⟨body, close, rest, rfl, hb, rfl, hr⟩ := h
        rw [mark_at .otherChoice nofun]
        exact hr.close (.choice false) (_ :: (body ++ [_])) (.otherChoice hb)
  | endChoice =>
      match blocks, hstep with
      | .choice false :: outer, rfl =>
        rw [mark_at .endChoice nofun]
        exact h.close (.choice false) [_] .endChoice
      | .choice true :: outer, rfl =>
        rw [mark_at .endChoice nofun]
        exact h.close (.choice true) [_] rfl
  | doLoop =>
      cases hstep
      obtain ⟨body, _, rest, rfl, hb, ⟨w, hcloser, rfl⟩, hr⟩ := h
      rw [mark_at .doLoop nofun]
      rw [loops_loop] at hb
      refine hr.grow (_ :: (body ++ [_])) fun _ hrest => .doLoop hb ?_ hrest
      exact hcloser.imp_right And.right
  | loop =>
      cases hstep
      obtain ⟨body, _, rest, rfl, hb, ⟨w, hcloser, rfl⟩, hr⟩ := h
      obtain rfl : w = .endLoop := hcloser.resolve_right fun h => Bool.false_ne_true h.1
      rw [mark_at .loop nofun]
      rw [loops_loop] at hb
      exact hr.grow (_ :: (body ++ [_])) fun _ hrest => .loop hb hrest
  | endLoop =>
      match blocks, hstep with
      | .loop untilAllowed :: outer, rfl =>
        rw [mark_at .endLoop nofun, loops_loop]
        exact h.close (.loop untilAllowed) [_] ⟨_, .inl rfl, rfl⟩
  | untilLoop =>
      match blocks, hstep with
      | .loop true :: outer, rfl =>
        rw [mark_at .untilLoop nofun, loops_loop]
        exact h.close (.loop true) [_] ⟨_, .inr ⟨rfl, rfl⟩, rfl⟩

theorem Runs.remains {blocks : List Block} {ms : List Mark} (h : Runs blocks ms []) :
    Remains blocks ms := by
  generalize hl : ([] : List Block) = last at h
  induction h with
  | nil =>
      subst hl
      exact Derives.nil
  | cons hstep _ ih => exact (ih hl).cons hstep

/-- A header is derived exactly if its words can be read from outside of all
blocks to outside of all blocks. -/
theorem derives_iff_runs {ms : List Mark} : Derives (.body none) 0 ms ↔ Runs [] ms [] :=
  ⟨fun h => h.read [] rfl rfl, fun h => h.remains⟩

end Switchboard.Grammar
