import Switchboard.Proofs.Program.Layout
import Switchboard.Proofs.Script.Nesting

/-!
# Switchboard.Proofs.Script.Enclosing

The blocks and loops around each line of a header.

1. `openBlocks lines n` are the blocks that have been opened and not closed in
   front of line `n`, innermost first, each with its first line; `openLoops` are
   the loops among them.
2. A header is well nested if each line finds the block that it divides, closes or
   leaves, stands at its depth in loops, and no block is open at a handler or at
   the end.  The headers of an image without problems are (`wellNested_of_isClean`).
3. In a well-nested header, a search for the end of a chain comes back to the
   loops it started from, and a search for the end of a loop leaves just that loop.
-/

namespace Switchboard

/-! ## what a command does to blocks -/

/-- What a command does to the blocks around it. -/
inductive Bracket where
  | opens (kind : BlockKind)
  | divides (kind : BlockKind)
  | closes (kind : BlockKind)
  | none
deriving Repr, DecidableEq

/-- The bracket of a command. -/
def Command.bracket : Command → Bracket
  | .branch _ => .opens .branch
  | .elseBranch _ | .otherBranch => .divides .branch
  | .endBranch => .closes .branch
  | .choice _ true => .opens .choice
  | .choice _ false | .otherChoice => .divides .choice
  | .endChoice => .closes .choice
  | .doLoop | .whileLoop _ | .repeatLoop _ | .eachLoop .. => .opens .loop
  | .endLoop | .untilLoop _ => .closes .loop
  | _ => .none

/-- A block that is open: its kind, and its first line. -/
abbrev Opened := BlockKind × Nat

/-- The blocks that are open after line `n`. -/
def Bracket.apply (n : Nat) (blocks : List Opened) : Bracket → List Opened
  | .opens kind => (kind, n) :: blocks
  | .closes _ => blocks.tail
  | .divides _ | .none => blocks

/-- The blocks that are open in front of a line, innermost first. -/
def openBlocks (lines : List Line) : Nat → List Opened
  | 0 => []
  | n + 1 =>
    match lines[n]? with
    | some l => l.command.bracket.apply n (openBlocks lines n)
    | none => openBlocks lines n

/-- The first lines of the loops among some blocks. -/
def loopsOf (blocks : List Opened) : List Nat :=
  (blocks.filter (·.1 == .loop)).map (·.2)

/-- The loops around a line, innermost first. A loop stands around its last line,
but not around its first. -/
def openLoops (lines : List Line) (n : Nat) : List Nat := loopsOf (openBlocks lines n)

@[simp] theorem loopsOf_nil : loopsOf [] = [] := rfl

@[simp] theorem loopsOf_loop (o : Nat) (blocks : List Opened) :
    loopsOf ((.loop, o) :: blocks) = o :: loopsOf blocks := rfl

theorem loopsOf_cons_of_ne {kind : BlockKind} (h : kind ≠ .loop) (o : Nat)
    (blocks : List Opened) : loopsOf ((kind, o) :: blocks) = loopsOf blocks := by
  simp [loopsOf, h]

theorem openBlocks_succ {lines : List Line} {n : Nat} {l : Line} (h : lines[n]? = some l) :
    openBlocks lines (n + 1) = l.command.bracket.apply n (openBlocks lines n) := by
  simp [openBlocks, h]

/-- Only the lines in front count. -/
theorem openBlocks_append (lines more : List Line) {n : Nat} (hn : n ≤ lines.length) :
    openBlocks (lines ++ more) n = openBlocks lines n := by
  induction n with
  | zero => rfl
  | succ n ih =>
      have hget : (lines ++ more)[n]? = lines[n]? := List.getElem?_append_left hn
      simp only [openBlocks, hget, ih (Nat.le_of_succ_le hn)]

/-- Behind the last line nothing changes any more. -/
theorem openBlocks_of_le {lines : List Line} {n : Nat} (hn : lines.length ≤ n) :
    openBlocks lines n = openBlocks lines lines.length := by
  induction n with
  | zero => rw [Nat.le_zero.mp hn]
  | succ n ih =>
      rcases Nat.eq_or_lt_of_le hn with heq | hlt
      · rw [heq]
      · have hle : lines.length ≤ n := Nat.le_of_lt_succ hlt
        rw [openBlocks, List.getElem?_eq_none hle]
        exact ih hle

/-- No more blocks are open than there are lines. -/
theorem length_openBlocks_le (lines : List Line) (n : Nat) :
    (openBlocks lines n).length ≤ lines.length := by
  have hfront : ∀ k, k ≤ lines.length → (openBlocks lines k).length ≤ k := by
    intro k hk
    induction k with
    | zero => exact Nat.le_refl _
    | succ k ih =>
        have hl : lines[k]? = some lines[k] := List.getElem?_eq_getElem hk
        have hlen := ih (Nat.le_of_succ_le hk)
        rw [openBlocks_succ hl]
        cases lines[k].command.bracket <;> simp only [Bracket.apply, List.length_cons,
          List.length_tail] <;> omega
  rcases Nat.le_total n lines.length with hn | hn
  · exact Nat.le_trans (hfront n hn) hn
  · rw [openBlocks_of_le hn]
    exact hfront _ (Nat.le_refl _)

/-- No more loops stand in each other than there are lines. -/
theorem length_openLoops_le (lines : List Line) (n : Nat) :
    (openLoops lines n).length ≤ lines.length := by
  rw [openLoops, loopsOf, List.length_map]
  exact Nat.le_trans (List.length_filter_le _ _) (length_openBlocks_le lines n)

/-- A block that is open was opened in front, inside of those that are open
around it. -/
theorem openBlocks_opener {lines : List Line} {n o : Nat} {kind : BlockKind}
    {inner outer : List Opened} (h : openBlocks lines n = inner ++ (kind, o) :: outer) :
    o < n ∧ (∃ l, lines[o]? = some l ∧ l.command.bracket = .opens kind) ∧
      openBlocks lines o = outer := by
  induction n generalizing inner with
  | zero => simp [openBlocks] at h
  | succ n ih =>
      have hbefore : ∀ {inner : List Opened}, openBlocks lines n = inner ++ (kind, o) :: outer →
          o < n + 1 ∧ (∃ l, lines[o]? = some l ∧ l.command.bracket = .opens kind) ∧
            openBlocks lines o = outer := fun h =>
        have ⟨hlt, hrest⟩ := ih h
        ⟨Nat.lt_succ_of_lt hlt, hrest⟩
      cases hl : lines[n]? with
      | none => exact hbefore (by simpa [openBlocks, hl] using h)
      | some l =>
          rw [openBlocks_succ hl] at h
          cases he : l.command.bracket with
          | opens k =>
              rw [he] at h
              cases inner with
              | nil =>
                  obtain ⟨hk, rfl⟩ := List.cons.inj h
                  obtain ⟨rfl, rfl⟩ := Prod.mk.inj hk
                  exact ⟨Nat.lt_succ_self _, ⟨l, hl, he⟩, rfl⟩
              | cons b inner => exact hbefore (List.cons.inj h).2
          | closes k =>
              rw [he] at h
              cases hb : openBlocks lines n with
              | nil => simp [Bracket.apply, hb] at h
              | cons b blocks =>
                  have hmore : openBlocks lines n = (b :: inner) ++ (kind, o) :: outer := by
                    rw [Bracket.apply, hb, List.tail_cons] at h
                    rw [hb, h, List.cons_append]
                  exact hbefore hmore
          | divides k => exact hbefore (by simpa [he, Bracket.apply] using h)
          | none => exact hbefore (by simpa [he, Bracket.apply] using h)

/-- The innermost loop was opened in front, inside of those around it. -/
theorem openLoops_opener {lines : List Line} {n o : Nat} {rest : List Nat}
    (h : openLoops lines n = o :: rest) :
    o < n ∧ (∃ l, lines[o]? = some l ∧ l.command.bracket = .opens .loop) ∧
      openLoops lines o = rest := by
  obtain ⟨b, blocks, hf, ho, hr⟩ := List.map_eq_cons_iff.mp h
  obtain ⟨inner, outer, hb, -, hk, hblocks⟩ := List.filter_eq_cons_iff.mp hf
  obtain ⟨kind, first⟩ := b
  obtain rfl : kind = .loop := by simpa using hk
  obtain rfl : first = o := ho
  obtain ⟨hlt, hopen, houter⟩ := openBlocks_opener hb
  exact ⟨hlt, hopen, by rw [openLoops, houter, ← hr, ← hblocks]; rfl⟩

/-! ## well-nested headers -/

/-- A command finds the block that it divides or closes innermost, and some loop
to leave or to go on with. -/
structure Command.Fits (c : Command) (blocks : List Opened) : Prop where
  finds : ∀ kind, c.bracket = .divides kind ∨ c.bracket = .closes kind →
    ∃ o rest, blocks = (kind, o) :: rest
  leaves : c = .breakLoop ∨ c = .continueLoop → loopsOf blocks ≠ []

/-- The loops around a command that fits, and after it. -/
theorem Command.Fits.loopsOf_apply {c : Command} {blocks : List Opened} (h : c.Fits blocks)
    (n : Nat) :
    loopsOf (c.bracket.apply n blocks) = (match c.bracket with
      | .opens .loop => n :: loopsOf blocks
      | .closes .loop => (loopsOf blocks).tail
      | _ => loopsOf blocks) := by
  cases he : c.bracket with
  | opens kind => cases kind <;> rfl
  | closes kind =>
      obtain ⟨o, rest, rfl⟩ := h.finds kind (.inr he)
      cases kind <;> rfl
  | divides kind => rfl
  | none => rfl

/-- Inside of a block, a command divides or closes that one, or the innermost of
those inside of it. -/
theorem Command.Fits.innermost {c : Command} {inner outer : List Opened} {kind k : BlockKind}
    {o : Nat} (h : c.Fits (inner ++ (kind, o) :: outer))
    (hk : c.bracket = .divides k ∨ c.bracket = .closes k) :
    inner = [] ∧ k = kind ∨ ∃ o' inner', inner = (k, o') :: inner' := by
  obtain ⟨o', others, ho⟩ := h.finds k hk
  cases inner with
  | nil => exact .inl ⟨rfl, (Prod.mk.inj (List.cons.inj ho).1).1.symm⟩
  | cons b inner' => exact .inr ⟨o', inner', by rw [(List.cons.inj ho).1]⟩

/-- Every line stands where it may, at its depth, and no block is open at a handler
or at the end. -/
structure Header.WellNested (h : Header) : Prop where
  fits : ∀ n (l : Line), h.lines[n]? = some l → l.command.Fits (openBlocks h.lines n)
  depth : ∀ n (l : Line), h.lines[n]? = some l → l.depth = (openLoops h.lines n).length
  ends : openBlocks h.lines h.lines.length = []
  handlers : ∀ event n, h.event? event = some n → openBlocks h.lines n = []

/-- The kinds of the blocks that the compiler has open. -/
def Nest.kinds (n : Nest) : List BlockKind := n.blocks.map (·.1.kind)

theorem Nest.kinds_of_innermost? {n : Nest} {b : Block} (h : n.innermost? = some b) :
    n.kinds = b.kind :: n.close.kinds := by
  unfold innermost? at h
  unfold kinds close
  cases hb : n.blocks with
  | nil => simp [hb] at h
  | cons first rest =>
      obtain rfl : first.1 = b := by simpa [hb] using h
      rfl

theorem Nest.kinds_become {n : Nest} {b : Block} (h : n.innermost?.map Block.kind = some b.kind) :
    (n.become b).kinds = n.kinds := by
  unfold innermost? at h
  unfold become kinds
  cases hb : n.blocks with
  | nil => simp [hb] at h
  | cons first rest =>
      obtain ⟨last, line⟩ := first
      have hk : last.kind = b.kind := by simpa [hb] using h
      simp [hk]

/-- The kinds that are open after a command, and before it. -/
theorem Nest.kinds_after {n n' : Nest} {line : UInt32} {c : Command}
    (h : n.after? line c = some n') :
    match c.bracket with
    | .opens kind => n'.kinds = kind :: n.kinds
    | .divides kind => n'.kinds = n.kinds ∧ kind :: n.close.kinds = n.kinds
    | .closes kind => n.kinds = kind :: n'.kinds
    | .none => n' = n := by
  cases c with
  | choice cond opens =>
      cases opens with
      | true =>
          simp only [after?] at h
          split at h
          · contradiction
          · obtain rfl := Option.some.inj h
            rfl
      | false =>
          simp only [after?] at h
          split at h
          · next hi =>
              obtain rfl := Option.some.inj h
              exact ⟨rfl, (kinds_of_innermost? hi).symm⟩
          · contradiction
  | elseBranch cond =>
      simp only [after?] at h
      split at h
      · next hi =>
          obtain rfl := Option.some.inj h
          exact ⟨rfl, (kinds_of_innermost? hi).symm⟩
      · contradiction
  | otherBranch | otherChoice =>
      simp only [after?] at h
      split at h
      · next hi =>
          obtain rfl := Option.some.inj h
          exact ⟨kinds_become (by rw [hi]; rfl), (kinds_of_innermost? hi).symm⟩
      · contradiction
  | endBranch | endChoice | endLoop | untilLoop cond =>
      simp only [after?] at h
      split at h
      · next hi =>
          obtain rfl := Option.some.inj h
          exact kinds_of_innermost? hi
      · contradiction
  | breakLoop | continueLoop =>
      simp only [after?] at h
      split at h
      · exact (Option.some.inj h).symm
      · contradiction
  | branch cond | doLoop | whileLoop cond | repeatLoop count | eachLoop target items delimiter =>
      obtain rfl := Option.some.inj h
      rfl
  | _ => exact (Option.some.inj h).symm

/-- The depth that the compiler counts changes at loops only. -/
theorem Nest.depth_after {n n' : Nest} {line : UInt32} {c : Command}
    (h : n.after? line c = some n') :
    n'.depth = (match c.bracket with
      | .opens .loop => (n.depth + 1) % depthBound
      | .closes .loop => n.depth - 1
      | _ => n.depth) := by
  cases c with
  | choice cond opens =>
      cases opens <;> simp only [after?] at h <;> split at h <;>
        first | contradiction | (obtain rfl := Option.some.inj h; rfl)
  | otherBranch | otherChoice =>
      simp only [after?] at h
      split at h
      · obtain rfl := Option.some.inj h
        unfold become
        split <;> rfl
      · contradiction
  | elseBranch cond | endBranch | endChoice | endLoop | untilLoop cond | breakLoop
  | continueLoop =>
      simp only [after?] at h
      split at h
      · obtain rfl := Option.some.inj h
        rfl
      · contradiction
  | _ =>
      obtain rfl := Option.some.inj h
      rfl

/-- Ways out of a loop stand inside one. -/
theorem Nest.inLoop_of_after {n n' : Nest} {line : UInt32} {c : Command}
    (h : n.after? line c = some n') (hc : c = .breakLoop ∨ c = .continueLoop) :
    .loop ∈ n.kinds := by
  have hin : n.inLoop = true := by
    obtain rfl | rfl := hc <;> simp only [after?] at h <;> split at h <;>
      first | assumption | contradiction
  obtain ⟨b, hb, hk⟩ := List.any_eq_true.mp hin
  exact List.mem_map.mpr ⟨b, hb, by simpa using hk⟩

theorem loop_mem_map_iff {blocks : List Opened} :
    .loop ∈ blocks.map (·.1) ↔ loopsOf blocks ≠ [] := by
  simp [loopsOf, List.filter_eq_nil_iff]

/-- The compiler refuses what does not fit, and its open blocks are those of the
lines. -/
theorem Nest.fits_of_after {n n' : Nest} {line : UInt32} {c : Command} {blocks : List Opened}
    (h : n.after? line c = some n') (hk : n.kinds = blocks.map (·.1)) (k : Nat) :
    c.Fits blocks ∧ n'.kinds = (c.bracket.apply k blocks).map (·.1) := by
  have hkinds := kinds_after h
  have hcons : ∀ {kind : BlockKind} {rest : List BlockKind}, n.kinds = kind :: rest →
      ∃ o outer, blocks = (kind, o) :: outer ∧ outer.map (·.1) = rest := by
    intro kind rest hn
    obtain ⟨b, outer, rfl, rfl, ho⟩ := List.map_eq_cons_iff.mp (hk ▸ hn)
    exact ⟨b.2, outer, rfl, ho⟩
  have hleaves : c = .breakLoop ∨ c = .continueLoop → loopsOf blocks ≠ [] := fun hc =>
    loop_mem_map_iff.mp (hk ▸ inLoop_of_after h hc)
  cases he : c.bracket with
  | opens kind =>
      rw [he] at hkinds
      exact ⟨⟨by simp [he], hleaves⟩, by simp [hkinds, hk, Bracket.apply]⟩
  | divides kind =>
      rw [he] at hkinds
      obtain ⟨o, outer, rfl, -⟩ := hcons hkinds.2.symm
      refine ⟨⟨?_, hleaves⟩, by rw [hkinds.1, hk]; rfl⟩
      intro kind' hk'
      obtain rfl : kind = kind' := by simpa [he] using hk'
      exact ⟨o, outer, rfl⟩
  | closes kind =>
      rw [he] at hkinds
      obtain ⟨o, outer, rfl, ho⟩ := hcons hkinds
      refine ⟨⟨?_, hleaves⟩, by simp [← ho, Bracket.apply]⟩
      intro kind' hk'
      obtain rfl : kind = kind' := by simpa [he] using hk'
      exact ⟨o, outer, rfl⟩
  | none =>
      rw [he] at hkinds
      subst hkinds
      exact ⟨⟨by simp [he], hleaves⟩, hk⟩

namespace Compiler

/-- What has been read of a header is well nested as far as it goes. Depths are
counted right as long as they stay below their bound. -/
structure Section.Regular (s : Section) : Prop where
  kinds : s.nest.kinds = (openBlocks s.header.lines s.header.lines.length).map (·.1)
  fits : ∀ n (l : Line), s.header.lines[n]? = some l →
    l.command.Fits (openBlocks s.header.lines n)
  depths : (∀ n, (openLoops s.header.lines n).length < Nest.depthBound) →
    s.nest.depth = (openLoops s.header.lines s.header.lines.length).length ∧
      ∀ n (l : Line), s.header.lines[n]? = some l →
        l.depth = (openLoops s.header.lines n).length
  handlers : ∀ event n, (event, n) ∈ s.header.events →
    n ≤ s.header.lines.length ∧ openBlocks s.header.lines n = []

/-- A line of a longer list is one of the shorter list, or the last. -/
theorem getElem?_concat_eq_some {lines : List Line} {last l : Line} {n : Nat}
    (h : (lines ++ [last])[n]? = some l) :
    n < lines.length ∧ lines[n]? = some l ∨ n = lines.length ∧ l = last := by
  rcases Nat.lt_trichotomy n lines.length with hn | rfl | hn
  · exact .inl ⟨hn, by rwa [List.getElem?_append_left hn] at h⟩
  · exact .inr ⟨rfl, by simpa using h.symm⟩
  · rw [List.getElem?_eq_none (by rw [List.length_append]; exact hn)] at h
    contradiction

/-- A statement that is accepted leaves a section regular. -/
theorem Section.Regular.push {s : Section} (h : s.Regular) {c : Command} {mask : Mask}
    {line : UInt32} {nest : Nest} (ha : s.nest.after? line c = some nest) :
    Section.Regular ⟨s.header.push ⟨c, s.nest.depth, mask, line⟩, nest⟩ := by
  obtain ⟨hfits, hkinds⟩ := Nest.fits_of_after ha h.kinds s.header.lines.length
  generalize hlast : Line.mk c s.nest.depth mask line = last
  have hopen : ∀ n, n ≤ s.header.lines.length →
      openBlocks (s.header.lines ++ [last]) n = openBlocks s.header.lines n := fun n hn =>
    openBlocks_append _ _ hn
  have hend : openBlocks (s.header.lines ++ [last]) (s.header.lines ++ [last]).length =
      c.bracket.apply s.header.lines.length
        (openBlocks s.header.lines s.header.lines.length) := by
    rw [List.length_append, List.length_singleton,
      openBlocks_succ (l := last) (by simp), hopen _ (Nat.le_refl _), ← hlast]
  refine ⟨?_, ?_, ?_, ?_⟩ <;> dsimp only [Header.push]
  · rw [hend, hkinds]
  · intro n l hl
    rcases getElem?_concat_eq_some hl with ⟨hn, hl⟩ | ⟨rfl, rfl⟩
    · rw [hopen n (Nat.le_of_lt hn)]
      exact h.fits n l hl
    · rw [hopen _ (Nat.le_refl _), ← hlast]
      exact hfits
  · intro hbound
    have hshort : ∀ n, (openLoops s.header.lines n).length < Nest.depthBound := by
      intro n
      rcases Nat.le_total n s.header.lines.length with hn | hn
      · rw [openLoops, ← hopen n hn]
        exact hbound n
      · rw [openLoops, openBlocks_of_le hn, ← hopen _ (Nat.le_refl _)]
        exact hbound _
    obtain ⟨hdepth, hlines⟩ := h.depths hshort
    refine ⟨?_, ?_⟩
    · have hlast := hbound (s.header.lines ++ [last]).length
      rw [openLoops, hend, hfits.loopsOf_apply] at hlast ⊢
      rw [Nest.depth_after ha, hdepth, openLoops]
      split <;> simp_all [Nat.mod_eq_of_lt]
    · intro n l hl
      rcases getElem?_concat_eq_some hl with ⟨hn, hl⟩ | ⟨rfl, rfl⟩
      · rw [openLoops, hopen n (Nat.le_of_lt hn)]
        exact hlines n l hl
      · rw [openLoops, hopen _ (Nat.le_refl _), ← hlast]
        exact hdepth
  · intro event n hn
    obtain ⟨hle, hb⟩ := h.handlers event n hn
    exact ⟨by simp; omega, by rw [hopen n hle, hb]⟩

/-- Every section is regular. -/
theorem inherited_regular (commands : Commands) : Inherited commands Section.Regular where
  begins name file := by
    refine ⟨rfl, ?_, fun _ => ⟨rfl, ?_⟩, ?_⟩ <;> simp [Header.empty]
  event s name h hopen := by
    refine ⟨h.kinds, h.fits, h.depths, fun event n hn => ?_⟩
    rcases List.mem_cons.mp hn with hn | hn
    · obtain ⟨-, rfl⟩ := Prod.mk.inj hn
      have hk : s.nest.kinds = [] := by
        simpa [Nest.kinds, Nest.innermost?] using hopen
      exact ⟨Nat.le_refl _, List.map_eq_nil_iff.mp (h.kinds ▸ hk)⟩
    · exact h.handlers event n (List.mem_filter.mp hn).1
  statement s line tokens accepted h hread := h.push (Statement.after_of_read hread)

end Compiler

/-- The headers of an image are well nested if no problem was found and their loops
do not stand in more of each other than the compiler can count. -/
theorem wellNested_of_isClean {commands : Commands} {sources : List (String × String)}
    (hc : (compile commands sources).isClean = true) {h : Header}
    (hh : h ∈ (compile commands sources).image.headers)
    (hbound : ∀ n, (openLoops h.lines n).length < Nest.depthBound) : h.WellNested := by
  obtain ⟨nest, hr, hend⟩ := (Compiler.inherited_regular commands).of_mem hh
  have hk : nest.kinds = [] := by rw [Nest.kinds, hend hc, List.map_nil]
  refine ⟨hr.fits, (hr.depths hbound).2, List.map_eq_nil_iff.mp (hr.kinds ▸ hk), ?_⟩
  intro event n he
  obtain ⟨before, after, hevents, -⟩ := List.lookup_eq_some_iff.mp he
  exact (hr.handlers event n (by simp [hevents])).2

/-! ## searches in well-nested headers -/

/-- The kind of block that a chain is. -/
def Chain.blockKind : Chain → BlockKind
  | .branch => .branch
  | .choice => .choice

/-- The role of a bracket for chains of a kind. -/
def Bracket.role (kind : BlockKind) : Bracket → Scan.Role
  | .opens k => if k = kind then .opens else .other
  | .divides k => if k = kind then .divides else .other
  | .closes k => if k = kind then .closes else .other
  | .none => .other

theorem Chain.blockKind_ne_loop (kind : Chain) : kind.blockKind ≠ .loop := by
  cases kind <;> decide

/-- What a command does to chains of a kind is part of its bracket. -/
theorem Chain.role_eq (kind : Chain) (c : Command) :
    kind.role c = c.bracket.role kind.blockKind := by
  cases kind <;> cases c with
  | choice cond opens => cases opens <;> rfl
  | _ => rfl

/-- A search goes on past a line of a block inside of the one it started in, with
the count of the blocks of its kind that are open after that line. -/
theorem Command.Fits.pass {l : Line} {kind : Chain} {o : Nat} {inner outer : List Opened}
    (h : l.command.Fits (inner ++ (kind.blockKind, o) :: outer))
    (hstop : ¬ (inner = [] ∧ (l.command.bracket = .divides kind.blockKind ∨
      l.command.bracket = .closes kind.blockKind))) (n : Nat) :
    ∃ inner', l.command.bracket.apply n (inner ++ (kind.blockKind, o) :: outer) =
        inner' ++ (kind.blockKind, o) :: outer ∧
      ∀ rest, Scan.distance kind.role (inner.countP (·.1 = kind.blockKind)) (l :: rest) =
        Scan.distance kind.role (inner'.countP (·.1 = kind.blockKind)) rest + 1 := by
  -- a line that divides or closes a block does so to one that is inside
  have hinside : ∀ {k}, l.command.bracket = .divides k ∨ l.command.bracket = .closes k →
      ∃ o' inner', inner = (k, o') :: inner' := by
    intro k hk
    rcases h.innermost hk with ⟨hnil, rfl⟩ | hcons
    · exact absurd ⟨hnil, hk⟩ hstop
    · exact hcons
  simp only [Scan.distance, kind.role_eq]
  cases he : l.command.bracket with
  | opens k =>
      refine ⟨(k, n) :: inner, rfl, fun rest => ?_⟩
      by_cases hk : k = kind.blockKind <;> simp [Bracket.role, hk]
  | divides k =>
      obtain ⟨o', inner', rfl⟩ := hinside (.inl he)
      refine ⟨_, rfl, fun rest => ?_⟩
      by_cases hk : k = kind.blockKind <;> simp [Bracket.role, hk]
  | closes k =>
      obtain ⟨o', inner', rfl⟩ := hinside (.inr he)
      refine ⟨inner', rfl, fun rest => ?_⟩
      by_cases hk : k = kind.blockKind <;> simp [Bracket.role, hk]
  | none => exact ⟨inner, rfl, fun rest => rfl⟩

/-- Only what opens or divides a chain can have a guard. -/
theorem Chain.bracket_of_guard {kind : Chain} {c : Command} {cond : Condition}
    (h : kind.guard c = some cond) :
    c.bracket = .opens kind.blockKind ∨ c.bracket = .divides kind.blockKind := by
  cases kind <;> cases c with
  | choice cond opens =>
      cases opens <;>
        simp_all [guard, Scan.branchGuard, Scan.choiceGuard, Command.bracket, blockKind]
  | _ => simp_all [guard, Scan.branchGuard, Scan.choiceGuard, Command.bracket, blockKind]

/-- The line in front of the others from a place on. -/
theorem drop_eq_cons {lines rest : List Line} {p : Nat} {l : Line}
    (h : lines.drop p = l :: rest) :
    lines[p]? = some l ∧ p < lines.length ∧ lines.drop (p + 1) = rest := by
  have hl : lines[p]? = some l := by rw [← List.head?_drop, h]; rfl
  exact ⟨hl, (List.getElem?_eq_some_iff.mp hl).1, by rw [← List.drop_drop, h]; rfl⟩

namespace Header.WellNested

variable {h : Header} (w : h.WellNested)
include w

theorem openLoops_succ {n : Nat} {l : Line} (hl : h.lines[n]? = some l) :
    openLoops h.lines (n + 1) = (match l.command.bracket with
      | .opens .loop => n :: openLoops h.lines n
      | .closes .loop => (openLoops h.lines n).tail
      | _ => openLoops h.lines n) := by
  rw [openLoops, openBlocks_succ hl]
  exact (w.fits n l hl).loopsOf_apply n

/-- A search over a chain that starts inside of a block, and of as many others of
its kind as the search has counted, stops at a line of that block. -/
theorem distance_spec (kind : Chain) {p q o : Nat} {inner outer : List Opened}
    (hp : p ≤ h.lines.length)
    (hb : openBlocks h.lines p = inner ++ (kind.blockKind, o) :: outer)
    (hq : q = p + Scan.distance kind.role (inner.countP (·.1 = kind.blockKind))
      (h.lines.drop p)) :
    openBlocks h.lines q = (kind.blockKind, o) :: outer ∧
      ∃ l, h.lines[q]? = some l ∧ (l.command.bracket = .divides kind.blockKind ∨
        l.command.bracket = .closes kind.blockKind) := by
  generalize hd : h.lines.drop p = rest at hq
  induction rest generalizing p inner with
  | nil =>
      have hlen : p = h.lines.length := Nat.le_antisymm hp (List.drop_eq_nil_iff.mp hd)
      rw [hlen, w.ends] at hb
      simp at hb
  | cons l rest ih =>
      obtain ⟨hl, hlt, hrest⟩ := drop_eq_cons hd
      have hfits := w.fits p l hl
      rw [hb] at hfits
      by_cases hstop : inner = [] ∧ (l.command.bracket = .divides kind.blockKind ∨
          l.command.bracket = .closes kind.blockKind)
      · obtain ⟨rfl, he⟩ := hstop
        have hzero : q = p := by
          rw [hq, Scan.distance, kind.role_eq]
          rcases he with he | he <;> simp [he, Bracket.role]
        exact hzero ▸ ⟨hb, l, hl, he⟩
      · obtain ⟨inner', hafter, hdistance⟩ := hfits.pass hstop p
        refine ih hlt (by rw [openBlocks_succ hl, hb, hafter]) hrest ?_
        rw [hq, hdistance]
        omega

variable (kind : Chain) {p o : Nat} {outer : List Opened}

/-- The next dividing or closing line belongs to the block around the line after
the one where the search started. -/
theorem next_spec (hp : p < h.lines.length)
    (hb : openBlocks h.lines (p + 1) = (kind.blockKind, o) :: outer) :
    openBlocks h.lines (Scan.next kind.role h.lines p) = (kind.blockKind, o) :: outer ∧
      ∃ l, h.lines[Scan.next kind.role h.lines p]? = some l ∧
        (l.command.bracket = .divides kind.blockKind ∨
          l.command.bracket = .closes kind.blockKind) := by
  have hb' : openBlocks h.lines (p + 1) = [] ++ (kind.blockKind, o) :: outer := hb
  exact w.distance_spec kind hp hb' rfl

/-- The line after the end of a chain stands where the chain does. -/
theorem openBlocks_closer (hp : p < h.lines.length)
    (hb : openBlocks h.lines (p + 1) = (kind.blockKind, o) :: outer) :
    openBlocks h.lines (Scan.closer kind.role h.lines p + 1) = outer := by
  induction hn : h.lines.length - p using Nat.strongRecOn generalizing p with
  | ind n ih =>
      obtain ⟨hb', l, hl, he⟩ := w.next_spec kind hp hb
      have hlt := (List.getElem?_eq_some_iff.mp hl).1
      have hfar := Scan.lt_next kind.role h.lines p
      rw [closer_eq hl, kind.role_eq]
      rcases he with he | he <;> simp only [he, Bracket.role, if_true]
      · rw [if_neg (by decide)]
        refine ih _ (by omega) hlt ?_ rfl
        rw [openBlocks_succ hl, he, hb']
        rfl
      · rw [openBlocks_succ hl, he, hb']
        rfl

/-- The branch that is taken stands in the same loops as its chain. -/
theorem openLoops_taken {holds : Condition → Except Fault Bool} {l : Line} {dest : Nat}
    (hl : h.lines[p]? = some l) (hloops : openLoops h.lines (p + 1) = loopsOf outer)
    (hb : ∀ cond, kind.guard l.command = some cond →
      openBlocks h.lines (p + 1) = (kind.blockKind, o) :: outer)
    (ht : Scan.taken kind.role kind.guard holds h.lines p = .ok dest) :
    openLoops h.lines dest = loopsOf outer := by
  induction hn : h.lines.length - p using Nat.strongRecOn generalizing p l with
  | ind n ih =>
      rw [taken_eq hl] at ht
      split at ht
      · obtain rfl := Except.ok.inj ht
        exact hloops
      · next cond hg =>
          split at ht
          · contradiction
          · obtain rfl := Except.ok.inj ht
            exact hloops
          · have hp := (List.getElem?_eq_some_iff.mp hl).1
            obtain ⟨hb', l', hl', he⟩ := w.next_spec kind hp (hb cond hg)
            have hfar := Scan.lt_next kind.role h.lines p
            have hloop := kind.blockKind_ne_loop
            refine ih _ (by omega) hl' ?_ (fun cond' hg' => ?_) ht rfl
            · rw [openLoops, openBlocks_succ hl', hb']
              rcases he with he | he <;> rw [he]
              · exact loopsOf_cons_of_ne hloop o outer
              · rfl
            · rw [openBlocks_succ hl', hb']
              rcases he with he | he
              · rw [he]
                rfl
              · rcases kind.bracket_of_guard hg' with he' | he' <;> simp [he'] at he

/-- Leaving the innermost loop leads to where that loop stands. -/
theorem openLoops_pastLoop {rest : List Nat} (hp : p < h.lines.length)
    (hloops : rest <:+ openLoops h.lines (p + 1)) :
    openLoops h.lines (Scan.pastLoop h.lines p rest.length) = rest := by
  unfold Scan.pastLoop
  generalize hd : h.lines.drop (p + 1) = ls
  replace hp : p + 1 ≤ h.lines.length := hp
  generalize p + 1 = q at hd hp hloops
  induction ls generalizing q with
  | nil =>
      have hlen : q = h.lines.length := Nat.le_antisymm hp (List.drop_eq_nil_iff.mp hd)
      have hend : openLoops h.lines q = [] := by rw [hlen, openLoops, w.ends]; rfl
      rw [hend] at hloops
      simp [hend, List.suffix_nil.mp hloops]
  | cons l ls ih =>
      obtain ⟨hl, hlt, hrest⟩ := drop_eq_cons hd
      have hdepth := w.depth q l hl
      obtain ⟨inner, hinner⟩ := hloops
      cases inner with
      | nil =>
          rw [List.nil_append] at hinner
          rw [List.takeWhile_cons_of_neg (by simp [hdepth, hinner])]
          simp [hinner]
      | cons o inner =>
          have hdeep : rest.length < l.depth := by
            rw [hdepth, ← hinner, List.length_append, List.length_cons]
            omega
          rw [List.takeWhile_cons_of_pos (by simpa using hdeep)]
          have hsuffix : rest <:+ openLoops h.lines (q + 1) := by
            rw [w.openLoops_succ hl, ← hinner]
            split
            · exact ⟨q :: o :: inner, rfl⟩
            · exact ⟨inner, rfl⟩
            · exact ⟨o :: inner, rfl⟩
          rw [List.length_cons, ← Nat.add_assoc, Nat.add_right_comm]
          exact ih (q + 1) hrest hlt hsuffix

end Header.WellNested

end Switchboard
