import Mathlib.Logic.Function.Iterate
import Switchboard.Proofs.Script.Closing

/-!
# Switchboard.Proofs.Script.Matching

The lines of a block, and the searches that find them.

1. A line divides or closes a block if the block is the innermost one that is
   open there (`ActsOn`).  A block that is open has been so from its first line on
   (`mem_openBlocks_of_le`), and is closed by one line only (`ActsOn.unique`).
2. In a well-nested header, the search over a chain goes from the head of an arm to
   the next line that divides or closes the same block, and on to the line that
   closes it; the search for the end of a loop leads behind its last line.
3. Whatever the lines are, a search that starts among them goes forward, not
   beyond their end, and in no more rounds than there are lines left.
-/

namespace Switchboard

/-! ## the lines of a block -/

/-- Line `n` does something to a block: that block is the innermost there. -/
structure ActsOn (lines : List Line) (bracket : BlockKind → Bracket) (block : Opened) (n : Nat) :
    Prop where
  line : ∃ l, lines[n]? = some l ∧ l.command.bracket = bracket block.1
  innermost : (openBlocks lines n).head? = some block

/-- Line `n` stands in front of an arm of a block: it begins the block, or divides it. -/
def HeadsArm (lines : List Line) (block : Opened) (n : Nat) : Prop :=
  (n = block.2 ∧ ∃ l, lines[n]? = some l ∧ l.command.bracket = .opens block.1) ∨
    ActsOn lines .divides block n

/-- Line `q` is the first after line `n` that divides or closes a block. -/
structure NextOf (lines : List Line) (block : Opened) (n q : Nat) : Prop where
  after : n < q
  acts : ActsOn lines .divides block q ∨ ActsOn lines .closes block q
  first : ∀ r, n < r → r < q → ¬(ActsOn lines .divides block r ∨ ActsOn lines .closes block r)

/-- Line `q` closes a block, after line `n`, and no other line does. -/
structure CloserOf (lines : List Line) (block : Opened) (n q : Nat) : Prop where
  after : n < q
  closes : ActsOn lines .closes block q
  only : ∀ r, ActsOn lines .closes block r → r = q

section
variable {lines : List Line} {block : Opened} {m n : Nat}

theorem mem_openBlocks_succ (h : block ∈ openBlocks lines (n + 1)) :
    block ∈ openBlocks lines n ∨ block.2 = n := by
  cases hl : lines[n]? with
  | none => exact .inl (by simpa [openBlocks, hl] using h)
  | some l =>
      rw [openBlocks_succ hl] at h
      cases hb : l.command.bracket with
      | opens kind =>
          rw [hb] at h
          rcases List.mem_cons.mp h with rfl | h
          · exact .inr rfl
          · exact .inl h
      | closes kind => exact .inl (List.mem_of_mem_tail (by rwa [hb] at h))
      | divides kind => exact .inl (by rwa [hb] at h)
      | none => exact .inl (by rwa [hb] at h)

/-- A block that is open has been open since its first line. -/
theorem mem_openBlocks_of_le (h : block ∈ openBlocks lines n) (hfirst : block.2 < m)
    (hmn : m ≤ n) : block ∈ openBlocks lines m := by
  induction hmn with
  | refl => exact h
  | @step n hmn ih =>
      rcases mem_openBlocks_succ h with h | h
      · exact ih h
      · have hm : m ≤ n := hmn
        omega

/-- Around a block that is open stand the blocks that were open at its first line. -/
theorem openBlocks_of_mem (h : block ∈ openBlocks lines n) :
    block.2 < n ∧ ∃ inner, openBlocks lines n = inner ++ block :: openBlocks lines block.2 := by
  obtain ⟨inner, outer, hb⟩ := List.append_of_mem h
  obtain ⟨hlt, -, houter⟩ := openBlocks_opener hb
  exact ⟨hlt, inner, by rw [houter, hb]⟩

theorem openBlocks_of_head? (h : (openBlocks lines n).head? = some block) :
    openBlocks lines n = block :: openBlocks lines block.2 := by
  obtain ⟨outer, hb⟩ := List.head?_eq_some_iff.mp h
  have hb' : openBlocks lines n = [] ++ block :: outer := hb
  obtain ⟨-, -, houter⟩ := openBlocks_opener hb'
  rw [houter, hb]

/-- A block that others are open inside of is not the innermost. -/
theorem ne_nil_of_openBlocks {inner outer : List Opened}
    (h : openBlocks lines n = inner ++ block :: outer)
    (hhead : (openBlocks lines n).head? = some block) : inner = [] := by
  obtain ⟨-, -, houter⟩ := openBlocks_opener h
  have hlen := congrArg List.length (h.symm.trans (openBlocks_of_head? hhead))
  rw [houter, List.length_append, List.length_cons] at hlen
  exact List.eq_nil_of_length_eq_zero (by omega)

/-- Behind the line that closes a block, the block is not open any more. -/
theorem ActsOn.not_mem (h : ActsOn lines .closes block n) (hmn : n < m) :
    block ∉ openBlocks lines m := by
  obtain ⟨⟨l, hl, hb⟩, hhead⟩ := h
  have hopen := openBlocks_of_head? hhead
  have hmem : block ∈ openBlocks lines n := hopen ▸ List.mem_cons_self
  intro hm
  have hnext := mem_openBlocks_of_le hm (Nat.lt_succ_of_lt (openBlocks_of_mem hmem).1) hmn
  rw [openBlocks_succ hl, hb, hopen] at hnext
  exact absurd (openBlocks_of_mem hnext).1 (Nat.lt_irrefl _)

/-- One line closes a block. -/
theorem ActsOn.unique (h : ActsOn lines .closes block n) (h' : ActsOn lines .closes block m) :
    m = n := by
  rcases Nat.lt_trichotomy m n with hlt | heq | hlt
  · exact absurd (List.mem_of_mem_head? h.innermost) (h'.not_mem hlt)
  · exact heq
  · exact absurd (List.mem_of_mem_head? h'.innermost) (h.not_mem hlt)

/-- Behind the head of an arm its block is the innermost. -/
theorem HeadsArm.openBlocks_succ (h : HeadsArm lines block n) :
    n < lines.length ∧ openBlocks lines (n + 1) = block :: openBlocks lines block.2 := by
  rcases h with ⟨rfl, l, hl, hb⟩ | ⟨⟨l, hl, hb⟩, hhead⟩
  · exact ⟨(List.getElem?_eq_some_iff.mp hl).1, by rw [Switchboard.openBlocks_succ hl, hb]; rfl⟩
  · refine ⟨(List.getElem?_eq_some_iff.mp hl).1, ?_⟩
    rw [Switchboard.openBlocks_succ hl, hb]
    exact openBlocks_of_head? hhead

end

/-! ## searches over a chain -/

namespace Header.WellNested

variable {h : Header} (w : h.WellNested) (kind : Chain) {p o : Nat}
include w

/-- In front of the line where a search over a chain stops, no line divides or closes the
block. By induction on the lines that are left, as `distance_spec`. -/
theorem distance_first {p q r : Nat} {inner outer : List Opened}
    (hp : p ≤ h.lines.length)
    (hb : openBlocks h.lines p = inner ++ (kind.blockKind, o) :: outer)
    (hq : q = p + Scan.distance kind.role (inner.countP (·.1 = kind.blockKind))
      (h.lines.drop p)) (hpr : p ≤ r) (hrq : r < q) :
    ¬(ActsOn h.lines .divides (kind.blockKind, o) r ∨
      ActsOn h.lines .closes (kind.blockKind, o) r) := by
  generalize hd : h.lines.drop p = rest at hq
  induction rest generalizing p inner with
  | nil =>
      have hlen : p = h.lines.length := Nat.le_antisymm hp (List.drop_eq_nil_iff.mp hd)
      rw [hlen, w.ends] at hb
      simp at hb
  | cons l rest ih =>
      obtain ⟨hl, hlt, hrest⟩ := drop_eq_cons hd
      have hfits := w.fits p l hl
      rw [hb] at hfits
      by_cases hstop : inner = [] ∧ (l.command.bracket = .divides kind.blockKind ∨
          l.command.bracket = .closes kind.blockKind)
      · have hzero : q = p := by
          rw [hq, hstop.1, Scan.distance, kind.role_eq]
          rcases hstop.2 with he | he <;> simp [he, Bracket.role]
        omega
      · obtain ⟨inner', hafter, hdistance⟩ := hfits.pass hstop p
        rcases Nat.eq_or_lt_of_le hpr with rfl | hlater
        · intro hacts
          refine hstop ?_
          rcases hacts with ⟨⟨l', hl', he⟩, hhead⟩ | ⟨⟨l', hl', he⟩, hhead⟩ <;>
            obtain rfl := Option.some.inj (hl.symm.trans hl')
          · exact ⟨ne_nil_of_openBlocks hb hhead, .inl he⟩
          · exact ⟨ne_nil_of_openBlocks hb hhead, .inr he⟩
        · refine ih hlt (by rw [openBlocks_succ hl, hb, hafter]) hlater hrest ?_
          rw [hq, hdistance]
          omega

/-- From the head of an arm a search leads to the next line of the block. -/
theorem nextOf (hn : HeadsArm h.lines (kind.blockKind, o) p) :
    NextOf h.lines (kind.blockKind, o) p (Scan.next kind.role h.lines p) := by
  obtain ⟨hp, hb⟩ := hn.openBlocks_succ
  obtain ⟨hq, l, hl, he⟩ := w.next_spec kind hp hb
  have hhead : (openBlocks h.lines (Scan.next kind.role h.lines p)).head? =
      some (kind.blockKind, o) := by rw [hq]; rfl
  refine ⟨Scan.lt_next _ _ _, he.imp (⟨⟨l, hl, ·⟩, hhead⟩) (⟨⟨l, hl, ·⟩, hhead⟩), ?_⟩
  intro r hpr hrq
  have hb' : openBlocks h.lines (p + 1) = [] ++ (kind.blockKind, o) :: _ := hb
  exact w.distance_first kind hp hb' rfl hpr hrq

/-- From the head of an arm the search goes on to the line that closes the block. -/
theorem closerOf (hn : HeadsArm h.lines (kind.blockKind, o) p) :
    CloserOf h.lines (kind.blockKind, o) p (Scan.closer kind.role h.lines p) := by
  have hcloses : ActsOn h.lines .closes (kind.blockKind, o) (Scan.closer kind.role h.lines p) := by
    induction hlen : h.lines.length - p using Nat.strongRecOn generalizing p with
    | ind n ih =>
        obtain ⟨hfar, hacts, -⟩ := w.nextOf kind hn
        have hp := hn.openBlocks_succ.1
        rcases hacts with hacts | hacts <;> obtain ⟨l, hl, he⟩ := hacts.line <;>
          rw [closer_eq hl, kind.role_eq, he] <;> simp only [Bracket.role, if_true]
        · rw [if_neg (by decide)]
          exact ih _ (by omega) (.inr hacts) rfl
        · exact hacts
  exact ⟨Scan.lt_closer _ _ _, hcloses, fun r hr => hcloses.unique hr⟩

/-! ## searches for the end of a loop -/

/-- A line that closes a loop closes it as the innermost block. -/
theorem acts_of_closesLoop {n : Nat} (hc : ClosesLoop h.lines o n) :
    ActsOn h.lines .closes (.loop, o) n := by
  obtain ⟨⟨l, hl, he⟩, hinner⟩ := hc
  obtain ⟨o', rest, hb⟩ := (w.fits n l hl).finds .loop (.inr he)
  have ho : o' = o := by simpa [openLoops, hb] using hinner
  exact ⟨⟨l, hl, he⟩, by rw [hb, ho]; rfl⟩

/-- Where the next line is not deeper, the search for the end of a loop stops at once. -/
theorem pastLoop_eq_succ {depth : Nat} (hd : (openLoops h.lines (p + 1)).length ≤ depth) :
    Scan.pastLoop h.lines p depth = p + 1 := by
  have hstop : ((h.lines.drop (p + 1)).takeWhile fun l => depth < l.depth) = [] := by
    cases hls : h.lines.drop (p + 1) with
    | nil => rfl
    | cons l ls =>
        obtain ⟨hl, -, -⟩ := drop_eq_cons hls
        rw [List.takeWhile_cons_of_neg]
        rw [w.depth (p + 1) l hl]
        simpa using hd
  rw [Scan.pastLoop, hstop]
  rfl

/-- From each line of a loop, the first and the last one included, the search for its end
leads behind the line that closes it. -/
theorem pastLoop_between {l : Line} (hl : h.lines[o]? = some l)
    (hopens : l.command.bracket = .opens .loop) :
    ∃ c, CloserOf h.lines (.loop, o) o c ∧
      ∀ p, o ≤ p → p ≤ c → Scan.pastLoop h.lines p l.depth = c + 1 := by
  obtain ⟨c, -, hoc, hlast⟩ := w.pastLoop_opener hl hopens
  have hcloses := w.acts_of_closesLoop hlast
  have hopen := openBlocks_of_head? hcloses.innermost
  obtain ⟨l', hl', he⟩ := hcloses.line
  refine ⟨c, ⟨hoc, hcloses, fun r hr => hcloses.unique hr⟩, fun p hop hpc => ?_⟩
  rw [w.depth o l hl]
  rcases Nat.eq_or_lt_of_le hpc with rfl | hlt
  · have hbehind : openBlocks h.lines (p + 1) = openBlocks h.lines o := by
      rw [openBlocks_succ hl', he, hopen]
      rfl
    exact w.pastLoop_eq_succ (by rw [openLoops, hbehind]; exact Nat.le_refl _)
  · have hmem : (BlockKind.loop, o) ∈ openBlocks h.lines c := hopen ▸ List.mem_cons_self
    obtain ⟨-, inner, hb⟩ :=
      openBlocks_of_mem (mem_openBlocks_of_le hmem (Nat.lt_succ_of_le hop) hlt)
    have hsuffix : o :: openLoops h.lines o <:+ openLoops h.lines (p + 1) := by
      refine ⟨loopsOf inner, ?_⟩
      rw [openLoops, openLoops, hb]
      simp [loopsOf]
    have hp : p < h.lines.length := Nat.lt_trans hlt (List.getElem?_eq_some_iff.mp hl').1
    obtain ⟨c', hpast, -, hlast'⟩ := w.pastLoop_closer hp hsuffix
    rw [hpast, hcloses.unique (w.acts_of_closesLoop hlast')]

end Header.WellNested

/-! ## searches over any lines -/

namespace Scan

theorem distance_le (role : Command → Role) (nesting : Nat) (lines : List Line) :
    distance role nesting lines ≤ lines.length := by
  induction lines generalizing nesting with
  | nil => exact Nat.le_refl _
  | cons l rest ih =>
      have hup := ih (nesting + 1)
      have hdown := ih (nesting - 1)
      have hsame := ih nesting
      rw [distance, List.length_cons]
      split
      · omega
      · split <;> omega
      · split <;> omega
      · omega

variable {lines : List Line} {start : Nat}

theorem next_le_length (role : Command → Role) (h : start < lines.length) :
    next role lines start ≤ lines.length := by
  have hdistance := distance_le role 0 (lines.drop (start + 1))
  rw [List.length_drop] at hdistance
  rw [next]
  omega

theorem pastLoop_le_length (depth : Nat) (h : start < lines.length) :
    pastLoop lines start depth ≤ lines.length := by
  have hskipped := (List.takeWhile_sublist (fun l : Line => depth < l.depth)
    (l := lines.drop (start + 1))).length_le
  rw [List.length_drop] at hskipped
  rw [pastLoop]
  omega

/-- The search for the line that closes a block is a search for the next line, made over and
over: each round goes forward, so that there are not more rounds than lines. -/
theorem closer_rounds (role : Command → Role) (h : start < lines.length) :
    closer role lines start ≤ lines.length ∧
      ∃ rounds, 0 < rounds ∧ start + rounds ≤ closer role lines start ∧
        closer role lines start = (next role lines)^[rounds] start := by
  have hfar := lt_next role lines
  have hlen := next_le_length role h
  induction start using closer.induct role lines with
  | case1 start at_ hlt hc =>
      rw [closer, dif_pos hlt, if_pos hc]
      exact ⟨hlen, 1, Nat.one_pos, hfar start, rfl⟩
  | case2 start at_ hlt hc ih =>
      rw [closer, dif_pos hlt, if_neg hc]
      obtain ⟨hle, rounds, -, hrounds, heq⟩ := ih hlt (next_le_length role hlt)
      have hround : start < at_ := hfar start
      refine ⟨hle, rounds + 1, Nat.succ_pos _, Nat.le_trans (by omega) hrounds, ?_⟩
      rw [heq, Function.iterate_succ_apply]
  | case3 start at_ hge =>
      rw [closer, dif_neg hge]
      exact ⟨hlen, 1, Nat.one_pos, hfar start, rfl⟩

end Scan

/-! ## all searches -/

/-- In the headers of an image without problems, searches find the lines of the block around
them; over any lines whatsoever, they end behind their start and not behind the last line. -/
theorem searches_find_blocks :
    (∀ (commands : Commands) (sources : List (String × String)) (h : Header),
      (compile commands sources).isClean = true → h ∈ (compile commands sources).image.headers →
      (∀ n, (openLoops h.lines n).length < Nest.depthBound) →
      (∀ (kind : Chain) (o n : Nat), HeadsArm h.lines (kind.blockKind, o) n →
        NextOf h.lines (kind.blockKind, o) n (Scan.next kind.role h.lines n) ∧
        CloserOf h.lines (kind.blockKind, o) n (Scan.closer kind.role h.lines n)) ∧
      ∀ (o : Nat) (l : Line), h.lines[o]? = some l → l.command.bracket = .opens .loop →
        ∃ c, CloserOf h.lines (.loop, o) o c ∧
          ∀ p, o ≤ p → p ≤ c → Scan.pastLoop h.lines p l.depth = c + 1) ∧
    ∀ (lines : List Line) (start : Nat), start < lines.length →
      (∀ role, start < Scan.next role lines start ∧ Scan.next role lines start ≤ lines.length ∧
        start < Scan.closer role lines start ∧ Scan.closer role lines start ≤ lines.length ∧
        ∃ rounds, 0 < rounds ∧ start + rounds ≤ lines.length ∧
          Scan.closer role lines start = (Scan.next role lines)^[rounds] start) ∧
      ∀ depth, start < Scan.pastLoop lines start depth ∧
        Scan.pastLoop lines start depth ≤ lines.length := by
  refine ⟨fun commands sources h hclean hh hbound => ?_, fun lines start hstart => ⟨?_, ?_⟩⟩
  · have w := wellNested_of_isClean hclean hh hbound
    exact ⟨fun kind o n hn => ⟨w.nextOf kind hn, w.closerOf kind hn⟩,
      fun o l hl hopens => w.pastLoop_between hl hopens⟩
  · intro role
    obtain ⟨hle, rounds, hpos, hrounds, heq⟩ := Scan.closer_rounds role hstart
    exact ⟨Scan.lt_next _ _ _, Scan.next_le_length role hstart, Scan.lt_closer _ _ _, hle,
      rounds, hpos, Nat.le_trans hrounds hle, heq⟩
  · exact fun depth => ⟨Scan.lt_pastLoop _ _ _, Scan.pastLoop_le_length depth hstart⟩

/-- A branch inside of a loop, with a choice inside of its first arm and a loop inside of
that one. -/
def nestedScript : List (String × String) :=
  [("main",
    "@main\n while 1\n if 1\n case 2\n otherwise\n do\n until 3\n endcase\n elif 4\n" ++
      " endif\n loop\n")]

/-- The header of the script. -/
def nestedHeader : Header :=
  let cond (text : String) : Condition := [⟨.first, false, .value (.literal text)⟩]
  ⟨"main", "main",
    [⟨.whileLoop (cond "1"), 0, 0, 2⟩, ⟨.branch (cond "1"), 1, 0, 3⟩,
      ⟨.choice (cond "2") true, 1, 0, 4⟩, ⟨.otherChoice, 1, 0, 5⟩, ⟨.doLoop, 1, 0, 6⟩,
      ⟨.untilLoop (cond "3"), 2, 0, 7⟩, ⟨.endChoice, 1, 0, 8⟩, ⟨.elseBranch (cond "4"), 1, 0, 9⟩,
      ⟨.endBranch, 1, 0, 10⟩, ⟨.endLoop, 1, 0, 11⟩], [], 0⟩

theorem searches_find_blocks_nested :
    (compile [] nestedScript).isClean = true ∧
      (compile [] nestedScript).image.headers = [nestedHeader] ∧
    NextOf nestedHeader.lines (.branch, 1) 1 7 ∧
      Scan.closer Chain.branch.role nestedHeader.lines 1 = 8 ∧
    NextOf nestedHeader.lines (.choice, 2) 2 3 ∧
      Scan.closer Chain.choice.role nestedHeader.lines 2 = 6 ∧
    (∀ p, 4 ≤ p → p ≤ 5 → Scan.pastLoop nestedHeader.lines p 1 = 6) ∧
    (let stray : List Line := [⟨.otherBranch, 7, 0, 1⟩, ⟨.otherBranch, 7, 0, 2⟩];
      Scan.closer Chain.branch.role stray 0 ≤ 2 ∧ Scan.pastLoop stray 0 3 ≤ 2) := by
  obtain ⟨hclean, himage⟩ : (compile [] nestedScript).isClean = true ∧
      (compile [] nestedScript).image.headers = [nestedHeader] := by decide +kernel
  obtain ⟨hblocks, hany⟩ := searches_find_blocks
  obtain ⟨hchains, hloops⟩ := hblocks [] nestedScript nestedHeader hclean
    (himage ▸ List.mem_singleton_self _)
    fun n => Nat.lt_of_le_of_lt (length_openLoops_le nestedHeader.lines n) (by decide)
  obtain ⟨hnext, hcloser⟩ := hchains .branch 1 1 (.inl ⟨rfl, _, rfl, rfl⟩)
  obtain ⟨hnext', hcloser'⟩ := hchains .choice 2 2 (.inl ⟨rfl, _, rfl, rfl⟩)
  obtain ⟨c, hc, hpast⟩ := hloops 4 _ rfl rfl
  obtain rfl := hc.only 5 ⟨⟨_, rfl, rfl⟩, rfl⟩
  obtain ⟨hrole, hdepth⟩ := hany [⟨.otherBranch, 7, 0, 1⟩, ⟨.otherBranch, 7, 0, 2⟩] 0 (by decide)
  exact ⟨hclean, himage, hnext, (hcloser.only 8 ⟨⟨_, rfl, rfl⟩, rfl⟩).symm, hnext',
    (hcloser'.only 6 ⟨⟨_, rfl, rfl⟩, rfl⟩).symm, hpast, (hrole _).2.2.2.1, (hdepth 3).2⟩

end Switchboard
