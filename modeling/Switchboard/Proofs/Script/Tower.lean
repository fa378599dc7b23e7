import Switchboard.Proofs.Program.Layout
import Switchboard.Proofs.Script.Outline
import Switchboard.Proofs.Script.Writing

/-!
# Switchboard.Proofs.Script.Tower

Loops in each other, any number of them.

1. A line that opens a loop counts the depth up; after `Nest.depthBound` such lines the
   count is nought again (`transcribes_openers`).
2. A line that closes a loop is accepted whatever the depth is (`transcribes_closers`).
3. So a source with any number of loops in each other compiles without problems, and the
   depths of the lines that open them are those of a count that wraps (`compile_tower`).
-/

namespace Switchboard

open Compiler

section
variable {commands : Commands} {n m k : Nest} {statements others : List (UInt32 × List Char)}
  {ls ms : List Line} {line : UInt32}

/-- Statements are read one part after the other. -/
theorem Transcribes.append (h : Transcribes commands n statements ls m)
    (h' : Transcribes commands m others ms k) :
    Transcribes commands n (statements ++ others) (ls ++ ms) k := by
  induction h with
  | nil n => exact h'
  | cons hread _ ih => exact .cons hread (ih h')

/-- A loop that has no pass is opened. -/
theorem read_repeat_zero :
    Token.tokenize "repeat 0".toList >>= Statement.read commands n line =
      .ok ⟨.repeatLoop (.literal "0"), 0, n.enterLoop false line⟩ := by
  have htokens : Token.tokenize "repeat 0".toList = .ok [.bare "repeat", .bare "0"] := by decide
  have hcount : Token.argument ⟨"0", false⟩ = .literal "0" := by decide +kernel
  rw [htokens]
  simp [Statement.read, Statement.simple, Statement.branching, Statement.looping, Token.bare,
    bind, Except.bind, pure, Except.pure, hcount]

/-- The innermost block is closed, if it is a loop. -/
theorem read_loop {untilAllowed : Bool} (h : n.innermost? = some (.loop untilAllowed)) :
    Token.tokenize "loop".toList >>= Statement.read commands n line =
      .ok ⟨.endLoop, 0, n.closeLoop⟩ := by
  have htokens : Token.tokenize "loop".toList = .ok [.bare "loop"] := by decide
  rw [htokens]
  simp [Statement.read, Statement.simple, Statement.branching, Statement.looping, Token.bare,
    bind, Except.bind, pure, Except.pure, h]

/-- The blocks after lines that open a loop each. -/
def Nest.deepened (n : Nest) : List UInt32 → Nest
  | [] => n
  | line :: lines => (n.enterLoop false line).deepened lines

/-- Each of the lines has opened its loop. -/
theorem Nest.blocks_deepened (n : Nest) (lines : List UInt32) :
    (n.deepened lines).blocks =
      lines.reverse.map (fun line => (.loop false, line)) ++ n.blocks := by
  induction lines generalizing n with
  | nil => rfl
  | cons line lines ih =>
      rw [deepened, ih, enterLoop, List.reverse_cons, List.map_append, List.append_assoc]
      rfl

/-- Lines that open a loop each are accepted, and their depths are counted up to the bound,
and from nought again. -/
theorem transcribes_openers (commands : Commands) (hdepth : n.depth < Nest.depthBound)
    (h : ∀ x ∈ statements, x.2 = "repeat 0".toList) :
    ∃ ls, Transcribes commands n statements ls (n.deepened (statements.map Prod.fst)) ∧
      ls.map Line.shape = (List.range statements.length).map fun i =>
        (.repeatLoop (.literal "0"), (n.depth + i) % Nest.depthBound) := by
  induction statements generalizing n with
  | nil => exact ⟨[], .nil n, rfl⟩
  | cons x statements ih =>
      obtain ⟨line, text⟩ := x
      obtain ⟨rfl, hrest⟩ := List.forall_mem_cons.mp h
      have hnext : (n.enterLoop false line).depth < Nest.depthBound := Nat.mod_lt _ (by decide)
      obtain ⟨ls, htranscribes, hshapes⟩ := ih hnext hrest
      refine ⟨_, .cons read_repeat_zero htranscribes, ?_⟩
      have hdepths (i : Nat) : ((n.enterLoop false line).depth + i) % Nest.depthBound =
          (n.depth + (i + 1)) % Nest.depthBound := by
        rw [Nest.enterLoop, Nat.mod_add_mod, Nat.add_right_comm, Nat.add_assoc]
      rw [List.map_cons, hshapes, List.length_cons, List.range_succ_eq_map, List.map_cons,
        List.map_map, Nat.add_zero, Nat.mod_eq_of_lt hdepth]
      simp only [hdepths]
      rfl

/-- Lines that close a loop each are accepted where so many loops are innermost. -/
theorem transcribes_closers (commands : Commands) {loops outer : List (Block × UInt32)}
    (hblocks : n.blocks = loops ++ outer) (hloops : ∀ b ∈ loops, b.1 = .loop false)
    (hlength : loops.length = statements.length) (h : ∀ x ∈ statements, x.2 = "loop".toList) :
    ∃ ls m, Transcribes commands n statements ls m ∧ m.blocks = outer := by
  induction statements generalizing n loops with
  | nil =>
      obtain rfl := List.length_eq_zero_iff.mp hlength
      exact ⟨[], n, .nil n, hblocks⟩
  | cons x statements ih =>
      obtain ⟨line, text⟩ := x
      obtain ⟨rfl, hrest⟩ := List.forall_mem_cons.mp h
      cases loops with
      | nil => contradiction
      | cons b loops =>
          obtain ⟨hb, hloops⟩ := List.forall_mem_cons.mp hloops
          have hinner : n.innermost? = some (.loop false) := by
            rw [Nest.innermost?, hblocks, List.cons_append, List.head?_cons, Option.map_some, hb]
          have hnext : n.closeLoop.blocks = loops ++ outer := by
            rw [Nest.closeLoop, hblocks, List.cons_append, List.tail_cons]
          obtain ⟨ls, m, htranscribes, hm⟩ := ih hnext hloops (Nat.succ.inj hlength) hrest
          exact ⟨_, m, .cons (read_loop hinner) htranscribes, hm⟩

end

/-- A header with more lines has the name that it had. -/
theorem Header.name_foldl_push (h : Header) (ls : List Line) :
    (ls.foldl Header.push h).name = h.name := by
  induction ls generalizing h with
  | nil => rfl
  | cons l ls ih => exact ih (h.push l)

/-- Lines are pushed one after the other. -/
theorem Header.lines_foldl_push (h : Header) (ls : List Line) :
    (ls.foldl Header.push h).lines = h.lines ++ ls := by
  induction ls generalizing h with
  | nil => exact (List.append_nil _).symm
  | cons l ls ih =>
      rw [List.foldl_cons, ih, Header.push, List.append_assoc]
      rfl

/-! ## sources -/

/-- A source with so many loops in each other, none of which has a pass. -/
def towerSource (height : Nat) : String :=
  String.ofList (['\n'].intercalate ("@main".toList ::
    (List.replicate height "repeat 0".toList ++ List.replicate height "loop".toList)))

/-- The lines of the source, and what they are. -/
theorem sourceLines_tower (height : Nat) : ∃ line raw openers closers,
    sourceLines (towerSource height) = (line, raw) :: (openers ++ closers) ∧
      Entry.ofLine raw = .header "main".toList ∧
      openers.map (Entry.ofLine ·.2) = List.replicate height (.statement "repeat 0".toList) ∧
      closers.map (Entry.ofLine ·.2) = List.replicate height (.statement "loop".toList) := by
  have hfeeds : ∀ line ∈ "@main".toList :: (List.replicate height "repeat 0".toList ++
      List.replicate height "loop".toList), '\n' ∉ line := by
    intro line hline
    simp only [List.mem_cons, List.mem_append, List.mem_replicate] at hline
    rcases hline with rfl | ⟨-, rfl⟩ | ⟨-, rfl⟩ <;> decide
  have hlines : ("@main".toList :: (List.replicate height "repeat 0".toList ++
        List.replicate height "loop".toList)).map Entry.ofLine =
      .header "main".toList :: (List.replicate height (.statement "repeat 0".toList) ++
        List.replicate height (.statement "loop".toList)) := by
    simp only [List.map_cons, List.map_append, List.map_replicate]
    rfl
  have hentries : (sourceLines (towerSource height)).map (Entry.ofLine ·.2) =
      .header "main".toList :: (List.replicate height (.statement "repeat 0".toList) ++
        List.replicate height (.statement "loop".toList)) := by
    rw [← hlines]
    rcases map_sourceLines (List.cons_ne_nil _ _) hfeeds with heq | heq
    · exact heq
    · -- no line is skipped
      have hskipped := heq ▸ List.mem_append_right _ (List.mem_singleton_self Entry.skipped)
      rw [hlines] at hskipped
      simp [List.mem_replicate] at hskipped
  obtain ⟨first, rest, hsource, hfirst, hrest⟩ := List.map_eq_cons_iff.mp hentries
  obtain ⟨openers, closers, rfl, hopeners, hclosers⟩ := List.map_eq_append_iff.mp hrest
  exact ⟨first.1, first.2, openers, closers, hsource, hfirst, hopeners, hclosers⟩

/-- Lines that are all the same statement. -/
theorem loose_of_replicate {lines : List (UInt32 × List Char)} {text : List Char} {k : Nat}
    (more : List (UInt32 × List Char))
    (h : lines.map (Entry.ofLine ·.2) = List.replicate k (.statement text)) :
    ∃ statements, loose (lines ++ more) = statements ++ loose more ∧ statements.length = k ∧
      ∀ x ∈ statements, x.2 = text := by
  induction lines generalizing k with
  | nil =>
      obtain rfl : 0 = k := by simpa using congrArg List.length h
      exact ⟨[], rfl, rfl, List.forall_mem_nil _⟩
  | cons l lines ih =>
      cases k with
      | zero => contradiction
      | succ k =>
          obtain ⟨hl, hlines⟩ := List.cons.inj h
          obtain ⟨statements, hloose, rfl, htexts⟩ := ih hlines
          refine ⟨(l.1, text) :: statements, ?_, rfl, List.forall_mem_cons.mpr ⟨rfl, htexts⟩⟩
          have hentry : Entry.ofLine l.2 = .statement text := hl
          rw [List.cons_append, loose, hentry, hloose]
          rfl

/-- Any number of loops stand in each other without a problem; their first lines come one
after the other, with depths that wrap. -/
theorem compile_tower (height : Nat) :
    (compile [] [("main", towerSource height)]).isClean = true ∧
      ∃ header, (compile [] [("main", towerSource height)]).image.headers = [header] ∧
        header.name = "main" ∧ ∀ i < height, ∃ l, header.lines[i]? = some l ∧
          l.command = .repeatLoop (.literal "0") ∧ l.depth = i % Nest.depthBound := by
  obtain ⟨line, raw, openers, closers, hsource, hraw, hopeners, hclosers⟩ :=
    sourceLines_tower height
  have hlines : ∀ l ∈ openers ++ closers, (Entry.ofLine l.2).isStatement = true := by
    rw [← List.forall_mem_map (P := fun e => Entry.isStatement e = true), List.map_append,
      hopeners, hclosers]
    intro e he
    simp only [List.mem_append, List.mem_replicate] at he
    rcases he with ⟨-, rfl⟩ | ⟨-, rfl⟩ <;> rfl
  obtain ⟨firsts, hloose, hheight, hfirsts⟩ := loose_of_replicate closers hopeners
  obtain ⟨lasts, hlast, hlasts, hclose⟩ := loose_of_replicate [] hclosers
  rw [List.append_nil, loose, List.append_nil] at hlast
  rw [hlast] at hloose
  obtain ⟨ls, hopened, hshapes⟩ :=
    transcribes_openers [] (n := .empty) (by decide) hfirsts
  have hloops : ∀ b ∈ (firsts.map Prod.fst).reverse.map fun line => (Block.loop false, line),
      b.1 = .loop false := by
    intro b hb
    obtain ⟨line, -, rfl⟩ := List.mem_map.mp hb
    rfl
  obtain ⟨ms, m, hclosed, hnil⟩ := transcribes_closers []
    (Nest.blocks_deepened .empty (firsts.map Prod.fst)) hloops (by simp [hheight, hlasts]) hclose
  obtain ⟨hclean, himage⟩ := compile_transcribes "main" hsource hraw (by decide) hlines
    (hloose ▸ hopened.append hclosed) hnil
  refine ⟨hclean, _, congrArg Image.headers himage, ?_, fun i hi => ?_⟩
  · rw [Header.name_foldl_push]
    decide
  · have hget := congrArg (·[i]?) hshapes
    simp only [List.getElem?_map, List.getElem?_range (hheight.symm ▸ hi), Option.map_some] at hget
    obtain ⟨l, hl, hshape⟩ := Option.map_eq_some_iff.mp hget
    obtain ⟨hcommand, hdepth⟩ := Prod.mk.inj hshape
    refine ⟨l, ?_, hcommand, hdepth.trans (congrArg (· % _) (Nat.zero_add i))⟩
    rw [Header.lines_foldl_push]
    exact List.getElem?_append_left (List.getElem?_eq_some_iff.mp hl).1 |>.trans hl

end Switchboard
