import Switchboard.Proofs.Script.Wording
import Switchboard.Proofs.Script.Section

/-!
# Switchboard.Proofs.Script.Header

Which headers are free of problems with blocks.

1. The lines of a header are words of the grammar of blocks: one for each
   statement, and one for each mark of a handler.
2. A statement is well formed if it is accepted in some place. Such a statement
   is refused only for the blocks around it.
3. If the words of a header can be read in order, its lines have the notes of
   that reading; if not, there is a problem with blocks (`readLines_blocks`).
4. So a header of well-formed statements has no such problem exactly if its words
   are derived, and then the derivation says at which depth each line stands and
   which lines open a choice: `compile_blocks_iff_derives`.
-/

namespace Switchboard

open Grammar Compiler

/-! ## words of lines -/

/-- The word of a statement. -/
def Statement.word (text : List Char) : Word :=
  match Token.tokenize text with
  | .ok (first :: _) => .ofKeyword first.text
  | _ => .plain

/-- The word of a line, unless the line is skipped. -/
def Compiler.Entry.word? : Entry → Option Word
  | .event _ => some .event
  | .statement text => some (Statement.word text)
  | _ => none

/-- The words of lines. -/
def wordsOf (lines : List (UInt32 × List Char)) : List Word :=
  lines.filterMap fun l => (Entry.ofLine l.2).word?

/-- The words of a header. -/
def SourceHeader.words (h : SourceHeader) : List Word := wordsOf h.body

/-! ## well-formed statements -/

/-- A statement that is accepted in some place. -/
def Statement.WellFormed (commands : Commands) (text : List Char) : Prop :=
  ∃ nest line accepted,
    Token.tokenize text >>= Statement.read commands nest line = .ok accepted

/-- All statements of a header are accepted, each of them in some place. -/
def SourceHeader.WellFormed (commands : Commands) (h : SourceHeader) : Prop :=
  ∀ l ∈ h.body, ∀ text, Entry.ofLine l.2 = .statement text → Statement.WellFormed commands text

/-- Whether a line is accepted inside some blocks, if it is a statement. -/
def Compiler.Entry.acceptedIn (commands : Commands) (nest : Nest) : Entry → Bool
  | .statement text => (Token.tokenize text >>= Statement.read commands nest 1).isOk
  | _ => true

/-- It is enough to try some places, if every statement is accepted in one of
them. -/
theorem SourceHeader.wellFormed_of_places {commands : Commands} {h : SourceHeader}
    (places : List Nest)
    (haccepted : ∀ l ∈ h.body, ∃ nest ∈ places,
      (Entry.ofLine l.2).acceptedIn commands nest = true) : h.WellFormed commands := by
  intro l hl text ht
  obtain ⟨nest, -, hn⟩ := haccepted l hl
  rw [ht, Entry.acceptedIn] at hn
  cases hr : Token.tokenize text >>= Statement.read commands nest 1 with
  | ok a => exact ⟨nest, 1, a, hr⟩
  | error p =>
      rw [hr] at hn
      cases hn

/-- A well-formed statement is read as its word. -/
theorem Statement.WellFormed.fits {commands : Commands} {text : List Char}
    (h : WellFormed commands text) (nest : Nest) (line : UInt32) :
    Fits nest (word text) ((Token.tokenize text >>= read commands nest line).map
      fun a => some (a.command, a.nest)) := by
  obtain ⟨nest₀, line₀, a, h⟩ := h
  obtain ⟨tokens, ht, h⟩ := ok_of_bind h
  match tokens, h with
  | first :: rest, h =>
    have hw : word text = .ofKeyword first.text := by rw [word, ht]
    rw [hw, ht]
    exact read_fits h nest line

/-! ## depths -/

/-- Where the loops do not reach the bound, the depth is their number. -/
def Nest.Counts (n : Nest) : Prop := loops n.opened < Nest.depthBound → n.depth = loops n.opened

/-- One case for each word: the first word of a loop adds one, the last one
takes one away. -/
theorem depthAfter_eq {blocks next : List Block} {w : Word} (h : step? blocks w = some next)
    (hbound : loops next < Nest.depthBound) : w.depthAfter (loops blocks) = loops next := by
  cases w with
  | doLoop | loop =>
      cases h
      rw [loops_loop] at hbound ⊢
      exact Nat.mod_eq_of_lt hbound
  | plain | branch =>
      cases h
      rfl
  | event =>
      obtain ⟨-, rfl⟩ : blocks = [] ∧ blocks = next := by simpa [step?] using h
      rfl
  | leave =>
      obtain ⟨-, rfl⟩ : 0 < loops blocks ∧ blocks = next := by simpa [step?] using h
      rfl
  | elseBranch | otherBranch | endBranch | choice | otherChoice | endChoice =>
      simp only [step?] at h
      split at h <;> cases h <;> rfl
  | endLoop | untilLoop =>
      simp only [step?] at h
      split at h <;> cases h
      rw [loops_loop]
      rfl

theorem Nest.Counts.step {n n' : Nest} {w : Word} (h : n.Counts)
    (hbound : loops n.opened < Nest.depthBound) (hs : step? n.opened w = some n'.opened)
    (hd : n'.depth = w.depthAfter n.depth) : n'.Counts := fun hbound' => by
  rw [hd, h hbound, depthAfter_eq hs hbound']

/-! ## one line -/

/-- No command is the mark of a handler. -/
theorem Command.word_ne_event (c : Command) : c.word ≠ .event := by
  cases c <;> exact nofun

/-- A line was read that adds a word: nothing is reported, and the blocks and
the lines of the header are those of the word. -/
structure Advances (d d' : Draft) (s s' : Section) (w : Word) : Prop where
  current : d'.current = some s'
  done : d'.done = d.done
  diagnostics : d'.diagnostics = d.diagnostics
  opened : step? s.nest.opened w = some s'.nest.opened
  depth : s'.nest.depth = w.depthAfter s.nest.depth
  lines : s'.header.lines.map Line.mark =
    s.header.lines.map Line.mark ++
      if w = .event then [] else [⟨w, s.nest.depth, (mark s.nest.opened w).opens⟩]

section Lines

variable {commands : Commands} (file : String) {d : Draft} {s : Section}

theorem addStatement_blocks {text : List Char} (hwf : Statement.WellFormed commands text)
    (line : UInt32) :
    (∃ s', Advances d (addStatement commands d s file line text) s s' (Statement.word text)) ∨
    step? s.nest.opened (Statement.word text) = none ∧
      ∃ p, p.isBlock = true ∧ addStatement commands d s file line text = d.report file line p := by
  have hfits := hwf.fits s.nest line
  unfold Statement.Fits at hfits
  unfold addStatement
  cases hr : Token.tokenize text >>= Statement.read commands s.nest line with
  | error p =>
      rw [hr] at hfits
      cases hn : step? s.nest.opened (Statement.word text) with
      | some next =>
          rw [hn] at hfits
          obtain ⟨command, after, h, -⟩ := hfits
          cases h
      | none =>
          rw [hn] at hfits
          obtain ⟨q, h, hq⟩ := hfits
          cases h
          exact .inr ⟨rfl, p, hq, rfl⟩
  | ok a =>
      rw [hr] at hfits
      cases hn : step? s.nest.opened (Statement.word text) with
      | none =>
          rw [hn] at hfits
          obtain ⟨q, h, -⟩ := hfits
          cases h
      | some next =>
          rw [hn] at hfits
          obtain ⟨command, after, h, hb, hd, hw, ho⟩ := hfits
          cases h
          refine .inl ⟨⟨s.header.push ⟨a.command, s.nest.depth, a.mask, line⟩, a.nest⟩,
            rfl, rfl, rfl, hn.trans (congrArg some hb.symm), hd, ?_⟩
          have hne : Statement.word text ≠ .event := hw ▸ a.command.word_ne_event
          rw [if_neg hne, Header.push, List.map_append, ← ho, ← hw]
          rfl

theorem markEvent_blocks (line : UInt32) (text : List Char) :
    (∃ s', Advances d (markEvent d s file line text) s s' .event) ∨
    step? s.nest.opened .event = none ∧
      ∃ p, p.isBlock = true ∧ markEvent d s file line text = d.report file line p := by
  unfold markEvent
  dsimp only
  cases hb : s.nest.blocks with
  | nil =>
      have houtside : s.nest.opened = [] := by rw [Nest.opened, hb]; rfl
      have hinnermost : s.nest.innermost? = none := by rw [Nest.innermost?, hb]; rfl
      rw [hinnermost]
      exact .inl ⟨_, rfl, rfl, rfl, if_pos houtside, rfl, (List.append_nil _).symm⟩
  | cons b outer =>
      have hinside : s.nest.opened ≠ [] := by rw [Nest.opened, hb]; exact List.cons_ne_nil _ _
      have hinnermost : s.nest.innermost? = some b.1 := by rw [Nest.innermost?, hb]; rfl
      rw [hinnermost]
      exact .inr ⟨if_neg hinside, _, rfl, rfl⟩

theorem readLine_skipped {raw : List Char} (halone : (Entry.ofLine raw).isHeader = false)
    (hw : (Entry.ofLine raw).word? = none) (line : UInt32) :
    readLine commands file d line raw = d := by
  rw [readLine_eq]
  cases he : Entry.ofLine raw with
  | skipped => rfl
  | header mark =>
      rw [he] at halone
      cases halone
  | event | statement =>
      rw [he] at hw
      cases hw

/-- A line of a header adds its word, or is refused for the blocks around it. -/
theorem readLine_blocks {raw : List Char} {w : Word} (hs : d.current = some s)
    (hw : (Entry.ofLine raw).word? = some w)
    (hwf : ∀ text, Entry.ofLine raw = .statement text → Statement.WellFormed commands text)
    (line : UInt32) :
    (∃ s', Advances d (readLine commands file d line raw) s s' w) ∨
    step? s.nest.opened w = none ∧
      ∃ p, p.isBlock = true ∧ readLine commands file d line raw = d.report file line p := by
  rw [readLine_eq, hs]
  cases he : Entry.ofLine raw with
  | skipped | header =>
      rw [he] at hw
      cases hw
  | event text =>
      rw [he] at hw
      cases hw
      exact markEvent_blocks file line text
  | statement text =>
      rw [he] at hw
      cases hw
      exact addStatement_blocks file (hwf text he) line

/-! ## the lines of a header -/

/-- The words of lines can be read from some open blocks on, and the lines have
the notes of that reading. -/
structure Accepts (d d' : Draft) (s s' : Section) (words : List Word) : Prop where
  diagnostics : d'.diagnostics = d.diagnostics
  runs : ∃ ms, Runs s.nest.opened ms s'.nest.opened ∧ ms.map Mark.word = words ∧
    (s.nest.Counts → (∀ m ∈ ms, m.depth < Nest.depthBound) →
      s'.header.lines.map Line.mark =
        s.header.lines.map Line.mark ++ ms.filter (·.word != .event))

/-- The words of lines cannot be read from some open blocks on, and a problem
with blocks is reported. -/
structure Refuses (d' : Draft) (s : Section) (words : List Word) : Prop where
  reported : ∃ x ∈ d'.diagnostics, x.problem.isBlock = true
  stuck : ∀ ms last, Runs s.nest.opened ms last → ms.map Mark.word ≠ words

/-- One more word in front of words that are accepted. -/
theorem Advances.accepts {d d' d'' : Draft} {s s' s'' : Section} {w : Word} {words : List Word}
    (h : Advances d d' s s' w) (hrest : Accepts d' d'' s' s'' words) :
    Accepts d d'' s s'' (w :: words) := by
  obtain ⟨ms, hruns, hw, hl⟩ := hrest.runs
  refine ⟨hrest.diagnostics.trans h.diagnostics, mark s.nest.opened w :: ms, .cons h.opened hruns,
    congrArg (w :: ·) hw, fun hcounts hbound => ?_⟩
  have hhere : loops s.nest.opened < Nest.depthBound := hbound _ List.mem_cons_self
  have hthere := hl (hcounts.step hhere h.opened h.depth) fun m hm => hbound m (.tail _ hm)
  rw [hthere, h.lines, hcounts hhere, List.append_assoc]
  by_cases hevent : w = .event <;> simp [hevent, mark]

/-- One more word in front of words that are refused. -/
theorem Advances.refuses {d d' d'' : Draft} {s s' : Section} {w : Word} {words : List Word}
    (h : Advances d d' s s' w) (hrest : Refuses d'' s' words) : Refuses d'' s (w :: words) := by
  refine ⟨hrest.reported, fun ms last hruns hw => ?_⟩
  obtain ⟨next, ms', hstep, hruns, -, hw⟩ := hruns.uncons hw
  obtain rfl := Option.some.inj (h.opened.symm.trans hstep)
  exact hrest.stuck ms' last hruns hw

/-- By induction on the lines. -/
theorem readLines_blocks {lines : List (UInt32 × List Char)} (hs : d.current = some s)
    (halone : ∀ l ∈ lines, (Entry.ofLine l.2).isHeader = false)
    (hwf : ∀ l ∈ lines, ∀ text, Entry.ofLine l.2 = .statement text →
      Statement.WellFormed commands text) :
    ∃ s', (readLines commands file d lines).current = some s' ∧
      (readLines commands file d lines).done = d.done ∧
      (Accepts d (readLines commands file d lines) s s' (wordsOf lines) ∨
        Refuses (readLines commands file d lines) s (wordsOf lines)) := by
  induction lines generalizing d s with
  | nil =>
      refine ⟨s, hs, rfl, .inl ⟨rfl, [], .nil, rfl, fun _ _ => (List.append_nil _).symm⟩⟩
  | cons l rest ih =>
      have halone' := fun l hl => halone l (List.mem_cons_of_mem _ hl)
      have hwf' := fun l hl => hwf l (List.mem_cons_of_mem _ hl)
      have hread : readLines commands file d (l :: rest) =
        readLines commands file (readLine commands file d l.1 l.2) rest := rfl
      rw [hread]
      cases hw : (Entry.ofLine l.2).word? with
      | none =>
          have hwords : wordsOf (l :: rest) = wordsOf rest := by simp [wordsOf, hw]
          rw [readLine_skipped file (halone l List.mem_cons_self) hw, hwords]
          exact ih hs halone' hwf'
      | some w =>
          have hwords : wordsOf (l :: rest) = w :: wordsOf rest := by simp [wordsOf, hw]
          rw [hwords]
          obtain ⟨s₁, h⟩ | ⟨hstuck, p, hp, he⟩ :=
            readLine_blocks file hs hw (hwf l List.mem_cons_self) l.1
          · obtain ⟨s', hc, hd, hr⟩ := ih h.current halone' hwf'
            exact ⟨s', hc, hd.trans h.done, hr.imp h.accepts h.refuses⟩
          · rw [he]
            obtain ⟨s', hc, hd, -⟩ := ih (d := d.report file l.1 p) hs halone' hwf'
            refine ⟨s', hc, hd, .inr ⟨?_, fun ms last hruns hw => ?_⟩⟩
            · have hreported : ⟨file, l.1, p⟩ ∈ (d.report file l.1 p).diagnostics :=
                List.mem_append_right _ (List.mem_singleton_self _)
              have hkept := (Draft.Extends.refl (d.report file l.1 p)).readLines commands file rest
              exact ⟨_, hkept.diagnostics.subset hreported, hp⟩
            · obtain ⟨next, -, hstep, -⟩ := hruns.uncons hw
              rw [hstuck] at hstep
              cases hstep

end Lines

/-! ## a whole header -/

/-- The outermost open block is reported first. -/
theorem reportOpen_concat (d : Draft) (file : String) (blocks : List (Block × UInt32))
    (b : Block × UInt32) :
    d.reportOpen file (blocks ++ [b]) =
      (d.report file b.2 (.unterminated b.1.kind)).reportOpen file blocks := by
  simp [Draft.reportOpen]

/-- A header ends without a problem if no block is open, and else with a problem
with blocks. -/
theorem close_blocks {d : Draft} {s : Section} (hs : d.current = some s) (file : String) :
    (d.close file).done = d.done ++ [s.header] ∧
      (s.nest.opened = [] → (d.close file).diagnostics = d.diagnostics) ∧
      (s.nest.opened ≠ [] → ∃ x ∈ (d.close file).diagnostics, x.problem.isBlock = true) := by
  simp only [Draft.close, hs]
  refine ⟨congrArg (· ++ _) (Written.reportOpen file s.nest.blocks).1, fun hn => ?_, fun hn => ?_⟩
  · rw [List.map_eq_nil_iff.1 hn]
    rfl
  · obtain hb | ⟨outer, b, hb⟩ := s.nest.blocks.eq_nil_or_concat
    · exact absurd (List.map_eq_nil_iff.2 hb) hn
    · rw [hb, List.concat_eq_append, reportOpen_concat]
      let problem := Problem.unterminated b.1.kind
      have hreported : ⟨file, b.2, problem⟩ ∈ (d.report file b.2 problem).diagnostics :=
        List.mem_append_right _ (List.mem_singleton_self _)
      have hkept := (Draft.Extends.refl (d.report file b.2 problem)).reportOpen file outer
      exact ⟨_, hkept.diagnostics.subset hreported, rfl⟩

section Alone

variable {commands : Commands} (file : String) {h : SourceHeader}

theorem SourceHeader.read_blocks (hwf : h.WellFormed commands) :
    ∃ s', (h.read commands file).current = some s' ∧ (h.read commands file).done = [] ∧
      (Accepts (h.begun file) (h.read commands file) (h.opened file) s' h.words ∨
        Refuses (h.read commands file) (h.opened file) h.words) :=
  readLines_blocks file rfl h.alone hwf

/-- The words of an accepted header are derived exactly if its reading ends
outside of all blocks. -/
theorem Accepts.derives_iff {s' : Section} {d d' : Draft} {words : List Word}
    (hr : Accepts d d' (h.opened file) s' words) :
    (∃ marks, Derives (.body none) 0 marks ∧ marks.map Mark.word = words) ↔
      s'.nest.opened = [] := by
  obtain ⟨ms, hruns, hw, -⟩ := hr.runs
  constructor
  · rintro ⟨marks, hderived, hw'⟩
    have hended := hruns.unique (derives_iff_runs.1 hderived) (hw'.trans hw.symm)
    exact hended.2.symm
  · intro hended
    rw [hended] at hruns
    exact ⟨ms, derives_iff_runs.2 hruns, hw⟩

/-- A header of well-formed statements, read alone. -/
theorem SourceHeader.draft_blocks (hwf : h.WellFormed commands) :
    ∃ header, (h.draft commands file).done = [header] ∧
      ((∀ x ∈ (h.draft commands file).diagnostics, x.problem.isBlock = false) ↔
        ∃ marks, Derives (.body none) 0 marks ∧ marks.map Mark.word = h.words) ∧
      ∀ marks, Derives (.body none) 0 marks → marks.map Mark.word = h.words →
        (∀ m ∈ marks, m.depth < Nest.depthBound) →
          header.lines.map Line.mark = marks.filter (·.word != .event) := by
  obtain ⟨s', hc, hd, hr⟩ := h.read_blocks file hwf
  obtain ⟨hdone, hended, hleft⟩ := close_blocks hc file
  refine ⟨s'.header, hdone.trans (congrArg (· ++ _) hd), ?_, fun marks hderived hw hbound => ?_⟩
  · obtain hr | hr := hr
    · rw [hr.derives_iff]
      constructor
      · intro hclean
        by_cases houtside : s'.nest.opened = []
        · exact houtside
        · obtain ⟨x, hx, hb⟩ := hleft houtside
          exact absurd hb (ne_true_of_eq_false (hclean x hx))
      · intro houtside x hx
        rw [SourceHeader.draft, hended houtside, hr.diagnostics] at hx
        cases hx
    · constructor
      · intro hclean
        obtain ⟨x, hx, hb⟩ := hr.reported
        have hkept := (Draft.Extends.refl (h.read commands file)).close file
        exact absurd hb (ne_true_of_eq_false (hclean x (hkept.diagnostics.subset hx)))
      · rintro ⟨marks, hderived, hw⟩
        exact absurd hw (hr.stuck marks [] (derives_iff_runs.1 hderived))
  · obtain hr | hr := hr
    · obtain ⟨ms, hruns, hw', hlines⟩ := hr.runs
      obtain ⟨rfl, -⟩ := hruns.unique (derives_iff_runs.1 hderived) (hw.trans hw'.symm)
      exact hlines (fun _ => rfl) hbound
    · exact absurd hw (hr.stuck marks [] (derives_iff_runs.1 hderived))

end Alone

theorem Problem.isBlock_of_atHeader {p : Problem} (h : p.atHeader = true) : p.isBlock = false := by
  cases p <;> first | rfl | cases h

/-- A problem with blocks is one of a header. -/
theorem Diagnostic.Placed.of_isBlock {commands : Commands} {sources : List (String × String)}
    {x : Diagnostic} (hx : x.Placed commands sources) (hb : x.problem.isBlock = true) :
    ∃ file source, (file, source) ∈ sources ∧
      ∃ h : SourceHeader, h.In source ∧ x ∈ (h.draft commands file).diagnostics := by
  refine hx.resolve_left fun hp => ?_
  rw [Problem.isBlock_of_atHeader hp] at hb
  cases hb

/-- A header of well-formed statements has no problem with blocks exactly if its
words are derived, and then the derivation says at which depth each line stands
and which lines open a choice. The problems with blocks that a compilation reports
are those of its headers. -/
theorem compile_blocks_iff_derives {commands : Commands} {sources : List (String × String)}
    {file source : String} {h : SourceHeader} (hm : (file, source) ∈ sources) (hi : h.In source)
    (hwf : h.WellFormed commands) :
    ∃ header before after earlier later,
      (h.draft commands file).done = [header] ∧
      (compile commands sources).image = Image.ofHeaders (before ++ header :: after) ∧
      (compile commands sources).diagnostics =
        earlier ++ (h.draft commands file).diagnostics ++ later ∧
      (∀ x ∈ (compile commands sources).diagnostics, x.problem.isBlock = true →
        ∃ file source, (file, source) ∈ sources ∧
          ∃ h : SourceHeader, h.In source ∧ x ∈ (h.draft commands file).diagnostics) ∧
      ((∀ x ∈ (h.draft commands file).diagnostics, x.problem.isBlock = false) ↔
        ∃ marks, Derives (.body none) 0 marks ∧ marks.map Mark.word = h.words) ∧
      ∀ marks, Derives (.body none) 0 marks → marks.map Mark.word = h.words →
        (∀ m ∈ marks, m.depth < Nest.depthBound) →
          header.lines.map Line.mark = marks.filter (·.word != .event) := by
  obtain ⟨before, after, earlier, later, himage, hdiagnostics⟩ := h.compiled commands hm hi
  obtain ⟨header, hdone, hblocks, hlines⟩ := SourceHeader.draft_blocks file hwf
  rw [hdone, List.append_assoc] at himage
  exact ⟨header, before, after, earlier, later, hdone, himage, hdiagnostics,
    fun x hx => (placed_of_mem_diagnostics x hx).of_isBlock, hblocks, hlines⟩

/-- A header with a loop in a choice. -/
def sampleHeader : SourceHeader where
  mark := "main:".toList
  body := [(2, "^ready".toList), (3, "case a".toList), (4, "do".toList), (5, "break".toList),
    (6, "until b".toList), (7, "otherwise".toList), (8, "endcase".toList)]
  named := by decide
  alone := by decide

/-- The text of the header. -/
def sampleSource : String := "@main:\n^ready\ncase a\ndo\nbreak\nuntil b\notherwise\nendcase\n"

theorem sampleHeader_in : sampleHeader.In sampleSource :=
  ⟨[], 1, "@main:".toList, [], by decide, by decide, nofun⟩

theorem sampleHeader_wellFormed : sampleHeader.WellFormed [] :=
  SourceHeader.wellFormed_of_places
    [.empty, ⟨[(.loop true, 1)], 1⟩, ⟨[(.choice false, 1)], 0⟩] (by decide)

/-- The words of the sample are derived: it has no problem with blocks, and its
lines have the notes of the derivation. -/
theorem compile_sample_blocks :
    (∀ x ∈ (sampleHeader.draft [] "calls").diagnostics, x.problem.isBlock = false) ∧
      ∃ header, (sampleHeader.draft [] "calls").done = [header] ∧
        header.lines.map Line.mark =
          [⟨.choice, 0, true⟩, Word.doLoop.at 0, Word.leave.at 1, Word.untilLoop.at 1,
            Word.otherChoice.at 0, Word.endChoice.at 0] := by
  obtain ⟨header, -, -, -, -, hdone, -, -, -, hblocks, hlines⟩ :=
    compile_blocks_iff_derives (List.mem_singleton_self ("calls", sampleSource)) sampleHeader_in
      sampleHeader_wellFormed
  have hloop : Derives (.body (some .choice)) 0
      [Word.doLoop.at 0, Word.leave.at 1, Word.untilLoop.at 1] :=
    .doLoop (.leave Nat.one_pos .nil) (.inr rfl) .nil
  have hderived : Derives (.body none) 0 _ :=
    .event (.choice nofun hloop (.otherChoice .nil) .nil)
  exact ⟨hblocks.2 ⟨_, hderived, by decide⟩, header, hdone,
    hlines _ hderived (by decide) (by decide)⟩

end Switchboard
