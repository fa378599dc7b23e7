import Mathlib.Data.List.Forall2
import Switchboard.Proofs.Script.Nesting
import Switchboard.Proofs.Script.Section

/-!
# Switchboard.Proofs.Script.Outline

What becomes of the lines of accepted sources.

1. The outline of sources has one heading for each line that begins with `@`, and
   under it the numbered statements up to the next such line.  It is read off the
   lines, without names, blocks or commands.
2. A heading is compiled to a header with its name and its file, and one line for
   each of its statements, in their order and with their numbers
   (`Heading.Compiles`).
3. Where no problem was found, the headers that were read are those of the
   outline, one for each heading: `readFiles_outline`.
-/

namespace Switchboard

open Compiler

/-! ## outlines -/

/-- A line that begins a header, with the statements below it. -/
structure Heading where
  file : String
  line : UInt32
  mark : List Char
  statements : List (UInt32 × List Char)
deriving Repr, DecidableEq

/-- The name that a heading gives. -/
def Heading.name (g : Heading) : String := String.ofList (markName g.mark)

/-- Whether the name is one: not empty, and without blanks. -/
def Heading.isValid (g : Heading) : Bool :=
  !((markName g.mark).isEmpty || Text.hasBlank (markName g.mark))

/-- Whether a line is a statement. -/
def Compiler.Entry.isStatement : Entry → Bool
  | .statement _ => true
  | _ => false

/-- The statements before the first heading. -/
def loose : List (UInt32 × List Char) → List (UInt32 × List Char)
  | [] => []
  | (line, raw) :: rest =>
    match Entry.ofLine raw with
    | .skipped | .event _ => loose rest
    | .header _ => []
    | .statement text => (line, text) :: loose rest

/-- The headings among the lines of a file. -/
def headingsIn (file : String) : List (UInt32 × List Char) → List Heading
  | [] => []
  | (line, raw) :: rest =>
    match Entry.ofLine raw with
    | .header mark => ⟨file, line, mark, loose rest⟩ :: headingsIn file rest
    | _ => headingsIn file rest

/-- The headings of sources. -/
def headings (sources : List (String × String)) : List Heading :=
  sources.flatMap fun s => headingsIn s.1 (sourceLines s.2)

/-- The number of lines of some kind in sources. -/
def countLines (kind : Entry → Bool) (sources : List (String × String)) : Nat :=
  total (sources.map fun s =>
    (sourceLines s.2).countP fun l => kind (Entry.ofLine l.2))

theorem length_headingsIn (file : String) (lines : List (UInt32 × List Char)) :
    (headingsIn file lines).length = lines.countP fun l => (Entry.ofLine l.2).isHeader := by
  induction lines with
  | nil => rfl
  | cons l rest ih =>
      obtain ⟨line, raw⟩ := l
      rw [headingsIn, List.countP_cons]
      cases he : Entry.ofLine raw <;> simp [ih, Entry.isHeader]

/-- There is a heading for each line that begins with `@`. -/
theorem length_headings (sources : List (String × String)) :
    (headings sources).length = countLines Entry.isHeader sources := by
  induction sources with
  | nil => rfl
  | cons source rest ih =>
      rw [headings, List.flatMap_cons, List.length_append, length_headingsIn]
      exact congrArg _ ih

/-- The number of statements under headings. -/
def countStatements (gs : List Heading) : Nat := total (gs.map (·.statements.length))

theorem countStatements_headingsIn (file : String) (lines : List (UInt32 × List Char)) :
    (loose lines).length + countStatements (headingsIn file lines) =
      lines.countP fun l => (Entry.ofLine l.2).isStatement := by
  induction lines with
  | nil => rfl
  | cons l rest ih =>
      obtain ⟨line, raw⟩ := l
      rw [loose, headingsIn, List.countP_cons, ← ih]
      cases he : Entry.ofLine raw with
      | skipped => simp [Entry.isStatement]
      | event mark => simp [Entry.isStatement]
      | header mark => simp [Entry.isStatement, countStatements, total]
      | statement text =>
          simp only [Entry.isStatement, List.length_cons, if_true]
          omega

/-! ## headings that are compiled -/

/-- Lines that are read from statements, one from each, with its number and the blocks
that are open before it. -/
inductive Transcribes (commands : Commands) :
    Nest → List (UInt32 × List Char) → List Line → Nest → Prop
  | nil (n : Nest) : Transcribes commands n [] [] n
  | cons {n m : Nest} {line : UInt32} {text : List Char} {a : Statement.Accepted}
      {rest : List (UInt32 × List Char)} {ls : List Line} :
      Token.tokenize text >>= Statement.read commands n line = .ok a →
      Transcribes commands a.nest rest ls m →
      Transcribes commands n ((line, text) :: rest) (⟨a.command, n.depth, a.mask, line⟩ :: ls) m

/-- Every statement has its line, in order and with its number. -/
theorem Transcribes.numbers {commands : Commands} {n m : Nest}
    {statements : List (UInt32 × List Char)} {ls : List Line}
    (h : Transcribes commands n statements ls m) :
    ls.map (·.number) = statements.map (·.1) := by
  induction h with
  | nil n => rfl
  | cons _ _ ih => rw [List.map_cons, List.map_cons, ih]

theorem Transcribes.length {commands : Commands} {n m : Nest}
    {statements : List (UInt32 × List Char)} {ls : List Line}
    (h : Transcribes commands n statements ls m) : ls.length = statements.length := by
  rw [← List.length_map (·.number), h.numbers, List.length_map]

/-- A header with the name and the file of a heading, the lines of its statements, and no
block that stays open. -/
structure Heading.Compiles (commands : Commands) (g : Heading) (h : Header) : Prop where
  valid : g.isValid = true
  name : h.name = Header.bare g.name
  file : h.file = g.file
  lines : ∃ nest, Transcribes commands .empty g.statements h.lines nest ∧ nest.blocks = []

namespace Compiler

variable {commands : Commands}

/-- A header that was being read, and what it is when more statements are read into
it and it is ended. -/
inductive Finishes (commands : Commands) :
    Option Section → List (UInt32 × List Char) → List Header → Prop
  | outside : Finishes commands none [] []
  | inside {s : Section} {statements : List (UInt32 × List Char)} {h : Header} {ls : List Line}
      {nest : Nest} : h.name = s.header.name → h.file = s.header.file →
      h.lines = s.header.lines ++ ls → Transcribes commands s.nest statements ls nest →
      nest.blocks = [] → Finishes commands (some s) statements [h]

/-- Outside of all headers there are no statements. -/
theorem Finishes.outside_inv {statements : List (UInt32 × List Char)} {ended : List Header}
    (h : Finishes commands none statements ended) : statements = [] ∧ ended = [] := by
  cases h
  exact ⟨rfl, rfl⟩

/-- A draft without problems, of which a draft without problems was made. -/
theorem Draft.Extends.clean {d later : Draft} (h : d.Extends later)
    (hclean : later.diagnostics = []) : d.diagnostics = [] :=
  List.prefix_nil.1 (hclean ▸ h.diagnostics)

theorem Draft.report_unclean (d : Draft) (file : String) (line : UInt32) (p : Problem) :
    (d.report file line p).diagnostics ≠ [] := by
  simp [Draft.report]

/-- A header that is ended without a problem. -/
theorem close_finishes (commands : Commands) {d : Draft} {file : String}
    (hclean : (d.close file).diagnostics = []) :
    ∃ ended, Finishes commands d.current [] ended ∧ (d.close file).done = d.done ++ ended := by
  unfold Draft.close at hclean ⊢
  cases hc : d.current with
  | none => exact ⟨[], .outside, (List.append_nil _).symm⟩
  | some s =>
      rw [hc] at hclean
      obtain ⟨hdone, hreported⟩ := Written.reportOpen (d := d) file s.nest.blocks
      obtain ⟨-, hclosed⟩ := hreported hclean
      exact ⟨[s.header], .inside rfl rfl (List.append_nil _).symm (.nil _) hclosed,
        congrArg (· ++ [s.header]) hdone⟩

/-- A heading without a problem begins a header, after the one before is ended. -/
theorem beginHeader_clean {d : Draft} {file : String} {line : UInt32} {mark : List Char}
    (hclean : (beginHeader d file line mark).diagnostics = []) :
    ((markName mark).isEmpty || Text.hasBlank (markName mark)) = false ∧
      (beginHeader d file line mark).done = (d.close file).done ∧
      (beginHeader d file line mark).current =
        some ⟨Header.empty (Header.bare (String.ofList (markName mark))) file, .empty⟩ := by
  unfold beginHeader at hclean ⊢
  dsimp only at hclean ⊢
  split at hclean
  · exact absurd hclean (Draft.report_unclean _ _ _ _)
  · next hvalid =>
      rw [if_neg hvalid]
      refine ⟨eq_false_of_ne_true hvalid, ?_⟩
      split <;> exact ⟨rfl, rfl⟩

theorem markEvent_clean {d : Draft} {s : Section} {file : String} {line : UInt32} {mark : List Char}
    (hclean : (markEvent d s file line mark).diagnostics = []) :
    (markEvent d s file line mark).done = d.done ∧
      ∃ event, (markEvent d s file line mark).current =
        some { s with header := s.header.setEvent event s.header.lines.length } := by
  unfold markEvent at hclean ⊢
  dsimp only at hclean ⊢
  split at hclean
  · exact absurd hclean (Draft.report_unclean _ _ _ _)
  · exact ⟨rfl, _, rfl⟩

theorem addStatement_clean {d : Draft} {s : Section} {file : String} {line : UInt32}
    {text : List Char} (hclean : (addStatement commands d s file line text).diagnostics = []) :
    (addStatement commands d s file line text).done = d.done ∧
      ∃ a, Token.tokenize text >>= Statement.read commands s.nest line = .ok a ∧
        (addStatement commands d s file line text).current =
          some ⟨s.header.push ⟨a.command, s.nest.depth, a.mask, line⟩, a.nest⟩ := by
  unfold addStatement at hclean ⊢
  cases hr : Token.tokenize text >>= Statement.read commands s.nest line with
  | error p =>
      rw [hr] at hclean
      exact absurd hclean (Draft.report_unclean _ _ _ _)
  | ok a => exact ⟨rfl, a, rfl, rfl⟩

/-- What is read of the lines of a file, if no problem is found: the header that was being
read gets the statements before the first heading, and every heading its own. -/
theorem readLines_outline {d : Draft} {file : String} {lines : List (UInt32 × List Char)}
    (hclean : ((readLines commands file d lines).close file).diagnostics = []) :
    ∃ ended hs, Finishes commands d.current (loose lines) ended ∧
      List.Forall₂ (Heading.Compiles commands) (headingsIn file lines) hs ∧
      ((readLines commands file d lines).close file).done = d.done ++ ended ++ hs := by
  induction lines generalizing d with
  | nil =>
      obtain ⟨ended, hfinishes, hdone⟩ := close_finishes commands hclean
      exact ⟨ended, [], hfinishes, .nil, hdone.trans (List.append_nil _).symm⟩
  | cons l rest ih =>
      obtain ⟨line, raw⟩ := l
      -- problems are never taken back, so the first line has none, nor has the rest after it
      have hread : (readLine commands file d line raw).diagnostics = [] :=
        (((Draft.Extends.refl _).readLines commands file rest).close file).clean hclean
      obtain ⟨ended, hs, hfinishes, hcompiled, hdone⟩ :=
        ih (d := readLine commands file d line raw) hclean
      have hwhole : readLines commands file d ((line, raw) :: rest) =
          readLines commands file (readLine commands file d line raw) rest := rfl
      rw [loose, headingsIn, hwhole, hdone]
      rw [readLine_eq] at hread hfinishes ⊢
      cases he : Entry.ofLine raw with
      | skipped =>
          simp only [he] at hfinishes
          exact ⟨ended, hs, hfinishes, hcompiled, rfl⟩
      | header mark =>
          simp only [he] at hread hfinishes ⊢
          obtain ⟨hvalid, hbegun, hcurrent⟩ := beginHeader_clean hread
          -- the header before ends here, and what is known of the rest begins with the new one
          have hclosed := (Draft.Extends.beginHeader d file line mark).clean hread
          obtain ⟨before, hfinished, hclose⟩ := close_finishes commands hclosed
          rw [hcurrent] at hfinishes
          cases hfinishes with
          | inside hname hfile hlines htranscribes hblocks =>
              refine ⟨before, _ :: hs, hfinished,
                .cons ⟨?_, hname, hfile, _, ?_, hblocks⟩ hcompiled, ?_⟩
              · rw [Heading.isValid, hvalid]
                rfl
              · rwa [hlines]
              · rw [hbegun, hclose, List.append_assoc, List.append_assoc, List.append_assoc,
                  List.singleton_append]
      | event mark =>
          cases hc : d.current with
          | none =>
              simp only [he, hc] at hread
              exact absurd hread (Draft.report_unclean _ _ _ _)
          | some s =>
              simp only [he, hc] at hread hfinishes ⊢
              obtain ⟨hbefore, event, hcurrent⟩ := markEvent_clean hread
              rw [hcurrent] at hfinishes
              rw [hbefore]
              cases hfinishes with
              | inside hname hfile hlines htranscribes hblocks =>
                  exact ⟨_, hs, .inside hname hfile hlines htranscribes hblocks, hcompiled, rfl⟩
      | statement text =>
          cases hc : d.current with
          | none =>
              simp only [he, hc] at hread
              exact absurd hread (Draft.report_unclean _ _ _ _)
          | some s =>
              simp only [he, hc] at hread hfinishes ⊢
              obtain ⟨hbefore, a, haccepted, hcurrent⟩ := addStatement_clean hread
              rw [hcurrent] at hfinishes
              rw [hbefore]
              cases hfinishes with
              | inside hname hfile hlines htranscribes hblocks =>
                  refine ⟨_, hs, .inside hname hfile ?_ (.cons haccepted htranscribes) hblocks,
                    hcompiled, rfl⟩
                  rw [hlines, Header.push, List.append_assoc, List.singleton_append]

/-- A statement that is accepted is the next line of the header. -/
theorem addStatement_accepted (file : String) {d : Draft} {s : Section} {line : UInt32}
    {text : List Char} {a : Statement.Accepted}
    (h : Token.tokenize text >>= Statement.read commands s.nest line = .ok a) :
    (addStatement commands d s file line text).done = d.done ∧
      (addStatement commands d s file line text).diagnostics = d.diagnostics ∧
      (addStatement commands d s file line text).current =
        some ⟨s.header.push ⟨a.command, s.nest.depth, a.mask, line⟩, a.nest⟩ := by
  rw [addStatement, h]
  exact ⟨rfl, rfl, rfl⟩

/-- Statements that are accepted are read into the header that has begun. -/
theorem readLines_transcribes (file : String) {d : Draft} {s : Section}
    {lines : List (UInt32 × List Char)} {ls : List Line} {m : Nest} (hcurrent : d.current = some s)
    (hlines : ∀ l ∈ lines, (Entry.ofLine l.2).isStatement = true)
    (h : Transcribes commands s.nest (loose lines) ls m) :
    (readLines commands file d lines).done = d.done ∧
      (readLines commands file d lines).diagnostics = d.diagnostics ∧
      (readLines commands file d lines).current = some ⟨ls.foldl Header.push s.header, m⟩ := by
  induction lines generalizing d s ls with
  | nil =>
      cases h with
      | nil => exact ⟨rfl, rfl, hcurrent⟩
  | cons l rest ih =>
      obtain ⟨line, raw⟩ := l
      obtain ⟨hfirst, hrest⟩ := List.forall_mem_cons.mp hlines
      cases he : Entry.ofLine raw with
      | skipped | header _ | event _ =>
          rw [he] at hfirst
          contradiction
      | statement text =>
          have hloose : loose ((line, raw) :: rest) = (line, text) :: loose rest := by
            simp only [loose, he]
          rw [hloose] at h
          cases h with
          | cons hread h =>
              have hline : readLine commands file d line raw =
                  addStatement commands d s file line text := by
                rw [readLine_eq, he, hcurrent]
              obtain ⟨hdone, hproblems, hadded⟩ := addStatement_accepted file (d := d) hread
              rw [← hline] at hdone hproblems hadded
              have hrest := ih hadded hrest h
              rwa [hdone, hproblems] at hrest

/-- A header without open blocks is ended. -/
theorem close_closed {d : Draft} {s : Section} (file : String) (hcurrent : d.current = some s)
    (hclosed : s.nest.blocks = []) :
    (d.close file).done = d.done ++ [s.header] ∧ (d.close file).diagnostics = d.diagnostics := by
  simp only [Draft.close, hcurrent, hclosed]
  exact ⟨rfl, rfl⟩

/-- A source with a header at its first line and statements below it compiles without
problems, if the statements are accepted and close their blocks. -/
theorem compile_transcribes (file : String) {source : String} {line : UInt32} {raw mark : List Char}
    {lines : List (UInt32 × List Char)} {ls : List Line} {m : Nest}
    (hsource : sourceLines source = (line, raw) :: lines) (hraw : Entry.ofLine raw = .header mark)
    (hname : ((markName mark).isEmpty || Text.hasBlank (markName mark)) = false)
    (hlines : ∀ l ∈ lines, (Entry.ofLine l.2).isStatement = true)
    (h : Transcribes commands .empty (loose lines) ls m) (hclosed : m.blocks = []) :
    (compile commands [(file, source)]).isClean = true ∧
      (compile commands [(file, source)]).image = Image.ofHeaders
        [ls.foldl Header.push
          (Header.empty (Header.bare (String.ofList (markName mark))) file)] := by
  have hclean : (beginHeader .empty file line mark).diagnostics = [] := by
    rw [beginHeader]
    exact congrArg Draft.diagnostics (if_neg (ne_true_of_eq_false hname))
  obtain ⟨-, hbefore, hbegun⟩ := beginHeader_clean hclean
  obtain ⟨hdone, hproblems, hcurrent⟩ := readLines_transcribes file hbegun hlines h
  obtain ⟨hended, hclosed⟩ := close_closed file hcurrent hclosed
  have hread : readFile commands .empty file source =
      (readLines commands file (beginHeader .empty file line mark) lines).close file := by
    have hheader : readLine commands file .empty line raw = beginHeader .empty file line mark := by
      rw [readLine_eq, hraw]
    rw [readFile_eq, hsource, ← hheader]
    rfl
  rw [← hread] at hended hclosed
  refine ⟨?_, congrArg Image.ofHeaders ?_⟩
  · rw [Compilation.isClean, List.isEmpty_iff]
    exact hclosed.trans (hproblems.trans hclean)
  · rw [hdone, hbefore] at hended
    exact hended

/-- What is read of all sources, if no problem is found: the headers of the outline, and no
statement outside of it. -/
theorem readFiles_outline (commands : Commands) {sources : List (String × String)} {d : Draft}
    (houtside : d.current = none)
    (hclean : (sources.foldl (fun d (file, source) => readFile commands d file source)
      d).diagnostics = []) :
    ∃ hs, List.Forall₂ (Heading.Compiles commands) (headings sources) hs ∧
      (sources.foldl (fun d (file, source) => readFile commands d file source) d).done =
        d.done ++ hs ∧
      countStatements (headings sources) = countLines Entry.isStatement sources := by
  induction sources generalizing d with
  | nil => exact ⟨[], .nil, (List.append_nil _).symm, rfl⟩
  | cons source rest ih =>
      obtain ⟨file, source⟩ := source
      rw [List.foldl_cons] at hclean ⊢
      have hread : (readFile commands d file source).diagnostics = [] :=
        ((Draft.Extends.refl _).readFiles commands rest).clean hclean
      rw [readFile_eq] at hread
      obtain ⟨ended, hs, hfinishes, hcompiled, hdone⟩ := readLines_outline hread
      rw [houtside] at hfinishes
      obtain ⟨hnoLoose, rfl⟩ := hfinishes.outside_inv
      have hclosed : (readFile commands d file source).current = none := by
        rw [readFile_eq, Draft.close]
        split
        · assumption
        · rfl
      obtain ⟨hs', hothers, hrestDone, hcounted⟩ := ih hclosed hclean
      refine ⟨hs ++ hs', List.rel_append hcompiled hothers, ?_, ?_⟩
      · rw [hrestDone, readFile_eq, hdone, List.append_nil, List.append_assoc]
      · have hlines := countStatements_headingsIn file (sourceLines source)
        rw [hnoLoose, List.length_nil, Nat.zero_add] at hlines
        rw [headings, List.flatMap_cons, countStatements, List.map_append, total_append]
        rw [countLines, List.map_cons, total]
        exact congrArg₂ _ hlines hcounted

end Compiler

end Switchboard
