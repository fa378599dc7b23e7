import Switchboard.Proofs.Script.InPlace

/-!
# Switchboard.Proofs.Script.Refused

Refused statements among the lines of a source.

1. Nothing reads the problems that were found: with other problems before it, a
   source is read alike (`readLines_noting`, `readFiles_noting`).
2. A statement that is refused in place is recorded as a problem. So the lines after
   it are read as if it were absent (`readLines_refused`), and a source in which it
   is a blank line gives the same image and listing (`compile_blanked`).
-/

namespace Switchboard

namespace Compiler

/-! ## problems that were found before -/

/-- The same with problems that were found before. -/
def Draft.noting (d : Draft) (ds : List Diagnostic) : Draft := d.after ⟨[], none, ds, []⟩

/-- Read files, one after the other. -/
def readFiles (commands : Commands) (d : Draft) (sources : List (String × String)) : Draft :=
  sources.foldl (fun d (file, source) => readFile commands d file source) d

/-- The same without problems. -/
def Draft.silent (d : Draft) : Draft := { d with diagnostics := [] }

section Noting

variable (commands : Commands) (d : Draft) (ds : List Diagnostic) (file : String)

theorem Draft.close_noting : (d.noting ds).close file = (d.close file).noting ds :=
  d.close_after _ file

/-- A header begins after what was found, whatever the problems were. -/
theorem beginHeader_noting (line : UInt32) (mark : List Char) :
    beginHeader (d.noting ds) file line mark = (beginHeader d file line mark).noting ds := by
  unfold beginHeader
  rw [Draft.close_noting]
  generalize d.close file = d
  dsimp only
  split
  · exact Draft.report_after d _ file line _
  · by_cases hknown : (d.done.any fun h => Text.alike h.name (String.ofList (markName mark))) = true
    · simp [Draft.noting, Draft.after, Draft.list, Draft.report, hknown]
    · simp [Draft.noting, Draft.after, Draft.list, hknown]

theorem readLine_noting (line : UInt32) (raw : List Char) :
    readLine commands file (d.noting ds) line raw =
      (readLine commands file d line raw).noting ds := by
  cases he : Entry.ofLine raw with
  | header mark =>
      rw [readLine_eq, readLine_eq, he]
      exact beginHeader_noting d ds file line mark
  | skipped | event | statement =>
      have hplain : (Entry.ofLine raw).isHeader = false := by rw [he]; rfl
      exact readLine_after d _ file commands hplain line

theorem readLines_noting (lines : List (UInt32 × List Char)) :
    readLines commands file (d.noting ds) lines =
      (readLines commands file d lines).noting ds := by
  induction lines generalizing d with
  | nil => rfl
  | cons l rest ih =>
      simp only [readLines, List.foldl_cons, readLine_noting]
      exact ih _

theorem readFiles_noting (sources : List (String × String)) :
    readFiles commands (d.noting ds) sources = (readFiles commands d sources).noting ds := by
  induction sources generalizing d with
  | nil => rfl
  | cons source rest ih =>
      simp only [readFiles, List.foldl_cons, readFile_eq, readLines_noting, Draft.close_noting]
      exact ih _

theorem Draft.noting_diagnostics : d.silent.noting d.diagnostics = d := by
  simp [Draft.noting, Draft.after, Draft.silent]

theorem Draft.report_eq_noting (line : UInt32) (p : Problem) :
    d.report file line p = d.silent.noting (d.diagnostics ++ [⟨file, line, p⟩]) := by
  simp [Draft.noting, Draft.after, Draft.silent, Draft.report]

/-- Lines are read without the problems that were found, which come before those of
the lines. -/
theorem readLines_silent (lines : List (UInt32 × List Char)) :
    readLines commands file d lines =
      (readLines commands file d.silent lines).noting d.diagnostics := by
  rw [← readLines_noting, Draft.noting_diagnostics]

end Noting

/-! ## the lines after a refused statement -/

/-- A line inside of a header is a statement that is refused in place. -/
def Refused (commands : Commands) (d : Draft) (line : UInt32) (raw : List Char) (p : Problem) :
    Prop :=
  ∃ s text tokens, d.current = some s ∧ Entry.ofLine raw = .statement text ∧
    Token.tokenize text = .ok tokens ∧
    ((Statement.perform commands line tokens).run.run s.nest).1 = .error p

section Following

variable {commands : Commands} {d : Draft} {file : String} {line : UInt32} {raw : List Char}
  {p : Problem}

/-- Of a refused statement the problem is recorded and nothing else. -/
theorem Refused.readLine_eq (h : Refused commands d line raw p) :
    readLine commands file d line raw = d.report file line p := by
  obtain ⟨s, text, tokens, hs, ht, htokens, hp⟩ := h
  have hrefused := Statement.perform_error_iff.1 hp
  rw [Compiler.readLine_eq, hs, ht]
  dsimp only [addStatement]
  rw [htokens,
    show Except.ok tokens >>= Statement.read commands s.nest line = .error p from hrefused]

/-- The lines after a refused statement are read after its problem, and otherwise as if
there had been none. -/
theorem Refused.readLines_cons (h : Refused commands d line raw p)
    (rest : List (UInt32 × List Char)) :
    readLines commands file d ((line, raw) :: rest) =
      (readLines commands file d.silent rest).noting (d.diagnostics ++ [⟨file, line, p⟩]) := by
  rw [← readLines_noting, ← Draft.report_eq_noting, ← h.readLine_eq]
  rfl

/-- The lines after a refused statement are read as if it were absent: there is
one problem more, in its place among the others. -/
theorem readLines_refused (h : Refused commands d line raw p) (rest : List (UInt32 × List Char)) :
    ∃ later, (readLines commands file d rest).diagnostics = d.diagnostics ++ later ∧
      readLines commands file d ((line, raw) :: rest) =
        { readLines commands file d rest with
          diagnostics := d.diagnostics ++ ⟨file, line, p⟩ :: later } := by
  refine ⟨(readLines commands file d.silent rest).diagnostics, ?_, ?_⟩
  · rw [readLines_silent]
    rfl
  · rw [h.readLines_cons, readLines_silent commands d]
    simp [Draft.noting, Draft.after]

/-- A source among others, from one of its lines on. -/
theorem readFiles_append {before after : List (String × String)} {source : String}
    {front lines : List (UInt32 × List Char)}
    (hs : sourceLines source = front ++ lines) :
    readFiles commands d (before ++ (file, source) :: after) =
      readFiles commands
        ((readLines commands file (readLines commands file (readFiles commands d before) front)
          lines).close file) after := by
  unfold readFiles
  rw [List.foldl_append, List.foldl_cons]
  dsimp only
  rw [readFile_eq, hs, readLines_append]

end Following

end Compiler

open Compiler

/-- A refused statement is no more than a blank line with a problem. -/
theorem compile_blanked {commands : Commands} {before after : List (String × String)}
    {file source blanked : String} {front rest : List (UInt32 × List Char)} {line : UInt32}
    {raw : List Char} {p : Problem}
    (hs : sourceLines source = front ++ (line, raw) :: rest)
    (hb : sourceLines blanked = front ++ (line, []) :: rest)
    (h : Refused commands
      (readLines commands file (readFiles commands .empty before) front) line raw p) :
    let whole := compile commands (before ++ (file, source) :: after)
    let other := compile commands (before ++ (file, blanked) :: after)
    whole.image = other.image ∧ whole.listing = other.listing ∧
      ∃ earlier later, other.diagnostics = earlier ++ later ∧
        whole.diagnostics = earlier ++ ⟨file, line, p⟩ :: later := by
  let first := readLines commands file (readFiles commands .empty before) front
  let ending := readFiles commands ((readLines commands file first.silent rest).close file) after
  have hrefused : readFiles commands .empty (before ++ (file, source) :: after) =
      ending.noting (first.diagnostics ++ [⟨file, line, p⟩]) := by
    rw [readFiles_append hs, h.readLines_cons, Draft.close_noting, readFiles_noting]
  have hblank : readLines commands file first ((line, []) :: rest) =
      readLines commands file first rest := rfl
  have hwithout : readFiles commands .empty (before ++ (file, blanked) :: after) =
      ending.noting first.diagnostics := by
    rw [readFiles_append hb, hblank, readLines_silent, Draft.close_noting, readFiles_noting]
  unfold readFiles at hrefused hwithout
  dsimp only [compile]
  rw [hrefused, hwithout]
  exact ⟨rfl, rfl, first.diagnostics, ending.diagnostics, rfl, List.append_assoc ..⟩

/-- A refused statement leaves the open blocks, with their marks and line numbers,
and the depth in loops as they were in any state; the compiler is the one that keeps
whatever blocks it leaves; and the lines after it are read as if it were absent. -/
theorem refused_statement_leaves_blocks (commands : Commands) :
    (∀ (nest after : Nest) (line : UInt32) (tokens : List Token) (p : Problem),
      (Statement.perform commands line tokens).run.run nest = (.error p, after) →
      after = nest) ∧
    (∀ (d : Draft) (s : Section) (file : String) (line : UInt32) (text : List Char),
      d.current = some s →
      addStatement commands d s file line text = addInPlace commands d s file line text) ∧
    ∀ (d : Draft) (file : String) (line : UInt32) (raw : List Char) (p : Problem)
      (rest : List (UInt32 × List Char)),
      Refused commands d line raw p →
      ∃ later, (readLines commands file d rest).diagnostics = d.diagnostics ++ later ∧
        readLines commands file d ((line, raw) :: rest) =
          { readLines commands file d rest with
            diagnostics := d.diagnostics ++ ⟨file, line, p⟩ :: later } := by
  refine ⟨fun nest after line tokens p h => ?_, fun d s file line text hs => ?_,
    fun d file line raw p rest h => readLines_refused h rest⟩
  · rw [Statement.perform_eq] at h
    cases hread : Statement.read commands nest line tokens with
    | error q =>
        rw [hread] at h
        exact (congrArg Prod.snd h).symm
    | ok a =>
        rw [hread] at h
        cases congrArg Prod.fst h
  · exact addStatement_eq_addInPlace commands hs file line text

/-- Inside of an `if`, a `do` loop. -/
def openLoop : Section :=
  ⟨Header.empty "main" "main", ⟨[(.loop true, 3), (.branch false, 2)], 1⟩⟩

/-- What was read up to the line after `do`. -/
def openLoopDraft : Draft := ⟨[], some openLoop, [], []⟩

theorem refused_statement_leaves_blocks_until :
    (Statement.perform [] 4 [⟨"until", false⟩]).run.run openLoop.nest =
      (.error .missingCondition, openLoop.nest) ∧
    addStatement [] openLoopDraft openLoop "main" 4 "until".toList =
      addInPlace [] openLoopDraft openLoop "main" 4 "until".toList ∧
    (readLines [] "main" openLoopDraft
      [(5, "until 1".toList), (6, "endif".toList)]).diagnostics = [] ∧
    (readLines [] "main" openLoopDraft
      [(4, "until".toList), (5, "until 1".toList), (6, "endif".toList)]).diagnostics =
      [⟨"main", 4, .missingCondition⟩] := by
  obtain ⟨hblocks, hinPlace, hfollowing⟩ := refused_statement_leaves_blocks []
  have hleft := hblocks openLoop.nest _ 4 [⟨"until", false⟩] .missingCondition rfl
  have hclean : (readLines [] "main" openLoopDraft
      [(5, "until 1".toList), (6, "endif".toList)]).diagnostics = [] := by decide +kernel
  have hrefused : Refused [] openLoopDraft 4 "until".toList .missingCondition :=
    ⟨openLoop, "until".toList, [⟨"until", false⟩], rfl, by decide, rfl, rfl⟩
  obtain ⟨later, hlater, hdiag⟩ :=
    hfollowing openLoopDraft "main" 4 _ _ [(5, "until 1".toList), (6, "endif".toList)] hrefused
  obtain rfl : later = [] := hlater.symm.trans hclean
  exact ⟨Prod.ext rfl hleft, hinPlace openLoopDraft openLoop "main" 4 "until".toList rfl, hclean,
    congrArg Draft.diagnostics hdiag⟩

end Switchboard
