import Switchboard.Script.Compiler

/-!
# Switchboard.Proofs.Script.Section

One header among the sources.

1. A line of a source is skipped, begins a header, marks the place of a handler,
   or is a statement.
2. Inside a header nothing is read of what was found before the header
   (`readLines_after`), and what was found is never taken back (`Extends`).
3. So a header is compiled as if it stood alone: its lines and its problems are
   found among those of all sources (`SourceHeader.compiled`), and all other
   problems are with lines that begin a header or stand outside of all headers
   (`placed_of_mem_diagnostics`).
-/

namespace Switchboard

namespace Compiler

/-! ## the lines of a source -/

/-- What a line of a source is. -/
inductive Entry where
  | skipped
  | header (mark : List Char)
  | event (mark : List Char)
  | statement (text : List Char)
deriving Repr, DecidableEq

/-- Blanks around a line do not matter. -/
def Entry.ofLine (raw : List Char) : Entry :=
  match Text.trim raw with
  | [] => .skipped
  | '#' :: _ => .skipped
  | '@' :: mark => .header mark
  | '^' :: mark => .event mark
  | text => .statement text

/-- Whether a header begins with the line. -/
def Entry.isHeader : Entry → Bool
  | .header _ => true
  | _ => false

/-- How a line is read: one case for each kind, and outside of all headers. -/
theorem readLine_eq (commands : Commands) (file : String) (d : Draft) (line : UInt32)
    (raw : List Char) :
    readLine commands file d line raw =
      match Entry.ofLine raw, d.current with
      | .skipped, _ => d
      | .header mark, _ => beginHeader d file line mark
      | .event _, none | .statement _, none => d.report file line .outsideHeader
      | .event mark, some s => markEvent d s file line mark
      | .statement text, some s => addStatement commands d s file line text := by
  generalize he : Entry.ofLine raw = entry
  unfold Entry.ofLine at he
  unfold readLine
  generalize Text.trim raw = text at he
  split at he
  · subst he; rfl
  · subst he; rfl
  · subst he; rfl
  · subst he; cases d.current <;> rfl
  · next hempty hcomment header hevent =>
    subst he
    split
    · exact absurd rfl hempty
    · exact absurd rfl (hcomment _)
    · exact absurd rfl (header _)
    · cases d.current with
      | none => rfl
      | some s =>
          dsimp only
          split
          · exact absurd rfl (hevent _)
          · rfl

/-- Read lines of a file. -/
def readLines (commands : Commands) (file : String) (d : Draft)
    (lines : List (UInt32 × List Char)) :
    Draft :=
  lines.foldl (fun d (line, raw) => readLine commands file d line raw) d

/-- A file is read line by line, and what is open at its end is closed. -/
theorem readFile_eq (commands : Commands) (d : Draft) (file source : String) :
    readFile commands d file source =
      (readLines commands file d (sourceLines source)).close file := rfl

/-- Lines are read one after the other, so the second part goes on from the first. -/
theorem readLines_append (commands : Commands) (file : String) (d : Draft)
    (lines more : List (UInt32 × List Char)) :
    readLines commands file d (lines ++ more) =
      readLines commands file (readLines commands file d lines) more :=
  List.foldl_append

/-! ## what was found before -/

/-- What was read, after something else had been read. -/
def Draft.after (d earlier : Draft) : Draft :=
  ⟨earlier.done ++ d.done, d.current, earlier.diagnostics ++ d.diagnostics,
    earlier.listing ++ d.listing⟩

section After

variable (d earlier : Draft) (file : String)

@[simp] theorem Draft.current_after : (d.after earlier).current = d.current := rfl

/-- A problem is reported alike, whatever was drafted before. -/
@[simp] theorem Draft.report_after (line : UInt32) (p : Problem) :
    (d.after earlier).report file line p = (d.report file line p).after earlier := by
  simp [Draft.after, Draft.report]

/-- A section is listed alike, whatever was drafted before. -/
@[simp] theorem Draft.list_after (line : UInt32) (text : String) :
    (d.after earlier).list line text = (d.list line text).after earlier := by
  simp [Draft.after, Draft.list]

/-- Open blocks are reported alike, whatever was drafted before. -/
theorem Draft.reportOpen_after (blocks : List (Block × UInt32)) :
    (d.after earlier).reportOpen file blocks = (d.reportOpen file blocks).after earlier := by
  unfold Draft.reportOpen
  generalize blocks.reverse = reversed
  induction reversed generalizing d with
  | nil => rfl
  | cons block rest ih => simp only [List.foldl_cons, Draft.report_after, ih]

/-- A section is closed alike, whatever was drafted before. -/
theorem Draft.close_after : (d.after earlier).close file = (d.close file).after earlier := by
  unfold Draft.close
  cases h : d.current with
  | none => simp only [current_after, h]
  | some s =>
      simp only [current_after, h, reportOpen_after]
      simp [Draft.after]

/-- Inside a header the earlier ones are not looked at. -/
theorem readLine_after (commands : Commands) {raw : List Char}
    (h : (Entry.ofLine raw).isHeader = false) (line : UInt32) :
    readLine commands file (d.after earlier) line raw =
      (readLine commands file d line raw).after earlier := by
  rw [readLine_eq, readLine_eq, Draft.current_after]
  cases he : Entry.ofLine raw with
  | skipped => rfl
  | header mark =>
      rw [he] at h
      cases h
  | event mark =>
      cases d.current with
      | none => exact Draft.report_after d earlier file line _
      | some s =>
          dsimp only [markEvent]
          split
          · exact Draft.report_after d earlier file line _
          · rw [Draft.list_after]
            rfl
  | statement text =>
      cases d.current with
      | none => exact Draft.report_after d earlier file line _
      | some s =>
          dsimp only [addStatement]
          split
          · exact Draft.report_after d earlier file line _
          · rw [Draft.list_after]
            rfl

/-- Lines without a header are read alike, whatever was drafted before. -/
theorem readLines_after (commands : Commands) {lines : List (UInt32 × List Char)}
    (h : ∀ l ∈ lines, (Entry.ofLine l.2).isHeader = false) :
    readLines commands file (d.after earlier) lines =
      (readLines commands file d lines).after earlier := by
  induction lines generalizing d with
  | nil => rfl
  | cons l rest ih =>
      simp only [readLines, List.foldl_cons]
      rw [readLine_after d earlier file commands (h l List.mem_cons_self)]
      exact ih _ fun l hl => h l (List.mem_cons_of_mem _ hl)

end After

/-- A section begun on a draft is one begun on an empty draft, put after it. -/
theorem Draft.begin_eq (d : Draft) (s : Section) :
    { d with current := some s } = Draft.after ⟨[], some s, [], []⟩ d := by
  simp [Draft.after]

/-! ## what stays found -/

/-- More was read: nothing that was found is taken back. -/
structure Draft.Extends (d later : Draft) : Prop where
  done : d.done <+: later.done
  diagnostics : d.diagnostics <+: later.diagnostics

namespace Draft.Extends

variable {d later : Draft}

/-- A draft extends itself. -/
theorem refl (d : Draft) : d.Extends d := ⟨List.prefix_refl _, List.prefix_refl _⟩

/-- What extends an extension extends the first. -/
theorem trans {last : Draft} (h : d.Extends later) (h' : later.Extends last) : d.Extends last :=
  ⟨h.done.trans h'.done, h.diagnostics.trans h'.diagnostics⟩

/-- A report only adds to a draft. -/
theorem report (h : d.Extends later) (file : String) (line : UInt32) (p : Problem) :
    d.Extends (later.report file line p) :=
  ⟨h.done, h.diagnostics.trans (List.prefix_append _ _)⟩

/-- The reports of open blocks only add to a draft. -/
theorem reportOpen (h : d.Extends later) (file : String) (blocks : List (Block × UInt32)) :
    d.Extends (later.reportOpen file blocks) := by
  unfold Draft.reportOpen
  generalize blocks.reverse = reversed
  induction reversed generalizing later with
  | nil => exact h
  | cons block rest ih => exact ih (h.report file block.2 _)

/-- The end of a section only adds to a draft. -/
theorem close (h : d.Extends later) (file : String) : d.Extends (later.close file) := by
  unfold Draft.close
  cases later.current with
  | none => exact h
  | some s =>
      have hreported := h.reportOpen file s.nest.blocks
      exact ⟨hreported.done.trans (List.prefix_append _ _), hreported.diagnostics⟩

/-- A header begins where the one before it is ended. -/
theorem beginHeader (d : Draft) (file : String) (line : UInt32) (mark : List Char) :
    (d.close file).Extends (Compiler.beginHeader d file line mark) := by
  have hclosed := refl (d.close file)
  unfold Compiler.beginHeader
  dsimp only
  split
  · exact hclosed.report file line _
  · split
    · have hreported := hclosed.report file line (.duplicateHeader (String.ofList (markName mark)))
      exact ⟨hreported.done, hreported.diagnostics⟩
    · exact ⟨hclosed.done, hclosed.diagnostics⟩

/-- A line only adds to a draft. -/
theorem readLine (h : d.Extends later) (commands : Commands) (file : String) (line : UInt32)
    (raw : List Char) : d.Extends (Compiler.readLine commands file later line raw) := by
  rw [readLine_eq]
  split
  · exact h
  · exact (h.close file).trans (beginHeader later file line _)
  · exact h.report file line _
  · exact h.report file line _
  · dsimp only [markEvent]
    split
    · exact h.report file line _
    · exact ⟨h.done, h.diagnostics⟩
  · dsimp only [addStatement]
    split
    · exact h.report file line _
    · exact ⟨h.done, h.diagnostics⟩

/-- So do lines that come one after the other. -/
theorem readLines (h : d.Extends later) (commands : Commands) (file : String)
    (lines : List (UInt32 × List Char)) :
    d.Extends (Compiler.readLines commands file later lines) := by
  induction lines generalizing later with
  | nil => exact h
  | cons l rest ih => exact ih (h.readLine commands file l.1 l.2)

/-- So do whole files. -/
theorem readFiles (h : d.Extends later) (commands : Commands) (sources : List (String × String)) :
    d.Extends (sources.foldl (fun d (file, source) => readFile commands d file source) later) := by
  induction sources generalizing later with
  | nil => exact h
  | cons source rest ih =>
      have hread := h.readLines commands source.1 (sourceLines source.2)
      exact ih (hread.close source.1)

end Draft.Extends

end Compiler

/-! ## a header of a source -/

open Compiler

/-- A header as it is written: its mark, and the numbered lines up to the next
header. -/
structure SourceHeader where
  mark : List Char
  body : List (UInt32 × List Char)
  named : markName mark ≠ [] ∧ Text.hasBlank (markName mark) = false
  alone : ∀ l ∈ body, (Entry.ofLine l.2).isHeader = false

/-- Problems with the line that begins a header, or with a line outside of all
headers. -/
def Problem.atHeader : Problem → Bool
  | .invalidHeader _ | .duplicateHeader _ | .outsideHeader => true
  | _ => false

namespace SourceHeader

/-- A source has the header: its lines begin after the line with the mark, and
end before the next header or with the source. -/
def In (h : SourceHeader) (source : String) : Prop :=
  ∃ front line raw rest,
    sourceLines source = front ++ (line, raw) :: (h.body ++ rest) ∧
    Entry.ofLine raw = .header h.mark ∧
    ∀ next ∈ rest.head?, (Entry.ofLine next.2).isHeader = true

/-- The header when it has begun. -/
def opened (h : SourceHeader) (file : String) : Section :=
  ⟨Header.empty (Header.bare (String.ofList (markName h.mark))) file, .empty⟩

/-- The header when it has begun, and nothing else. -/
def begun (h : SourceHeader) (file : String) : Draft := ⟨[], some (h.opened file), [], []⟩

/-- Read the lines of the header alone. -/
def read (commands : Commands) (file : String) (h : SourceHeader) : Draft :=
  readLines commands file (h.begun file) h.body

/-- The header read alone, to its end. -/
def draft (commands : Commands) (file : String) (h : SourceHeader) : Draft :=
  (h.read commands file).close file

/-- A header that begins is read after everything else. -/
theorem begins {h : SourceHeader} (d : Draft) (file : String) (line : UInt32) :
    ∃ earlier, beginHeader d file line h.mark = (h.begun file).after earlier ∧
      ∀ x ∈ earlier.diagnostics, x ∈ (d.close file).diagnostics ∨ x.problem.atHeader = true := by
  have hnamed : ((markName h.mark).isEmpty || Text.hasBlank (markName h.mark)) = false := by
    simp [h.named.1, h.named.2]
  refine ⟨_, (if_neg (ne_true_of_eq_false hnamed)).trans (Draft.begin_eq _ (h.opened file)), ?_⟩
  intro x hx
  dsimp only [Draft.list] at hx
  split at hx
  · obtain hx | hx := List.mem_append.1 hx
    · exact .inl hx
    · rw [List.mem_singleton.1 hx]
      exact .inr rfl
  · exact .inl hx

/-- A header is ended where the next one begins, or its file ends. -/
theorem ends (commands : Commands) (d : Draft) (file : String) {rest : List (UInt32 × List Char)}
    (h : ∀ next ∈ rest.head?, (Entry.ofLine next.2).isHeader = true) :
    (d.close file).Extends ((readLines commands file d rest).close file) := by
  cases rest with
  | nil => exact .refl _
  | cons next others =>
      have header := h next rfl
      have hbegun : (d.close file).Extends (readLine commands file d next.1 next.2) := by
        rw [readLine_eq]
        cases he : Entry.ofLine next.2 with
        | header mark => exact .beginHeader d file next.1 mark
        | skipped | event | statement => rw [he] at header; cases header
      exact (hbegun.readLines commands file others).close file

/-- A header of a source is compiled as it is read alone. -/
theorem compiled {h : SourceHeader} (commands : Commands) {sources : List (String × String)}
    {file source : String} (hm : (file, source) ∈ sources) (hi : h.In source) :
    ∃ hs hs' ds ds',
      (compile commands sources).image =
        Image.ofHeaders (hs ++ (h.draft commands file).done ++ hs') ∧
      (compile commands sources).diagnostics =
        ds ++ (h.draft commands file).diagnostics ++ ds' := by
  obtain ⟨before, after, rfl⟩ := List.append_of_mem hm
  obtain ⟨front, line, raw, rest, hl, hraw, hrest⟩ := hi
  let read := fun d (file, source) => readFile commands d file source
  let first := readLines commands file (before.foldl read .empty) front
  obtain ⟨earlier, he, -⟩ := h.begins first file line
  have hwhole : readLines commands file first ((line, raw) :: h.body) =
      (h.read commands file).after earlier := by
    have hbegun : readLine commands file first line raw = beginHeader first file line h.mark := by
      rw [readLine_eq, hraw]
    rw [SourceHeader.read, ← readLines_after _ _ _ _ h.alone, ← he, ← hbegun]
    rfl
  have hended : ((h.draft commands file).after earlier).Extends
      (readFile commands (before.foldl read .empty) file source) := by
    rw [readFile_eq, hl, draft, ← Draft.close_after, ← hwhole, readLines_append, ← List.cons_append,
      readLines_append]
    exact ends commands _ file hrest
  obtain ⟨⟨hs', hh⟩, ⟨ds', hd⟩⟩ := hended.readFiles commands after
  refine ⟨earlier.done, hs', earlier.diagnostics, ds', ?_, ?_⟩
  · rw [compile, List.foldl_append]
    exact congrArg Image.ofHeaders hh.symm
  · rw [compile, List.foldl_append]
    exact hd.symm

/-! ## every problem -/

/-- A header with one more line. -/
def snoc (h : SourceHeader) (l : UInt32 × List Char) (hl : (Entry.ofLine l.2).isHeader = false) :
    SourceHeader :=
  ⟨h.mark, h.body ++ [l], h.named,
    List.forall_mem_append.2 ⟨h.alone, List.forall_mem_singleton.2 hl⟩⟩

/-- A section with one more line is read as the section, and then the line. -/
theorem read_snoc (commands : Commands) (file : String) (h : SourceHeader) (l : UInt32 × List Char)
    (hl : (Entry.ofLine l.2).isHeader = false) :
    (h.snoc l hl).read commands file =
      readLine commands file (h.read commands file) l.1 l.2 :=
  readLines_append commands file (h.begun file) h.body [l]

end SourceHeader

/-- A problem is one with the beginning of a header, or that of a header which is
read alone. -/
def Diagnostic.Placed (commands : Commands) (sources : List (String × String)) (x : Diagnostic) :
    Prop :=
  x.problem.atHeader = true ∨ ∃ file source, (file, source) ∈ sources ∧
    ∃ h : SourceHeader, h.In source ∧ x ∈ (h.draft commands file).diagnostics

namespace Compiler

section Walk

/-- What was read of a file up to some place: no header, or one whose lines go on
there; and all problems from before are placed. -/
inductive Walk (commands : Commands) (sources : List (String × String)) (file : String) :
    List (UInt32 × List Char) → Draft → Prop where
  | outside (current : d.current = none)
      (placed : ∀ x ∈ d.diagnostics, x.Placed commands sources) :
      Walk commands sources file front d
  | inside (h : SourceHeader) (raw : List Char) (hraw : Entry.ofLine raw = .header h.mark)
      (placed : ∀ x ∈ before.diagnostics, x.Placed commands sources) :
      Walk commands sources file (front ++ (line, raw) :: h.body)
        ((h.read commands file).after before)

variable {commands : Commands} {sources : List (String × String)} {file source : String}
  {front rest : List (UInt32 × List Char)} {d : Draft}

/-- No section is open once the last is closed. -/
theorem current_close (d : Draft) (file : String) : (d.close file).current = none := by
  unfold Draft.close
  cases hc : d.current with
  | none => exact hc
  | some s => rfl

/-- A report at a header keeps every diagnostic at its place. -/
theorem placed_report {line : UInt32} {p : Problem} (hp : p.atHeader = true)
    (hplaced : ∀ x ∈ d.diagnostics, x.Placed commands sources) :
    ∀ x ∈ (d.report file line p).diagnostics, x.Placed commands sources :=
  List.forall_mem_append.2 ⟨hplaced, List.forall_mem_singleton.2 (.inl hp)⟩

/-- Where a header may end, the problems of the header are placed. -/
theorem Walk.close (h : Walk commands sources file front d) (hm : (file, source) ∈ sources)
    (hl : sourceLines source = front ++ rest)
    (hr : ∀ next ∈ rest.head?, (Entry.ofLine next.2).isHeader = true) :
    ∀ x ∈ (d.close file).diagnostics, x.Placed commands sources := by
  cases h with
  | outside hcurrent hplaced =>
      rw [Draft.close, hcurrent]
      exact hplaced
  | inside h raw hraw hplaced =>
      rw [List.append_assoc, List.cons_append] at hl
      rw [Draft.close_after]
      have hhere : h.In source := ⟨_, _, raw, rest, hl, hraw, hr⟩
      exact List.forall_mem_append.2 ⟨hplaced, fun x hx => .inr ⟨file, source, hm, h, hhere, hx⟩⟩

/-- One line more: it goes on with what was read, or begins a header. -/
theorem Walk.readLine {l : UInt32 × List Char} (h : Walk commands sources file front d)
    (hm : (file, source) ∈ sources)
    (hl : sourceLines source = front ++ l :: rest) :
    Walk commands sources file (front ++ [l]) (readLine commands file d l.1 l.2) := by
  cases header : (Entry.ofLine l.2).isHeader with
  | false =>
      cases h with
      | outside hcurrent hplaced =>
          rw [readLine_eq, hcurrent]
          cases he : Entry.ofLine l.2 with
          | skipped => exact .outside hcurrent hplaced
          | header => rw [he] at header; cases header
          | event | statement => exact .outside hcurrent (placed_report rfl hplaced)
      | inside h raw hraw hplaced =>
          rw [readLine_after _ _ _ _ header, ← h.read_snoc commands file l header,
            List.append_assoc, List.cons_append]
          exact .inside (h.snoc l header) raw hraw hplaced
  | true =>
      have hended := h.close hm hl fun next hn => Option.some.inj hn ▸ header
      rw [readLine_eq]
      cases he : Entry.ofLine l.2 with
      | skipped | event | statement => rw [he] at header; cases header
      | header mark =>
          dsimp only
          cases hnamed : (markName mark).isEmpty || Text.hasBlank (markName mark) with
          | true =>
              rw [beginHeader, if_pos hnamed]
              exact .outside (current_close d file) (placed_report rfl hended)
          | false =>
              have hvalid := Bool.or_eq_false_iff.1 hnamed
              let h : SourceHeader :=
                ⟨mark, [], ⟨fun hn => by simp [hn] at hvalid, hvalid.2⟩, nofun⟩
              obtain ⟨before, hb, hnew⟩ := h.begins d file l.1
              have hplaced : ∀ x ∈ before.diagnostics, x.Placed commands sources :=
                fun x hx => (hnew x hx).elim (hended x) .inl
              rw [show beginHeader d file l.1 mark = _ from hb]
              exact .inside h l.2 he hplaced

/-- A walk goes on over lines of its file. -/
theorem Walk.readLines {lines : List (UInt32 × List Char)}
    (h : Walk commands sources file front d) (hm : (file, source) ∈ sources)
    (hl : sourceLines source = front ++ lines) :
    Walk commands sources file (front ++ lines) (readLines commands file d lines) := by
  induction lines generalizing front d with
  | nil => rwa [List.append_nil]
  | cons l rest ih =>
      have hwalk := ih (h.readLine hm hl) (hl.trans (List.append_cons ..))
      rwa [← List.append_cons] at hwalk

/-- Files of the sources are read with every diagnostic at its place. -/
theorem Walk.readFiles {sources' : List (String × String)} (hs : sources' ⊆ sources)
    (houtside : d.current = none) (hplaced : ∀ x ∈ d.diagnostics, x.Placed commands sources) :
    ∀ x ∈ (sources'.foldl (fun d (file, source) => readFile commands d file source)
      d).diagnostics, x.Placed commands sources := by
  induction sources' generalizing d with
  | nil => exact hplaced
  | cons s rest ih =>
      have hm := hs List.mem_cons_self
      have hstart : Walk commands sources s.1 [] d := .outside houtside hplaced
      have hwalk := hstart.readLines hm (List.nil_append _).symm
      have hended := hwalk.close hm (List.append_nil _).symm nofun
      exact ih (List.subset_of_cons_subset hs) (current_close _ s.1) hended

end Walk

end Compiler

/-- Every problem of a compilation is one with the beginning of a header, or
that of a header which is read alone. -/
theorem placed_of_mem_diagnostics {commands : Commands} {sources : List (String × String)} :
    ∀ x ∈ (compile commands sources).diagnostics, x.Placed commands sources :=
  Walk.readFiles (List.Subset.refl _) rfl nofun

end Switchboard
