import Switchboard.Proofs.Script.HeaderNames
import Switchboard.Proofs.Script.Outline

/-!
# Switchboard.Proofs.Script.Kept

Which headers of accepted sources are kept.

1. A heading is reported as a duplicate if its name has no leading `@` and an
   earlier heading has its key, or if the name of an earlier one is its own with
   one more `@`: these reports and no others are made (`duplicates_eq`).
2. So a name with a leading `@` is not compared with the names that have its key,
   and takes the place of such a header without a report.
3. Nothing of accepted sources is lost if and only if no name begins with `@@`, and
   none that begins with `@` comes after a heading with its key: `kept_iff_unambiguous`.
-/

namespace Switchboard

/-! ## problems of statements -/

/-- Whether a problem is that of a name that comes twice. -/
def Problem.isDuplicate : Problem → Bool
  | .duplicateHeader _ => true
  | _ => false

/-- An outcome that is no problem with the line of a header. -/
def Problem.Inner {α : Type} (x : Except Problem α) : Prop :=
  ∀ p, x = .error p → p.atHeader = false

namespace Problem.Inner

variable {α β : Type}

theorem ok (a : α) : Inner (.ok a) := nofun

/-- A problem that is not with a header is an inner one. -/
theorem error {p : Problem} (h : p.atHeader = false) : Inner (.error p : Except Problem α) := by
  rintro _ ⟨⟩
  exact h

/-- What has inner problems only goes on to what has. -/
theorem bind {x : Except Problem α} {f : α → Except Problem β} (hx : Inner x)
    (hf : ∀ a, Inner (f a)) : Inner (x >>= f) := by
  cases x with
  | error p => exact error (hx p rfl)
  | ok a => exact hf a

theorem map {x : Except Problem α} (hx : Inner x) (f : α → β) : Inner (x.map f) := by
  cases x with
  | error p => exact error (hx p rfl)
  | ok a => exact ok (f a)

end Problem.Inner

open Problem (Inner)

/-- A statement without tokens is an inner problem. -/
theorem Token.inner_tokenize (text : List Char) : Inner (tokenize text) := by
  unfold tokenize
  split
  · exact .ok _
  · exact .error rfl

/-- Clauses have inner problems only. -/
theorem Condition.inner_clauses (join : Join) (held tokens : List Token) :
    Inner (clauses join held tokens) := by
  induction tokens generalizing join held with
  | nil =>
      unfold clauses
      split
      · exact .ok _
      · exact .error rfl
  | cons t rest ih =>
      unfold clauses
      repeat' split
      · exact ih join _
      · exact .error rfl
      · exact .error rfl
      · exact (ih _ _).map _

/-- So have conditions. -/
theorem Condition.inner_ofTokens (tokens : List Token) : Inner (ofTokens tokens) := by
  unfold ofTokens
  split
  · exact .error rfl
  · exact inner_clauses .first [] tokens

namespace Statement

/-- A target that is missing is an inner problem. -/
theorem inner_target (command : String) (tokens : List Token) : Inner (target command tokens) := by
  unfold target
  repeat' split
  · exact .error rfl
  · exact .ok _
  · exact .error rfl

/-- A size that cannot be read is an inner problem. -/
theorem inner_sized (size : Option Nat) (args : List Argument) : Inner (sized size args) := by
  induction args generalizing size with
  | nil => exact .ok _
  | cons arg rest ih =>
      unfold sized
      repeat' split
      · exact ih _
      · exact .error rfl
      · exact .error rfl
      · exact (ih size).map _

/-- Arguments that bind no name are an inner problem. -/
theorem inner_bindings (tokens : List Token) : Inner (bindings tokens) := by
  induction tokens with
  | nil => exact .ok _
  | cons t rest ih =>
      unfold bindings
      split
      · exact ih.map _
      · exact .error rfl

/-- A delimiter of more characters is an inner problem. -/
theorem inner_delimiter (t : Option Token) : Inner (delimiter t) := by
  unfold delimiter
  repeat' split
  · exact .ok _
  · exact .ok _
  · exact .error rfl

/-- Statements that leave the blocks alone have inner problems only. -/
theorem inner_simple (keyword : String) (rest : List Token) : Inner (simple keyword rest) := by
  have hnamed (command : String) := inner_target command rest
  unfold simple
  split
  case h_1 => exact (hnamed _).bind fun _ => .ok _
  case h_2 =>
    split
    · exact .error rfl
    · exact .ok _
  case h_3 => exact (hnamed _).bind fun _ => (inner_sized _ _).bind fun _ => .ok _
  case h_4 =>
    refine (hnamed _).bind fun _ => ?_
    split
    · split
      · exact .error rfl
      · split
        · exact .error rfl
        · exact .ok _
    · exact .error rfl
  case h_5 =>
    have hchecked (name : String) (expression : List Token) :
        Inner (if expression.isEmpty then .error (.missingExpression "index")
          else .ok (some (Command.index name (arguments expression)))) := by
      split
      · exact .error rfl
      · exact .ok _
    exact (hnamed _).bind fun name => hchecked name _
  case h_6 | h_7 =>
    split
    · exact .error rfl
    · exact .ok _
  case h_8 =>
    split
    · split
      · exact .error rfl
      · exact (inner_bindings _).map _
    · exact .error rfl
  all_goals exact .ok _

/-- So have those of branches and choices. -/
theorem inner_branching (keyword : String) (rest : List Token) (nest : Nest) (line : UInt32) :
    Inner (branching keyword rest nest line) := by
  have hcond := Condition.inner_ofTokens rest
  unfold branching
  split
  case h_1 => exact hcond.bind fun _ => .ok _
  case h_2 =>
    split
    · exact hcond.bind fun _ => .ok _
    · exact .error rfl
    · exact .error rfl
  case h_5 =>
    refine hcond.bind fun _ => ?_
    split
    · exact .error rfl
    · exact .ok _
    · exact .ok _
  case h_8 => exact .ok _
  all_goals
    split
    any_goals exact .error rfl
    exact .ok _

/-- So have those of loops. -/
theorem inner_looping (keyword : String) (rest : List Token) (nest : Nest) (line : UInt32) :
    Inner (looping keyword rest nest line) := by
  have hcond := Condition.inner_ofTokens rest
  unfold looping
  split
  case h_2 => exact hcond.bind fun _ => .ok _
  case h_4 =>
    refine (inner_target _ rest).bind fun _ => ?_
    split
    · exact .error rfl
    · exact (inner_delimiter _).bind fun _ => .ok _
  case h_6 =>
    split
    · exact hcond.bind fun _ => .ok _
    · exact .error rfl
    · exact .error rfl
  case h_1 | h_9 => exact .ok _
  all_goals
    split
    any_goals exact .error rfl
    exact .ok _

/-- The problem of a statement is none with a header. -/
theorem inner_read (commands : Commands) (nest : Nest) (line : UInt32) (tokens : List Token) :
    Inner (read commands nest line tokens) := by
  cases tokens with
  | nil => exact .error rfl
  | cons first rest =>
      unfold read
      dsimp only
      split
      · exact .error rfl
      · refine (inner_simple _ _).bind fun simple => ?_
        split
        · exact .ok _
        · refine (inner_branching _ _ _ _).bind fun block => ?_
          split
          · exact .ok _
          · refine (inner_looping _ _ _ _).bind fun loop => ?_
            split
            · exact .ok _
            · split
              · exact .ok _
              · exact .error rfl

end Statement

/-! ## names that are compared -/

namespace Heading

/-- An earlier heading to which a later one is found alike. -/
def Repeats (earlier : List Heading) (g : Heading) : Prop :=
  ∃ e ∈ earlier, (Header.marks g.name = 0 ∧ Header.key e.name = Header.key g.name) ∨
    Text.lowered e.name = "@" ++ Text.lowered g.name

instance (earlier : List Heading) (g : Heading) : Decidable (g.Repeats earlier) :=
  inferInstanceAs (Decidable (∃ e ∈ earlier, _ ∨ _))

/-- The report of a name that comes twice. -/
def duplicate (g : Heading) : Diagnostic := ⟨g.file, g.line, .duplicateHeader g.name⟩

/-- The headings that are found alike to earlier ones. -/
def repeated (earlier : List Heading) : List Heading → List Heading
  | [] => []
  | g :: rest =>
    (if g.Repeats earlier then [g] else []) ++ repeated (earlier ++ [g]) rest

/-- Headings are repeated by those before them, in the same part or an earlier one. -/
theorem repeated_append (earlier gs more : List Heading) :
    repeated earlier (gs ++ more) = repeated earlier gs ++ repeated (earlier ++ gs) more := by
  induction gs generalizing earlier with
  | nil => simp [repeated]
  | cons g rest ih =>
      rw [List.cons_append, repeated, repeated, ih, List.append_assoc, List.append_assoc]
      rfl

/-- Where no heading is found alike to an earlier one, none is that follows others. -/
theorem not_repeats_of_repeated {earlier gs : List Heading} (h : repeated earlier gs = []) :
    gs.Pairwise fun e g => ¬ g.Repeats [e] := by
  induction gs generalizing earlier with
  | nil => exact .nil
  | cons e rest ih =>
      obtain ⟨-, hothers⟩ := List.append_eq_nil_iff.1 h
      refine List.pairwise_cons.2 ⟨fun g hg hrepeats => ?_, ih hothers⟩
      obtain ⟨before, after, rfl⟩ := List.append_of_mem hg
      rw [repeated_append] at hothers
      obtain ⟨-, hreported⟩ := List.append_eq_nil_iff.1 hothers
      obtain ⟨hreported, -⟩ := List.append_eq_nil_iff.1 hreported
      obtain ⟨e', he', halike⟩ := hrepeats
      obtain rfl := List.mem_singleton.1 he'
      have hfound : g.Repeats (earlier ++ [e'] ++ before) := ⟨e', by simp, halike⟩
      rw [if_pos hfound] at hreported
      exact List.cons_ne_nil _ _ hreported

end Heading

namespace Compiler

open Heading (repeated)

/-- The names of the headers that were begun. -/
def Draft.names (d : Draft) : List String :=
  d.done.map (·.name) ++ (d.current.map (·.header.name)).toList

/-- The reports of names that come twice. -/
def Draft.duplicates (d : Draft) : List Diagnostic :=
  d.diagnostics.filter (·.problem.isDuplicate)

/-- The names, and the reports of those that come twice, as they were. -/
structure Draft.SameNames (d later : Draft) : Prop where
  names : later.names = d.names
  duplicates : later.duplicates = d.duplicates

namespace Draft.SameNames

variable {d later : Draft}

theorem refl (d : Draft) : d.SameNames d := ⟨rfl, rfl⟩

/-- A problem that is not a duplicate leaves names and duplicates as they are. -/
theorem report (h : d.SameNames later) (file : String) (line : UInt32) {p : Problem}
    (hp : p.isDuplicate = false) : d.SameNames (later.report file line p) := by
  refine ⟨h.names, ?_⟩
  rw [← h.duplicates]
  change (later.diagnostics ++ [_]).filter _ = later.diagnostics.filter _
  simp [List.filter_append, hp]

/-- Blocks that are reported as open leave names and duplicates as they are. -/
theorem reportOpen (h : d.SameNames later) (file : String) (blocks : List (Block × UInt32)) :
    d.SameNames (later.reportOpen file blocks) := by
  unfold Draft.reportOpen
  generalize blocks.reverse = reversed
  induction reversed generalizing later with
  | nil => exact h
  | cons block rest ih => exact ih (h.report file block.2 rfl)

/-- A header that ends keeps its name. -/
theorem close (d : Draft) (file : String) :
    d.SameNames (d.close file) ∧ (d.close file).done.map (·.name) = d.names := by
  unfold Draft.close
  cases hc : d.current with
  | none =>
      refine ⟨refl d, ?_⟩
      rw [Draft.names, hc]
      exact (List.append_nil _).symm
  | some s =>
      have hreported := (refl d).reportOpen file s.nest.blocks
      have hdone := (Written.reportOpen (d := d) file s.nest.blocks).1
      have hall :
          ((d.reportOpen file s.nest.blocks).done ++ [s.header]).map (·.name) = d.names := by
        rw [hdone, List.map_append, Draft.names, hc]
        rfl
      refine ⟨⟨?_, hreported.duplicates⟩, hall⟩
      exact (List.append_nil _).trans hall

/-- A header keeps its name whatever is read into it. -/
theorem current {s t : Section} (hc : d.current = some s) (hnamed : t.header.name = s.header.name)
    (listing : List String) : d.SameNames { d with current := some t, listing := listing } := by
  refine ⟨?_, rfl⟩
  rw [Draft.names, Draft.names, hc, Option.map_some, Option.map_some, hnamed]

/-- Only the line of a header adds a name or the report of one. -/
theorem readLine (d : Draft) (commands : Commands) (file : String) (line : UInt32)
    (raw : List Char) (h : (Entry.ofLine raw).isHeader = false) :
    d.SameNames (Compiler.readLine commands file d line raw) := by
  rw [readLine_eq]
  cases he : Entry.ofLine raw with
  | skipped => exact refl d
  | header mark =>
      rw [he] at h
      contradiction
  | event mark =>
      cases hc : d.current with
      | none => exact (refl d).report file line rfl
      | some s =>
          dsimp only [markEvent]
          split
          · exact (refl d).report file line rfl
          · refine current hc ?_ _
            rfl
  | statement text =>
      cases hc : d.current with
      | none => exact (refl d).report file line rfl
      | some s =>
          dsimp only [addStatement]
          split
          · next p hp =>
            have hinner : p.atHeader = false :=
              ((Token.inner_tokenize text).bind fun tokens =>
                Statement.inner_read commands s.nest line tokens) p hp
            refine (refl d).report file line ?_
            cases p <;> first | rfl | contradiction
          · refine current hc ?_ _
            rfl

end Draft.SameNames

/-- The line of a header adds its name, if it is one, and a report if the name is found alike
to an earlier one. -/
theorem beginHeader_names {d : Draft} {earlier : List Heading}
    (h : d.names = earlier.map fun e => Header.bare e.name) (g : Heading) :
    (beginHeader d g.file g.line g.mark).names =
        (earlier ++ [g].filter Heading.isValid).map (fun e => Header.bare e.name) ∧
      (beginHeader d g.file g.line g.mark).duplicates =
        d.duplicates ++ (repeated earlier ([g].filter Heading.isValid)).map Heading.duplicate := by
  obtain ⟨hclosed, hdone⟩ := Draft.SameNames.close d g.file
  unfold beginHeader
  dsimp only
  by_cases hvalid : (markName g.mark).isEmpty || Text.hasBlank (markName g.mark)
  · have hrejected : g.isValid = false := by rw [Heading.isValid, hvalid]; rfl
    have hreported := hclosed.report g.file g.line (p := .invalidHeader g.name) rfl
    rw [if_pos hvalid]
    simpa [hrejected, repeated, ← h] using ⟨hreported.names, hreported.duplicates⟩
  · have haccepted : [g].filter Heading.isValid = [g] := by
      refine List.filter_eq_self.2 fun e he => ?_
      rw [List.mem_singleton.1 he, Heading.isValid, eq_false_of_ne_true hvalid]
      rfl
    have hfound : ((d.close g.file).done.any fun h =>
        Text.alike h.name (String.ofList (markName g.mark))) = true ↔ g.Repeats earlier := by
      have hseen : ((d.close g.file).done.any fun h =>
          Text.alike h.name (String.ofList (markName g.mark))) =
            d.names.any fun name => Text.alike name g.name := by
        rw [← hdone, List.any_map]
        rfl
      simp only [hseen, h, List.any_map, List.any_eq_true, Function.comp_apply,
        Header.alike_bare_iff, Heading.Repeats]
    have hnamed : (d.close g.file).done.map (·.name) ++ [Header.bare g.name] =
        (earlier ++ [g]).map fun e => Header.bare e.name := by
      rw [hdone, h, List.map_append]
      rfl
    rw [if_neg hvalid, haccepted, repeated, repeated]
    by_cases htwice : g.Repeats earlier
    · rw [if_pos htwice, if_pos (hfound.2 htwice)]
      refine ⟨hnamed, ?_⟩
      rw [← hclosed.duplicates]
      exact List.filter_append ..
    · rw [if_neg htwice, if_neg fun hf => htwice (hfound.1 hf)]
      refine ⟨hnamed, ?_⟩
      rw [← hclosed.duplicates]
      exact (List.append_nil _).symm

/-- The names in the lines of a file, and the reports that are made of them. -/
theorem readLines_names (commands : Commands) {d : Draft} {earlier : List Heading}
    (h : d.names = earlier.map fun e => Header.bare e.name) (file : String)
    (lines : List (UInt32 × List Char)) :
    (readLines commands file d lines).names =
        (earlier ++ (headingsIn file lines).filter Heading.isValid).map
          (fun e => Header.bare e.name) ∧
      (readLines commands file d lines).duplicates =
        d.duplicates ++ (repeated earlier
          ((headingsIn file lines).filter Heading.isValid)).map Heading.duplicate := by
  induction lines generalizing d earlier with
  | nil => simpa [headingsIn, repeated, readLines] using h
  | cons l rest ih =>
      obtain ⟨line, raw⟩ := l
      have hwhole : readLines commands file d ((line, raw) :: rest) =
          readLines commands file (readLine commands file d line raw) rest := rfl
      rw [hwhole, headingsIn]
      cases he : Entry.ofLine raw with
      | header mark =>
          obtain ⟨hnames, hduplicates⟩ := beginHeader_names h ⟨file, line, mark, loose rest⟩
          rw [readLine_eq, he]
          dsimp only at hnames hduplicates ⊢
          obtain ⟨hall, hreports⟩ := ih hnames
          rw [← List.singleton_append, List.filter_append, hall, hreports, hduplicates,
            Heading.repeated_append, List.map_append (f := Heading.duplicate)]
          exact ⟨by rw [List.append_assoc], by rw [List.append_assoc]⟩
      | skipped | event mark | statement text =>
          have hsame := Draft.SameNames.readLine d commands file line raw
            (by rw [he]; rfl)
          rw [← hsame.duplicates]
          exact ih (hsame.names.trans h)

/-- The names in all sources, and the reports that are made of them. -/
theorem readFiles_names {commands : Commands} {sources : List (String × String)} {d : Draft}
    (earlier : List Heading) (h : d.names = earlier.map fun e => Header.bare e.name) :
    (sources.foldl (fun d (file, source) => readFile commands d file source) d).duplicates =
      d.duplicates ++ (repeated earlier
        ((headings sources).filter Heading.isValid)).map Heading.duplicate := by
  induction sources generalizing d earlier with
  | nil => exact (List.append_nil _).symm
  | cons source rest ih =>
      obtain ⟨file, source⟩ := source
      obtain ⟨hnames, hduplicates⟩ := readLines_names commands h file
        (sourceLines source)
      obtain ⟨hclosed, -⟩ := Draft.SameNames.close
        (readLines commands file d (sourceLines source)) file
      have hothers := ih _ (hclosed.names.trans hnames)
      rw [List.foldl_cons]
      refine hothers.trans ?_
      have hall : headings ((file, source) :: rest) =
          headingsIn file (sourceLines source) ++ headings rest := rfl
      rw [hclosed.duplicates, hduplicates, hall, List.filter_append, Heading.repeated_append,
        List.map_append, List.append_assoc]

end Compiler

/-- The reports of names that come twice, among all problems of sources. -/
theorem duplicates_eq (commands : Commands) (sources : List (String × String)) :
    (compile commands sources).diagnostics.filter (·.problem.isDuplicate) =
      (Heading.repeated [] ((headings sources).filter Heading.isValid)).map Heading.duplicate :=
  Compiler.readFiles_names (d := .empty) [] rfl

/-! ## sources of which nothing is lost -/

open Compiler (Entry)

/-- Nothing of accepted sources is lost: the image has one header for each heading, in order,
with the lines of its statements, and each is found by the name that is given to it,
whatever the case of its letters. -/
structure Kept (commands : Commands) (sources : List (String × String)) : Prop where
  headers : List.Forall₂ (Heading.Compiles commands) (headings sources)
    (compile commands sources).image.headers
  size : (compile commands sources).image.size = countLines Entry.isHeader sources
  lineCount : (compile commands sources).image.lineCount = countLines Entry.isStatement sources
  found : ∀ i g, (headings sources)[i]? = some g → ∀ name, Text.alike name g.name = true →
    (compile commands sources).image.indexOf? name = some i ∧
      (compile commands sources).image.header? name =
        (compile commands sources).image.headerAt? i

/-- No name begins with `@@`, and none that begins with `@` comes after another with
its key. -/
structure Unambiguous (gs : List Heading) : Prop where
  short : ∀ g ∈ gs, Header.marks g.name ≤ 1
  apart : gs.Pairwise fun e g =>
    Header.marks g.name = 1 → Header.key e.name ≠ Header.key g.name

namespace Heading

variable {commands : Commands} {gs : List Heading} {hs : List Header}

/-- Each heading has its header, at the same place. -/
theorem getElem?_compiled (h : List.Forall₂ (Compiles commands) gs hs) {i : Nat} {g : Heading}
    (hi : gs[i]? = some g) : ∃ header, hs[i]? = some header ∧ g.Compiles commands header := by
  obtain ⟨hlength, heach⟩ := List.forall₂_iff_get.1 h
  obtain ⟨hlt, rfl⟩ := List.getElem?_eq_some_iff.1 hi
  exact ⟨_, List.getElem?_eq_getElem (hlength ▸ hlt), heach i hlt (hlength ▸ hlt)⟩

/-- Headers have the keys of their headings. -/
theorem keys_compiled (h : List.Forall₂ (Compiles commands) gs hs) :
    Image.keys hs = gs.map fun g => Header.key (Header.bare g.name) := by
  induction h with
  | nil => rfl
  | cons hcompiled _ ih => exact congrArg₂ _ (congrArg Header.key hcompiled.name) ih

/-- What is compiled has valid names. -/
theorem filter_isValid (h : List.Forall₂ (Compiles commands) gs hs) :
    gs.filter isValid = gs := by
  induction h with
  | nil => rfl
  | cons hcompiled _ ih => rw [List.filter_cons_of_pos hcompiled.valid, ih]

/-- Headers have as many lines as their headings have statements. -/
theorem lines_compiled (h : List.Forall₂ (Compiles commands) gs hs) :
    total (hs.map (·.lines.length)) = countStatements gs := by
  induction h with
  | nil => rfl
  | cons hcompiled _ ih =>
      obtain ⟨nest, htranscribes, -⟩ := hcompiled.lines
      exact congrArg₂ _ htranscribes.length ih

end Heading

namespace Unambiguous

variable {gs : List Heading}

/-- Names that begin with at most one `@` are found by what is stored of them, and so all
keys are different if those are. -/
theorem nodup_iff (hshort : ∀ g ∈ gs, Header.marks g.name ≤ 1) :
    (gs.map fun g => Header.key (Header.bare g.name)).Nodup ↔
      gs.Pairwise fun e g => Header.key e.name ≠ Header.key g.name := by
  have hsame : (gs.map fun g => Header.key (Header.bare g.name)) =
      gs.map fun g => Header.key g.name :=
    List.map_congr_left fun g hg => (Header.key_bare_iff g.name).2 (hshort g hg)
  rw [hsame, List.Nodup, List.pairwise_map]

/-- Where no name is reported, the keys are different. -/
theorem pairwise (h : Unambiguous gs) {earlier : List Heading}
    (hunreported : Heading.repeated earlier gs = []) :
    gs.Pairwise fun e g => Header.key e.name ≠ Header.key g.name := by
  refine List.Pairwise.imp_of_mem ?_
    ((Heading.not_repeats_of_repeated hunreported).and h.apart)
  rintro e g - hg ⟨hunseen, hapart⟩ hsame
  have hshort := h.short g hg
  by_cases hmarked : Header.marks g.name = 1
  · exact hapart hmarked hsame
  · exact hunseen ⟨e, List.mem_singleton_self e, .inl ⟨by omega, hsame⟩⟩

end Unambiguous

section accepted

variable {commands : Commands} {sources : List (String × String)} {hs : List Header}

/-- Each name that is found by itself has one `@` at most, and headers all of which are there
have different keys. -/
theorem Kept.unambiguous (hkept : Kept commands sources)
    (hcompiled : List.Forall₂ (Heading.Compiles commands) (headings sources) hs)
    (himage : (compile commands sources).image = Image.ofHeaders hs) :
    Unambiguous (headings sources) := by
  have hsize : (Image.ofHeaders hs).size = hs.length := by
    rw [← himage, Image.size, ← hkept.headers.length_eq, hcompiled.length_eq]
  have hdistinct := Image.nodup_of_size hsize
  rw [Image.ofHeaders_of_nodup hdistinct] at himage
  have hshort : ∀ g ∈ headings sources, Header.marks g.name ≤ 1 := by
    intro g hg
    obtain ⟨i, hi⟩ := List.getElem?_of_mem hg
    obtain ⟨header, hh, his⟩ := Heading.getElem?_compiled hcompiled hi
    obtain ⟨hindex, -⟩ := hkept.found i g hi g.name (beq_self_eq_true _)
    rw [himage] at hindex
    obtain ⟨hlt, hsame, -⟩ := List.findIdx?_eq_some_iff_getElem.1 hindex
    obtain rfl := Option.some.inj ((List.getElem?_eq_getElem hlt).symm.trans hh)
    rw [beq_iff_eq, his.name] at hsame
    exact (Header.key_bare_iff g.name).1 hsame
  refine ⟨hshort, ?_⟩
  rw [Heading.keys_compiled hcompiled, Unambiguous.nodup_iff hshort] at hdistinct
  refine hdistinct.imp ?_
  rintro e g hapart -
  exact hapart

/-- Headers with different keys are all in the image, each where its own name finds it. -/
theorem Unambiguous.kept (h : Unambiguous (headings sources))
    (hunreported : Heading.repeated [] (headings sources) = [])
    (hcompiled : List.Forall₂ (Heading.Compiles commands) (headings sources) hs)
    (hcounted : countStatements (headings sources) = countLines Entry.isStatement sources)
    (himage : (compile commands sources).image = Image.ofHeaders hs) : Kept commands sources := by
  have hdistinct : (Image.keys hs).Nodup := by
    rw [Heading.keys_compiled hcompiled]
    exact (nodup_iff h.short).2 (h.pairwise hunreported)
  rw [Image.ofHeaders_of_nodup hdistinct] at himage
  refine ⟨?_, ?_, ?_, fun i g hi name halike => ?_⟩
  · rwa [himage]
  · rw [himage, Image.size, ← hcompiled.length_eq, length_headings]
  · rw [himage, Image.lineCount, Heading.lines_compiled hcompiled, hcounted]
  · obtain ⟨header, hh, his⟩ := Heading.getElem?_compiled hcompiled hi
    have hshort := h.short g (List.mem_of_getElem? hi)
    have hsame : Header.key header.name = Header.key name := by
      rw [his.name, (Header.key_bare_iff g.name).2 hshort, Header.key_of_alike halike]
    obtain ⟨hindex, hfound⟩ := Image.found_of_nodup hdistinct hh hsame
    rw [himage, hfound]
    exact ⟨hindex, hh.symm⟩

end accepted

/-- The reports of duplicate names are those that `Heading.Repeats` describes.  Accepted sources
are compiled heading by heading, and nothing of them is lost if and only if their names
are unambiguous. -/
theorem kept_iff_unambiguous (commands : Commands) (sources : List (String × String)) :
    (compile commands sources).diagnostics.filter (·.problem.isDuplicate) =
        (Heading.repeated [] ((headings sources).filter Heading.isValid)).map Heading.duplicate ∧
      ((compile commands sources).isClean = true →
        ∃ hs, List.Forall₂ (Heading.Compiles commands) (headings sources) hs ∧
          (compile commands sources).image = Image.ofHeaders hs ∧
          (Kept commands sources ↔ Unambiguous (headings sources))) := by
  have hreports := duplicates_eq commands sources
  refine ⟨hreports, fun hclean => ?_⟩
  have haccepted : (compile commands sources).diagnostics = [] := List.isEmpty_iff.1 hclean
  obtain ⟨hs, hcompiled, hdone, hcounted⟩ :=
    Compiler.readFiles_outline commands (d := .empty) rfl haccepted
  have himage : (compile commands sources).image = Image.ofHeaders hs :=
    congrArg Image.ofHeaders hdone
  rw [haccepted, Heading.filter_isValid hcompiled] at hreports
  have hunreported := List.map_eq_nil_iff.1 hreports.symm
  exact ⟨hs, hcompiled, himage, fun hkept => hkept.unambiguous hcompiled himage,
    fun hunambiguous => hunambiguous.kept hunreported hcompiled hcounted himage⟩

/-- Two files, in the second of which a header has its name in capitals. -/
def sampleFiles : List (String × String) :=
  [("menu", "@main\n  invoke @hello\n@@other\n  exit\n"),
    ("more", "# greetings\n@Hello:\n  return\n")]

theorem kept_sample_files : (compile [] sampleFiles).isClean = true ∧ Kept [] sampleFiles := by
  have hclean : (compile [] sampleFiles).isClean = true := by decide +kernel
  obtain ⟨-, hkept⟩ := kept_iff_unambiguous [] sampleFiles
  obtain ⟨hs, -, -, hiff⟩ := hkept hclean
  exact ⟨hclean, hiff.2 ⟨by decide +kernel, by decide +kernel⟩⟩

/-- A file with two headers of one key. -/
def ambiguousFile : List (String × String) := [("t", "@x\nexit\n@@x\nreturn\n")]

/-- The second header of the file takes the place of the first, and nothing is reported. -/
theorem header_lost_unreported :
    (headings ambiguousFile).map (fun g => Header.key g.name) = ["x", "x"] ∧
      (compile [] ambiguousFile).diagnostics = [] ∧
      (compile [] ambiguousFile).image.headers.map (·.lines.map (·.command)) = [[.leave]] ∧
      ¬ Kept [] ambiguousFile := by
  refine ⟨by decide +kernel, by decide +kernel, by decide +kernel, fun hkept => ?_⟩
  have hlost : (compile [] ambiguousFile).image.size ≠ countLines Entry.isHeader ambiguousFile := by
    decide +kernel
  exact hlost hkept.size

end Switchboard
