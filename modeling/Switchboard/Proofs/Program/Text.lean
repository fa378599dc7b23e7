import Switchboard.Proofs.Program.Reading
import Switchboard.Proofs.Script.Outline
import Switchboard.Proofs.Script.Spelling
import Switchboard.Proofs.Script.Writing

/-!
# Switchboard.Proofs.Program.Text

Structured programs in writing.

1. Lines list commands if each of them spells the next command, is blank, is a comment,
   or marks the place of an event handler (`Lists`).
2. A source is the text of a program if one of its lines begins a header, none but blank
   lines, comments and marks come before it, and the lines after it list the commands of
   the program (`Program.IsText`).
3. Such a text is compiled to one header, with one line for each command, and these are
   the commands of the program up to where a `case` opens a chain
   (`header_of_isText`).
4. They are the commands of the program exactly if none of its chains of choices stands
   directly in an arm of another one (`commands_eq_iff_legible`).
5. Every source with one header that compiles without problems is the text of such a
   program (`exists_isText`).
-/

namespace Switchboard

open Text Compiler

/-! ## texts -/

/-- The lines list the commands. -/
inductive Lists (commands : Commands) : List (List Char) → List Command → Prop
  | nil : Lists commands [] []
  | blank {raw : List Char} {lines : List (List Char)} {cs : List Command} :
      (∀ c ∈ raw, isBlank c = true) → Lists commands lines cs → Lists commands (raw :: lines) cs
  | comment {raw : List Char} {lines : List (List Char)} {cs : List Command} :
      Begins raw '#' → Lists commands lines cs → Lists commands (raw :: lines) cs
  | event {raw : List Char} {lines : List (List Char)} {cs : List Command} :
      Begins raw '^' → Lists commands lines cs → Lists commands (raw :: lines) cs
  | statement {raw : List Char} {first : Char} {tokens : List Token} {c : Command}
      {lines : List (List Char)} {cs : List Command} :
      Begins raw first → first ∉ lineMarks → Token.Line raw tokens → c.Spelled commands tokens →
      Lists commands lines cs → Lists commands (raw :: lines) (c :: cs)

/-- The source is the text of a program. -/
def Program.IsText (commands : Commands) (p : Program) (source : String) : Prop :=
  ∃ front mark body, source = String.ofList (['\n'].intercalate (front ++ mark :: body)) ∧
    (∀ line ∈ front ++ mark :: body, '\n' ∉ line) ∧ Lists commands front [] ∧
    Begins mark '@' ∧ Lists commands body p.commands

/-- Programs with commands that are spelled alike have the same texts. -/
theorem Program.IsText.alike {commands : Commands} {p q : Program} {source : String}
    (h : p.IsText commands source) (hq : List.Forall₂ Command.Alike p.commands q.commands) :
    q.IsText commands source := by
  have hlists {lines : List (List Char)} {cs ds : List Command} (hl : Lists commands lines cs)
      (hds : List.Forall₂ Command.Alike cs ds) : Lists commands lines ds := by
    induction hl generalizing ds with
    | nil =>
        obtain rfl := List.forall₂_nil_left_iff.mp hds
        exact .nil
    | blank hblank _ ih => exact .blank hblank (ih hds)
    | comment hbegins _ ih => exact .comment hbegins (ih hds)
    | event hbegins _ ih => exact .event hbegins (ih hds)
    | statement hbegins hfirst htokens hspelled _ ih =>
        cases hds with
        | cons hd hds =>
            exact .statement hbegins hfirst htokens (hspelled.alike hd) (ih hds)
  obtain ⟨front, mark, body, hsource, hfeeds, hfront, hmark, hbody⟩ := h
  exact ⟨front, mark, body, hsource, hfeeds, hfront, hmark, hlists hbody hq⟩

/-! ## statements of a text -/

/-- The statements up to the next heading. -/
def statementTexts : List Entry → List (List Char)
  | [] | .header _ :: _ => []
  | .skipped :: rest | .event _ :: rest => statementTexts rest
  | .statement text :: rest => text :: statementTexts rest

/-- The statements below each heading. -/
def headingTexts : List Entry → List (List (List Char))
  | [] => []
  | .header _ :: rest => statementTexts rest :: headingTexts rest
  | .skipped :: rest | .event _ :: rest | .statement _ :: rest => headingTexts rest

/-- The loose statements of lines are those of their texts. -/
theorem map_loose (lines : List (UInt32 × List Char)) :
    (loose lines).map Prod.snd = statementTexts (lines.map (Entry.ofLine ·.2)) := by
  induction lines with
  | nil => rfl
  | cons l rest ih =>
      rw [List.map_cons, loose]
      cases Entry.ofLine l.2 with
      | skipped | event _ => exact ih
      | header _ => rfl
      | statement text => exact congrArg (text :: ·) ih

/-- An outline depends on what the lines are, and not on how they are written. -/
theorem map_headingsIn (file : String) (lines : List (UInt32 × List Char)) :
    (headingsIn file lines).map (·.statements.map Prod.snd) =
      headingTexts (lines.map (Entry.ofLine ·.2)) := by
  induction lines with
  | nil => rfl
  | cons l rest ih =>
      rw [List.map_cons, headingsIn]
      cases Entry.ofLine l.2 with
      | skipped | event _ | statement _ => exact ih
      | header _ => rw [List.map_cons, headingTexts, ih, map_loose]

/-- A line that is skipped at the end adds no statement. -/
theorem statementTexts_skipped (entries : List Entry) :
    statementTexts (entries ++ [.skipped]) = statementTexts entries := by
  induction entries with
  | nil => rfl
  | cons entry rest ih =>
      cases entry with
      | skipped | event _ => exact ih
      | header _ => rfl
      | statement text => exact congrArg (text :: ·) ih

/-- A line that is skipped adds nothing to a heading. -/
theorem headingTexts_skipped (entries : List Entry) :
    headingTexts (entries ++ [.skipped]) = headingTexts entries := by
  induction entries with
  | nil => rfl
  | cons entry rest ih =>
      cases entry with
      | skipped | event _ | statement _ => exact ih
      | header _ => rw [List.cons_append, headingTexts, headingTexts, statementTexts_skipped, ih]

/-- Lines without a heading begin no header. -/
theorem headingTexts_append {front : List Entry} (h : ∀ e ∈ front, e.isHeader = false)
    (entries : List Entry) : headingTexts (front ++ entries) = headingTexts entries := by
  induction front with
  | nil => rfl
  | cons e front ih =>
      obtain ⟨he, hfront⟩ := List.forall_mem_cons.mp h
      cases e with
      | skipped | event _ | statement _ => exact ih hfront
      | header _ => contradiction

/-- A statement as it is written spells a command. -/
def Writes (commands : Commands) (text : List Char) (c : Command) : Prop :=
  ∃ tokens, Token.Line text tokens ∧ c.Spelled commands tokens

/-- Lines list the commands that their statements spell. -/
theorem lists_iff {commands : Commands} {lines : List (List Char)} {cs : List Command} :
    Lists commands lines cs ↔ (∀ e ∈ lines.map Entry.ofLine, e.isHeader = false) ∧
      List.Forall₂ (Writes commands) (statementTexts (lines.map Entry.ofLine)) cs := by
  have hline {raw : List Char} {tokens : List Token} :
      Token.Line (trim raw) tokens ↔ Token.Line raw tokens := by
    rw [← Token.tokenize_eq_ok_iff, Token.tokenize_trim, Token.tokenize_eq_ok_iff]
  constructor
  · intro h
    induction h with
    | nil => exact ⟨List.forall_mem_nil _, .nil⟩
    | blank hblank _ ih =>
        rw [List.map_cons, Entry.ofLine_of_blank hblank]
        exact ⟨List.forall_mem_cons.mpr ⟨rfl, ih.1⟩, ih.2⟩
    | comment hbegins _ ih =>
        rw [List.map_cons, (Entry.ofLine_of_begins hbegins).1 rfl]
        exact ⟨List.forall_mem_cons.mpr ⟨rfl, ih.1⟩, ih.2⟩
    | event hbegins _ ih =>
        obtain ⟨mark, hmark⟩ := (Entry.ofLine_of_begins hbegins).2.2.1 rfl
        rw [List.map_cons, hmark]
        exact ⟨List.forall_mem_cons.mpr ⟨rfl, ih.1⟩, ih.2⟩
    | statement hbegins hfirst htokens hspelled _ ih =>
        rw [List.map_cons, (Entry.ofLine_of_begins hbegins).2.2.2 hfirst]
        exact ⟨List.forall_mem_cons.mpr ⟨rfl, ih.1⟩, .cons ⟨_, hline.mpr htokens, hspelled⟩ ih.2⟩
  · rintro ⟨hheader, htexts⟩
    induction lines generalizing cs with
    | nil =>
        obtain rfl := List.forall₂_nil_left_iff.mp htexts
        exact .nil
    | cons raw lines ih =>
        obtain ⟨hfirst, hrest⟩ := List.forall_mem_cons.mp hheader
        rw [List.map_cons] at htexts
        rcases blank_or_begins raw with hblank | ⟨c, hbegins⟩
        · rw [Entry.ofLine_of_blank hblank] at htexts
          exact .blank hblank (ih hrest htexts)
        · obtain ⟨hcomment, hheading, hevent, hstatement⟩ := Entry.ofLine_of_begins hbegins
          by_cases hc : c ∈ lineMarks
          · simp only [lineMarks, List.mem_cons, List.not_mem_nil, or_false] at hc
            rcases hc with rfl | rfl | rfl
            · rw [hcomment rfl] at htexts
              exact .comment hbegins (ih hrest htexts)
            · obtain ⟨mark, hmark⟩ := hheading rfl
              rw [hmark] at hfirst
              contradiction
            · obtain ⟨mark, hmark⟩ := hevent rfl
              rw [hmark] at htexts
              exact .event hbegins (ih hrest htexts)
          · rw [hstatement hc] at htexts
            cases htexts with
            | cons hwrites htexts =>
                obtain ⟨tokens, htokens, hspelled⟩ := hwrites
                exact .statement hbegins hc (hline.mp htokens) hspelled (ih hrest htexts)

/-! ## one header -/

variable {commands : Commands} {file source : String} {p : Program}

/-- The outline of a text has one heading, and below it the statements that spell the
commands of the program. -/
theorem heading_of_isText (h : p.IsText commands source) :
    ∃ g, headings [(file, source)] = [g] ∧
      List.Forall₂ (Writes commands) (g.statements.map Prod.snd) p.commands := by
  obtain ⟨front, mark, body, rfl, hfeeds, hfront, hmark, hbody⟩ := h
  obtain ⟨hfront, -⟩ := lists_iff.mp hfront
  obtain ⟨hbody, htexts⟩ := lists_iff.mp hbody
  obtain ⟨name, hname⟩ := (Entry.ofLine_of_begins hmark).2.1 rfl
  have hwhole : headingTexts ((front ++ mark :: body).map Entry.ofLine) =
      [statementTexts (body.map Entry.ofLine)] := by
    rw [List.map_append, headingTexts_append hfront, List.map_cons, hname, headingTexts,
      ← List.append_nil (body.map Entry.ofLine), headingTexts_append hbody, headingTexts,
      List.append_nil]
  have hheadings :
      (headings [(file, String.ofList (['\n'].intercalate (front ++ mark :: body)))]).map
      (·.statements.map Prod.snd) = [statementTexts (body.map Entry.ofLine)] := by
    rw [headings, List.flatMap_singleton, map_headingsIn, ← hwhole]
    rcases map_sourceLines (by simp) hfeeds with heq | heq
    · rw [heq]
    · rw [← heq, headingTexts_skipped]
  obtain ⟨g, hg, htext⟩ := List.map_eq_singleton_iff.mp hheadings
  exact ⟨g, hg, htext ▸ htexts⟩

/-- Statements that are accepted spell the commands of their lines. -/
theorem Transcribes.alike {n m : Nest} {statements : List (UInt32 × List Char)} {ls : List Line}
    {cs : List Command} (h : Transcribes commands n statements ls m)
    (hcs : List.Forall₂ (Writes commands) (statements.map Prod.snd) cs) :
    List.Forall₂ (fun l c => l.command.Alike c) ls cs := by
  induction h generalizing cs with
  | nil n =>
      obtain rfl := List.forall₂_nil_left_iff.mp hcs
      exact .nil
  | cons hread _ ih =>
      cases hcs with
      | cons hwrites hcs =>
          obtain ⟨tokens, htokens, hspelled⟩ := hwrites
          rw [Token.tokenize_eq_ok_iff.mpr htokens] at hread
          exact .cons (Statement.alike_of_read hspelled hread) (ih hcs)

/-- Lines that transcribe statements are spelled by them. -/
theorem Transcribes.spelled {n m : Nest} {statements : List (UInt32 × List Char)}
    {ls : List Line} (h : Transcribes commands n statements ls m) :
    List.Forall₂ (Writes commands) (statements.map Prod.snd) (ls.map (·.command)) := by
  induction h with
  | nil n => exact .nil
  | cons hread _ ih =>
      obtain ⟨tokens, htokens, hread⟩ := ok_of_bind hread
      exact .cons ⟨tokens, Token.tokenize_eq_ok_iff.mp htokens, Statement.spelled_of_read hread⟩ ih

/-- What is read of one source, if no problem is found: the headers of its outline. -/
theorem headers_of_isClean (hclean : (compile commands [(file, source)]).isClean = true) :
    ∃ hs, List.Forall₂ (Heading.Compiles commands) (headings [(file, source)]) hs ∧
      (compile commands [(file, source)]).image = Image.ofHeaders hs ∧
      loose (sourceLines source) = [] := by
  obtain ⟨hs, hcompiles, hdone, hcount⟩ :=
    readFiles_outline commands (d := .empty) rfl (List.isEmpty_iff.mp hclean)
  refine ⟨hs, hcompiles, congrArg Image.ofHeaders hdone, List.eq_nil_of_length_eq_zero ?_⟩
  have hlines := countStatements_headingsIn file (sourceLines source)
  rw [headings, List.flatMap_singleton, countLines, List.map_singleton, total, total] at hcount
  dsimp only at hcount
  omega

/-- A text that compiles without problems is compiled to one header, whose lines spell the
commands of the program. -/
theorem header_of_isText (h : p.IsText commands source)
    (hclean : (compile commands [(file, source)]).isClean = true) :
    ∃ header, (compile commands [(file, source)]).image.headers = [header] ∧
      List.Forall₂ (fun l c => l.command.Alike c) header.lines p.commands := by
  obtain ⟨g, hg, htexts⟩ : ∃ g, headings [(file, source)] = [g] ∧
      List.Forall₂ (Writes commands) (g.statements.map Prod.snd) p.commands :=
    heading_of_isText h
  obtain ⟨hs, hcompiles, himage, -⟩ := headers_of_isClean hclean
  rw [hg] at hcompiles
  obtain ⟨header, _, hheader, hnil, rfl⟩ := List.forall₂_cons_left_iff.mp hcompiles
  obtain rfl := List.forall₂_nil_left_iff.mp hnil
  obtain ⟨nest, htranscribes, -⟩ := hheader.lines
  exact ⟨header, by rw [himage]; rfl, htranscribes.alike htexts⟩

/-! ## commands of a text -/

/-- What is related to a list in two parts has two parts. -/
theorem exists_of_forall₂_append {α β : Type} {R : α → β → Prop} {l : List α} {u v : List β}
    (h : List.Forall₂ R l (u ++ v)) :
    ∃ a b, l = a ++ b ∧ List.Forall₂ R a u ∧ List.Forall₂ R b v :=
  ⟨l.take u.length, l.drop u.length, (List.take_append_drop _ _).symm,
    List.forall₂_take_append l u v h, List.forall₂_drop_append l u v h⟩

/-- Only a `case` can be one of two commands. -/
theorem Command.Alike.eq {c d : Command} (h : c.Alike d)
    (hd : ∀ cond first, d ≠ .choice cond first) :
    c = d := by
  rcases h with rfl | ⟨cond, _, first, -, rfl⟩
  · rfl
  · exact absurd rfl (hd cond first)

namespace Nest

variable {n n' : Nest} {line : UInt32} {c : Command} {kind : Chain} {cond : Condition}

/-- Outside of a chain of choices a `case` opens one. -/
theorem opener_of_alike (h : c.Alike (kind.opener cond))
    (hout : kind = .choice → n.inChoice = false)
    (ha : n.after? line c = some n') : c = kind.opener cond := by
  cases kind with
  | branch => exact h.eq nofun
  | choice =>
      rcases h with rfl | ⟨cond, first, _, rfl, heq⟩
      · rfl
      · obtain ⟨rfl, rfl⟩ := Command.choice.inj heq
        cases first with
        | true => rfl
        | false =>
            obtain ⟨hinner, -⟩ : n.innermost? = some (Chain.choice.block false) ∧ n' = n :=
              after_divider ha
            exact absurd (hout rfl) (by simp [inChoice, hinner, Chain.block])

/-- Directly in a chain of choices a `case` goes on with it. -/
theorem divider_of_alike (h : c.Alike (kind.divider cond))
    (hin : n.innermost? = some (kind.block false)) (ha : n.after? line c = some n') :
    c = kind.divider cond := by
  cases kind with
  | branch => exact h.eq nofun
  | choice =>
      rcases h with rfl | ⟨cond, first, _, rfl, heq⟩
      · rfl
      · obtain ⟨rfl, rfl⟩ := Command.choice.inj heq
        cases first with
        | false => rfl
        | true =>
            have hout : n.inChoice = false := (after_opener (show
              n.after? line (Chain.choice.opener cond) = some n' from ha)).2 rfl
            exact absurd hout (by simp [inChoice, hin, Chain.block])

end Nest

mutual

/-- Lines that spell the commands of a program have these commands, if no chain of choices
stands directly in an arm of another one. -/
theorem Program.commands_of_alike :
    (p : Program) → {n m : Nest} → {ls : List Line} → Follows n ls m →
      List.Forall₂ (fun l c => l.command.Alike c) ls p.commands →
      n.depth + p.loops < Nest.depthBound → p.Legible n.inChoice →
      ls.map (·.command) = p.commands
  | .nil, n, m, ls, _, hc, _, _ => by
      obtain rfl := List.forall₂_nil_right_iff.mp hc
      rfl
  | .cons phrase rest, n, m, ls, h, hc, hd, hl => by
      obtain ⟨front, back, rfl, hfront, hback⟩ := exists_of_forall₂_append hc
      obtain ⟨k, hk, hothers⟩ := h.append_inv
      rw [Program.loops] at hd
      have hphrase := phrase.commands_of_alike hk hfront (by omega) hl.1
      obtain ⟨rfl, -⟩ := phrase.fits_of_follows hk hphrase (by omega)
      rw [List.map_append, hphrase, rest.commands_of_alike hothers hback (by omega) hl.2,
        Program.commands]

/-- Lines that are alike the commands of a legible phrase are these commands. -/
theorem Phrase.commands_of_alike :
    (p : Phrase) → {n m : Nest} → {ls : List Line} → Follows n ls m →
      List.Forall₂ (fun l c => l.command.Alike c) ls p.commands →
      n.depth + p.loops < Nest.depthBound → p.Legible n.inChoice →
      ls.map (·.command) = p.commands
  | .plain command hp, n, m, ls, _, hc, _, _ => by
      obtain ⟨l, _, hl, hnil, rfl⟩ := List.forall₂_cons_right_iff.mp hc
      obtain rfl := List.forall₂_nil_right_iff.mp hnil
      have heq : l.command = command := hl.eq fun cond first hchoice => by
        rw [hchoice] at hp
        contradiction
      rw [List.map_singleton, heq]
      rfl
  | .chain kind cond body arms, n, m, ls, h, hc, hd, hl => by
      obtain ⟨l, rest, hopener, hrest, rfl⟩ := List.forall₂_cons_right_iff.mp hc
      obtain ⟨front, back, rfl, hfront, hback⟩ := exists_of_forall₂_append hrest
      obtain ⟨-, n', ha, hinside⟩ := h.uncons
      obtain ⟨k, hk, hafter⟩ := hinside.append_inv
      obtain ⟨hout, hbody, harms⟩ := hl
      -- a `case` that opens a chain is read so, since no chain of choices is open here
      have hcommand := Nest.opener_of_alike hopener hout ha
      rw [hcommand] at ha
      obtain ⟨rfl, -⟩ := Nest.after_opener ha
      rw [Phrase.loops] at hd
      have hchoice : (n.enter (kind.block false) l.number).inChoice = kind.isChoice :=
        Nest.inChoice_of_innermost rfl
      have hfirst := body.commands_of_alike hk hfront (by simp only [Nest.enter]; omega)
        (hchoice ▸ hbody)
      obtain ⟨rfl, -⟩ := body.fits_of_follows hk hfirst (by simp only [Nest.enter]; omega)
      have hothers := arms.commands_of_alike kind hafter hback rfl
        (by simp only [Nest.enter]; omega)
        harms
      rw [List.map_cons, List.map_append, hcommand, hfirst, hothers, Phrase.commands]
  | .loop opener body closer, n, m, ls, h, hc, hd, hl => by
      obtain ⟨l, rest, hopener, hrest, rfl⟩ := List.forall₂_cons_right_iff.mp hc
      obtain ⟨front, back, rfl, hfront, hback⟩ := exists_of_forall₂_append hrest
      obtain ⟨last, _, hcloser, hnil, rfl⟩ := List.forall₂_cons_right_iff.mp hback
      obtain rfl := List.forall₂_nil_right_iff.mp hnil
      obtain ⟨-, n', ha, h⟩ := h.uncons
      obtain ⟨k, hk, -⟩ := h.append_inv
      have hcommand : l.command = opener.command := hopener.eq (by cases opener <;> nofun)
      have hlast : last.command = closer.command := hcloser.eq (by cases closer <;> nofun)
      rw [hcommand] at ha
      obtain ⟨untilAllowed, rfl⟩ := Nest.after_loopOpener ha
      rw [Phrase.loops] at hd
      have hinner : (n.enterLoop untilAllowed l.number).depth = n.depth + 1 :=
        Nat.mod_eq_of_lt (by omega)
      have hbody := body.commands_of_alike hk hfront (by omega) hl
      rw [List.map_cons, List.map_append, hcommand, hbody, List.map_singleton, hlast,
        Phrase.commands]
  | .breakLoop, n, m, ls, _, hc, _, _ => by
      obtain ⟨l, _, hl, hnil, rfl⟩ := List.forall₂_cons_right_iff.mp hc
      obtain rfl := List.forall₂_nil_right_iff.mp hnil
      rw [List.map_singleton, hl.eq nofun]
      rfl
  | .continueLoop, n, m, ls, _, hc, _, _ => by
      obtain ⟨l, _, hl, hnil, rfl⟩ := List.forall₂_cons_right_iff.mp hc
      obtain rfl := List.forall₂_nil_right_iff.mp hnil
      rw [List.map_singleton, hl.eq nofun]
      rfl

/-- So are lines that are alike those of arms. -/
theorem Arms.commands_of_alike (kind : Chain) :
    (a : Arms) → {n m : Nest} → {ls : List Line} → {line : UInt32} →
      {outer : List (Block × UInt32)} → Follows n ls m →
      List.Forall₂ (fun l c => l.command.Alike c) ls (a.commands kind) →
      n.blocks = (kind.block false, line) :: outer → n.depth + a.loops < Nest.depthBound →
      a.Legible kind.isChoice → ls.map (·.command) = a.commands kind
  | .done, n, m, ls, line, outer, _, hc, _, _, _ => by
      obtain ⟨l, _, hl, hnil, rfl⟩ := List.forall₂_cons_right_iff.mp hc
      obtain rfl := List.forall₂_nil_right_iff.mp hnil
      rw [List.map_singleton, hl.eq (by cases kind <;> nofun)]
      rfl
  | .other body, n, m, ls, line, outer, h, hc, hb, hd, hl => by
      obtain ⟨l, rest, hother, hrest, rfl⟩ := List.forall₂_cons_right_iff.mp hc
      obtain ⟨front, back, rfl, hfront, hback⟩ := exists_of_forall₂_append hrest
      obtain ⟨last, _, hcloser, hnil, rfl⟩ := List.forall₂_cons_right_iff.mp hback
      obtain rfl := List.forall₂_nil_right_iff.mp hnil
      obtain ⟨-, n', ha, h⟩ := h.uncons
      obtain ⟨k, hk, -⟩ := h.append_inv
      have hcommand : l.command = kind.other := hother.eq (by cases kind <;> nofun)
      have hlast : last.command = kind.closer := hcloser.eq (by cases kind <;> nofun)
      rw [hcommand] at ha
      obtain ⟨-, rfl⟩ := Nest.after_other ha
      have hinside : (n.become (kind.block true)).inChoice = kind.isChoice := by
        rw [Nest.become, hb]
        exact Nest.inChoice_of_innermost rfl
      have hdepth : (n.become (kind.block true)).depth = n.depth := by
        rw [Nest.become, hb]
      have hbody := body.commands_of_alike hk hfront (by rwa [hdepth]) (hinside ▸ hl)
      rw [List.map_cons, List.map_append, hcommand, hbody, List.map_singleton, hlast,
        Arms.commands]
  | .more cond body arms, n, m, ls, line, outer, h, hc, hb, hd, hl => by
      obtain ⟨l, rest, hdivider, hrest, rfl⟩ := List.forall₂_cons_right_iff.mp hc
      obtain ⟨front, back, rfl, hfront, hback⟩ := exists_of_forall₂_append hrest
      obtain ⟨-, n', ha, hinside⟩ := h.uncons
      obtain ⟨k, hk, hafter⟩ := hinside.append_inv
      have hinner : n.innermost? = some (kind.block false) := by
        rw [Nest.innermost?, hb]
        rfl
      have hcommand := Nest.divider_of_alike hdivider hinner ha
      rw [hcommand] at ha
      obtain ⟨-, rfl⟩ := Nest.after_divider ha
      rw [Arms.loops] at hd
      have hbody := body.commands_of_alike hk hfront (by omega)
        (Nest.inChoice_of_innermost hinner ▸ hl.1)
      obtain ⟨rfl, -⟩ := body.fits_of_follows hk hbody (by omega)
      have hothers := arms.commands_of_alike kind hafter hback hb (by omega) hl.2
      rw [List.map_cons, List.map_append, hcommand, hbody, hothers, Arms.commands]

end

/-- A text that compiles without problems has the commands of its program exactly if no chain
of choices stands directly in an arm of another one, as long as the depths can be told
apart. -/
theorem commands_eq_iff_legible (h : p.IsText commands source)
    (hclean : (compile commands [(file, source)]).isClean = true)
    (hdepth : p.loops < Nest.depthBound) :
    ∃ header, (compile commands [(file, source)]).image.headers = [header] ∧
      (header.lines.map (·.command) = p.commands ↔ p.Legible false) := by
  obtain ⟨header, himage, halike⟩ := header_of_isText h hclean
  obtain ⟨m, hfollows, -⟩ := follows_of_isClean (i := 0) (h := header) hclean
    (by rw [Image.headerAt?, himage]; rfl)
  have hdeep : Nest.empty.depth + p.loops < Nest.depthBound := by rwa [Nest.empty, Nat.zero_add]
  refine ⟨header, himage, fun heq => ?_, p.commands_of_alike hfollows halike hdeep⟩
  exact (p.fits_of_follows hfollows heq hdeep).2.2.2

/-! ## every text is that of a program -/

/-- Entries with one heading, and no statement before it. -/
theorem exists_heading {entries : List Entry} {texts : List (List Char)}
    (h : headingTexts entries = [texts]) (hbefore : statementTexts entries = []) :
    ∃ front mark body, entries = front ++ .header mark :: body ∧
      (∀ e ∈ front, e.isHeader = false) ∧ statementTexts front = [] ∧
      (∀ e ∈ body, e.isHeader = false) ∧ statementTexts body = texts := by
  have hnone {entries : List Entry} (h : headingTexts entries = []) :
      ∀ e ∈ entries, e.isHeader = false := by
    induction entries with
    | nil => exact List.forall_mem_nil _
    | cons e entries ih =>
        cases e with
        | skipped | event _ | statement _ => exact List.forall_mem_cons.mpr ⟨rfl, ih h⟩
        | header _ => contradiction
  induction entries with
  | nil => contradiction
  | cons e entries ih =>
      cases e with
      | skipped | event _ =>
          obtain ⟨front, mark, body, rfl, hfront, htexts, hbody⟩ := ih h hbefore
          exact ⟨_ :: front, mark, body, rfl, List.forall_mem_cons.mpr ⟨rfl, hfront⟩, htexts, hbody⟩
      | header mark =>
          obtain ⟨htexts, hrest⟩ := List.cons.inj h
          exact ⟨[], mark, entries, rfl, List.forall_mem_nil _, rfl, hnone hrest, htexts⟩
      | statement text => contradiction

/-- Only a line that begins with an `@` begins a header. -/
theorem begins_of_header {raw mark : List Char} (h : Entry.ofLine raw = .header mark) :
    Begins raw '@' := by
  rcases blank_or_begins raw with hblank | ⟨c, hbegins⟩
  · rw [Entry.ofLine_of_blank hblank] at h
    contradiction
  · obtain ⟨hcomment, -, hevent, hstatement⟩ := Entry.ofLine_of_begins hbegins
    by_cases hc : c ∈ lineMarks
    · simp only [lineMarks, List.mem_cons, List.not_mem_nil, or_false] at hc
      rcases hc with rfl | rfl | rfl
      · rw [hcomment rfl] at h
        contradiction
      · exact hbegins
      · obtain ⟨event, hevent⟩ := hevent rfl
        rw [hevent] at h
        contradiction
    · rw [hstatement hc] at h
      contradiction

/-- A source with one heading that compiles without problems is the text of a program, whose
commands its lines have. -/
theorem exists_isText (hclean : (compile commands [(file, source)]).isClean = true) {g : Heading}
    (hg : headings [(file, source)] = [g]) :
    ∃ p header, Program.IsText commands p source ∧
      (compile commands [(file, source)]).image.headers = [header] ∧
      header.lines.map (·.command) = p.commands := by
  obtain ⟨hs, hcompiles, himage, hloose⟩ := headers_of_isClean hclean
  rw [hg] at hcompiles
  obtain ⟨header, _, hheader, hnil, rfl⟩ := List.forall₂_cons_left_iff.mp hcompiles
  obtain rfl := List.forall₂_nil_left_iff.mp hnil
  have himage : (compile commands [(file, source)]).image.headers = [header] := by rw [himage]; rfl
  obtain ⟨nest, htranscribes, -⟩ := hheader.lines
  obtain ⟨m, hfollows, hclosed⟩ := follows_of_isClean (i := 0) (h := header) hclean
    (by rw [Image.headerAt?, himage]; rfl)
  obtain ⟨p, hp⟩ := exists_program hfollows rfl hclosed
  refine ⟨p, header, ?_, himage, hp.symm⟩
  -- the source in lines, and what each of them is
  obtain ⟨lines, hne, hfeeds, hsource⟩ := exists_intercalate '\n' source.toList
  have hwhole : source = String.ofList (['\n'].intercalate lines) := by
    rw [← hsource, String.ofList_toList]
  have hentries := map_sourceLines hne hfeeds
  rw [← hwhole] at hentries
  have hheadings : headingTexts (lines.map Entry.ofLine) = [g.statements.map Prod.snd] := by
    have hone := congrArg (List.map (·.statements.map Prod.snd)) hg
    rw [headings, List.flatMap_singleton, map_headingsIn] at hone
    rcases hentries with heq | heq
    · rw [← heq, hone]
      rfl
    · rw [← heq, headingTexts_skipped, hone]
      rfl
  have hbefore : statementTexts (lines.map Entry.ofLine) = [] := by
    have hnone := map_loose (sourceLines source)
    rw [hloose] at hnone
    rcases hentries with heq | heq
    · rw [← heq, ← hnone]
      rfl
    · rw [← heq, statementTexts_skipped, ← hnone]
      rfl
  obtain ⟨front, mark, body, hsplit, hfront, hnothing, hbody, htexts⟩ :=
    exists_heading hheadings hbefore
  obtain ⟨before, below, rfl, rfl, hbelow⟩ := List.map_eq_append_iff.mp hsplit
  obtain ⟨raw, rest, rfl, hraw, rfl⟩ := List.map_eq_cons_iff.mp hbelow
  refine ⟨before, raw, rest, hwhole, hfeeds, lists_iff.mpr ⟨hfront, ?_⟩, begins_of_header hraw,
    lists_iff.mpr ⟨hbody, ?_⟩⟩
  · rw [hnothing]
    exact .nil
  · rw [htexts, hp]
    exact htranscribes.spelled

end Switchboard
