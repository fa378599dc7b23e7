import Switchboard.Proofs.Program.Basic
import Switchboard.Proofs.Script.Reader
import Switchboard.Script.Compiler

/-!
# Switchboard.Proofs.Script.Nesting

The blocks around the lines of a compiled header.

1. `Nest.after?` says for every command which blocks are open after it, and in
   which blocks it may stand at all.  A statement is accepted only there
   (`after_of_read`).
2. `Follows before lines after` says that lines come one after the other in such
   a way, each with the depth in loops at which it stands.
3. What a new header has, and every line read into it keeps, holds of all headers
   of an image: `Compiler.Inherited.of_mem`.
4. So the lines of a header follow each other from no open block on, and where no
   problem was found they end without one: `follows_of_isClean`.
-/

namespace Switchboard

/-! ## blocks after a command -/

/-- The blocks that are open after a command at some line of the source, unless
it may not stand there. -/
def Nest.after? (n : Nest) (line : UInt32) : Command → Option Nest
  | .branch _ => some (n.enter (.branch false) line)
  | .elseBranch _ => if n.innermost? = some (.branch false) then some n else none
  | .otherBranch =>
    if n.innermost? = some (.branch false) then some (n.become (.branch true)) else none
  | .endBranch =>
    match n.innermost? with
    | some (.branch _) => some n.close
    | _ => none
  | .choice _ false => if n.innermost? = some (.choice false) then some n else none
  | .choice _ true =>
    match n.innermost? with
    | some (.choice _) => none
    | _ => some (n.enter (.choice false) line)
  | .otherChoice =>
    if n.innermost? = some (.choice false) then some (n.become (.choice true)) else none
  | .endChoice =>
    match n.innermost? with
    | some (.choice _) => some n.close
    | _ => none
  | .doLoop => some (n.enterLoop true line)
  | .whileLoop _ | .repeatLoop _ | .eachLoop .. => some (n.enterLoop false line)
  | .endLoop =>
    match n.innermost? with
    | some (.loop _) => some n.closeLoop
    | _ => none
  | .untilLoop _ => if n.innermost? = some (.loop true) then some n.closeLoop else none
  | .breakLoop | .continueLoop => if n.inLoop then some n else none
  | _ => some n

/-- Plain commands leave the blocks alone. -/
theorem Nest.after?_plain (n : Nest) (line : UInt32) {command : Command}
    (h : command.isPlain = true) : n.after? line command = some n := by
  cases command <;> first | rfl | contradiction

namespace Statement

variable {keyword : String} {rest : List Token} {nest after : Nest} {line : UInt32}
  {command : Command}

/-- Statements that leave the blocks alone are plain. -/
theorem isPlain_of_simple (h : simple keyword rest = .ok (some command)) :
    command.isPlain = true := by
  cases simple_of_some h <;> rfl

/-- A command of a chain is accepted only where it may stand. -/
theorem after_of_branching (h : branching keyword rest nest line = .ok (some (command, after))) :
    nest.after? line command = some after := by
  cases branches_of_some h with
  | branch _ => rfl
  | elseBranch hinner _ => exact if_pos hinner
  | otherBranch hinner => exact if_pos hinner
  | endBranch hinner => rw [Nest.after?, hinner]
  | nextChoice hinner _ => exact if_pos hinner
  | choice hinner _ =>
      rw [Nest.after?]
      split
      · next last hlast => exact absurd hlast (hinner last)
      · rfl
  | otherChoice hinner => exact if_pos hinner
  | endChoice hinner => rw [Nest.after?, hinner]

/-- So is a command of a loop. -/
theorem after_of_looping (h : looping keyword rest nest line = .ok (some (command, after))) :
    nest.after? line command = some after := by
  cases loops_of_some h with
  | doLoop => rfl
  | whileLoop _ => rfl
  | repeatLoop _ => rfl
  | eachLoop _ _ _ => rfl
  | endLoop hinner => rw [Nest.after?, hinner]
  | untilLoop hinner _ => exact if_pos hinner
  | breakLoop hinside => exact if_pos hinside
  | continueLoop hinside => exact if_pos hinside

/-- A statement is accepted only where its command may stand. -/
theorem after_of_read {commands : Commands} {tokens : List Token} {a : Accepted}
    (h : read commands nest line tokens = .ok a) :
    nest.after? line a.command = some a.nest := by
  obtain ⟨word, rest, -, hreads⟩ := reads_of_read h
  cases hreads with
  | simple hs => exact nest.after?_plain line (isPlain_of_simple hs)
  | branching _ hb => exact after_of_branching hb
  | looping _ _ hl => exact after_of_looping hl
  | application _ _ _ _ => rfl

end Statement

/-! ## lines that follow each other -/

/-- Lines that come one after the other, from some open blocks to others. -/
inductive Follows : Nest → List Line → Nest → Prop
  | nil (n : Nest) : Follows n [] n
  | cons {n n' m : Nest} {l : Line} {ls : List Line} :
      l.depth = n.depth → n.after? l.number l.command = some n' → Follows n' ls m →
      Follows n (l :: ls) m

/-- One more line may come after others. -/
theorem Follows.snoc {n m m' : Nest} {l : Line} {ls : List Line} (h : Follows n ls m)
    (hd : l.depth = m.depth) (ha : m.after? l.number l.command = some m') :
    Follows n (ls ++ [l]) m' := by
  induction h with
  | nil n => exact .cons hd ha (.nil m')
  | cons hd' ha' _ ih => exact .cons hd' ha' (ih hd ha)

/-- The first line, and what follows it. -/
theorem Follows.uncons {n m : Nest} {l : Line} {ls : List Line} (h : Follows n (l :: ls) m) :
    l.depth = n.depth ∧ ∃ n', n.after? l.number l.command = some n' ∧ Follows n' ls m := by
  cases h with
  | cons hd ha h => exact ⟨hd, _, ha, h⟩

namespace Compiler

/-! ## what holds of every header -/

/-- `P` holds of a header that begins, and whatever is read into the header
keeps it. -/
structure Inherited (commands : Commands) (P : Section → Prop) : Prop where
  begins : ∀ name file, P ⟨Header.empty name file, .empty⟩
  event : ∀ s name, P s → s.nest.innermost? = none →
    P { s with header := s.header.setEvent name s.header.lines.length }
  statement : ∀ s line tokens accepted, P s →
    Statement.read commands s.nest line tokens = .ok accepted →
    P ⟨s.header.push ⟨accepted.command, s.nest.depth, accepted.mask, line⟩, accepted.nest⟩

/-- `P` holds of all that was read, and no header has ended inside a block
unless there was a problem. -/
structure Written (P : Section → Prop) (d : Draft) : Prop where
  current : ∀ s, d.current = some s → P s
  done : ∀ h ∈ d.done, ∃ nest, P ⟨h, nest⟩ ∧ (d.diagnostics = [] → nest.blocks = [])

namespace Written

variable {P : Section → Prop} {d : Draft}

/-- Nothing is written in an empty draft. -/
theorem empty : Written P .empty := ⟨by simp [Draft.empty], by simp [Draft.empty]⟩

/-- A report writes no header. -/
theorem report (h : Written P d) (file : String) (line : UInt32) (p : Problem) :
    Written P (d.report file line p) :=
  ⟨h.current, fun g hg =>
    (h.done g hg).imp fun _ hn => ⟨hn.1, fun hd => by simp [Draft.report] at hd⟩⟩

/-- Nor does a line of the listing. -/
theorem list (h : Written P d) (line : UInt32) (text : String) : Written P (d.list line text) :=
  ⟨h.current, h.done⟩

/-- Reporting open blocks reports nothing only if there are none. -/
theorem reportOpen (file : String) (blocks : List (Block × UInt32)) :
    (d.reportOpen file blocks).done = d.done ∧
      ((d.reportOpen file blocks).diagnostics = [] → d.diagnostics = [] ∧ blocks = []) := by
  unfold Draft.reportOpen
  rw [show blocks = [] ↔ blocks.reverse = [] from List.reverse_eq_nil_iff.symm]
  generalize blocks.reverse = reversed
  induction reversed generalizing d with
  | nil => exact ⟨rfl, fun h => ⟨h, rfl⟩⟩
  | cons block rest ih =>
      obtain ⟨hdone, hdiag⟩ := ih (d := d.report file block.2 (.unterminated block.1.kind))
      refine ⟨hdone, fun h => ?_⟩
      have := (hdiag h).1
      simp [Draft.report] at this

/-- A header that is closed is written as it was. -/
theorem close (h : Written P d) (file : String) : Written P (d.close file) := by
  unfold Draft.close
  cases hc : d.current with
  | none => exact h
  | some s =>
      obtain ⟨hdone, hdiag⟩ := reportOpen (d := d) file s.nest.blocks
      refine ⟨by simp, fun header hmem => ?_⟩
      dsimp only at hmem
      rw [hdone] at hmem
      rcases List.mem_append.mp hmem with hmem | hmem
      · obtain ⟨nest, hP, hn⟩ := h.done header hmem
        exact ⟨nest, hP, fun hd => hn (hdiag hd).1⟩
      · obtain rfl := List.mem_singleton.mp hmem
        exact ⟨s.nest, h.current s hc, fun hd => (hdiag hd).2⟩

variable {commands : Commands} (hP : Inherited commands P)
include hP

/-- A header that begins has no lines yet. -/
theorem beginHeader (h : Written P d) (file : String) (line : UInt32) (mark : List Char) :
    Written P (Compiler.beginHeader d file line mark) := by
  have hclose := h.close file
  unfold Compiler.beginHeader
  dsimp only
  split
  · exact hclose.report file line _
  · have hnew : ∀ {d : Draft}, Written P d → ∀ name : String,
        Written P { d with current := some ⟨Header.empty name file, .empty⟩ } := by
      intro d hd name
      refine ⟨fun s hs => ?_, hd.done⟩
      obtain rfl := Option.some.inj hs
      exact hP.begins name file
    split
    · exact hnew ((hclose.report file line _).list _ _) _
    · exact hnew (hclose.list _ _) _

/-- A mark adds no line. -/
theorem markEvent (h : Written P d) {s : Section} (hs : d.current = some s) (file : String)
    (line : UInt32) (mark : List Char) : Written P (Compiler.markEvent d s file line mark) := by
  unfold Compiler.markEvent
  dsimp only
  split
  · exact h.report file line _
  · next hopen =>
      refine ⟨fun s' hs' => ?_, h.done⟩
      obtain rfl := Option.some.inj hs'
      exact hP.event s _ (h.current s hs) hopen

/-- A statement adds a line where it may stand, or none. -/
theorem addStatement (h : Written P d) {s : Section} (hs : d.current = some s)
    (file : String) (line : UInt32) (text : List Char) :
    Written P (Compiler.addStatement commands d s file line text) := by
  unfold Compiler.addStatement
  cases hr : Token.tokenize text >>= Statement.read commands s.nest line with
  | error p => exact h.report file line p
  | ok accepted =>
      refine ⟨fun s' hs' => ?_, h.done⟩
      obtain rfl := Option.some.inj hs'
      obtain ⟨tokens, -, hread⟩ := ok_of_bind hr
      exact hP.statement s line tokens accepted (h.current s hs) hread

/-- So every line of a source is taken. -/
theorem readLine (h : Written P d) (file : String) (line : UInt32) (raw : List Char) :
    Written P (Compiler.readLine commands file d line raw) := by
  unfold Compiler.readLine
  split
  · exact h
  · exact h
  · exact h.beginHeader hP file line _
  · split
    · exact h.report file line _
    · next s hs =>
        split
        · exact h.markEvent hP hs file line _
        · exact h.addStatement hP hs file line _

/-- So is a whole file. -/
theorem readFile (h : Written P d) (file source : String) :
    Written P (Compiler.readFile commands d file source) := by
  unfold Compiler.readFile
  refine Written.close ?_ file
  generalize sourceLines source = lines
  induction lines generalizing d with
  | nil => exact h
  | cons line rest ih => exact ih (h.readLine hP file line.1 line.2)

/-- So are all files. -/
theorem readFiles (h : Written P d) (sources : List (String × String)) :
    Written P (sources.foldl (fun d (file, source) => Compiler.readFile commands d file source)
      d) := by
  induction sources generalizing d with
  | nil => exact h
  | cons source rest ih => exact ih (h.readFile hP source.1 source.2)

end Written

end Compiler

/-- Placing a header adds no other one. -/
theorem Image.mem_place {h g : Header} {headers : List Header} (hg : g ∈ place h headers) :
    g = h ∨ g ∈ headers := by
  induction headers with
  | nil => exact .inl (List.mem_singleton.mp hg)
  | cons first rest ih =>
      unfold place at hg
      split at hg
      · rcases List.mem_cons.mp hg with rfl | hg
        · exact .inl rfl
        · exact .inr (List.mem_cons_of_mem _ hg)
      · rcases List.mem_cons.mp hg with rfl | hg
        · exact .inr List.mem_cons_self
        · exact (ih hg).imp id (List.mem_cons_of_mem _)

/-- An image has no headers but those that it was made of. -/
theorem Image.mem_ofHeaders {g : Header} {headers placed : List Header}
    (hg : g ∈ headers.foldl (fun placed h => place h placed) placed) :
    g ∈ placed ∨ g ∈ headers := by
  induction headers generalizing placed with
  | nil => exact .inl hg
  | cons first rest ih =>
      rcases ih hg with h | h
      · exact (mem_place h).elim (fun he => .inr (he ▸ List.mem_cons_self)) .inl
      · exact .inr (List.mem_cons_of_mem _ h)

/-- What every header inherits holds of those of an image, with no open block if
no problem was found. -/
theorem Compiler.Inherited.of_mem {commands : Commands} {P : Section → Prop}
    (hP : Inherited commands P) {sources : List (String × String)} {h : Header}
    (hh : h ∈ (compile commands sources).image.headers) :
    ∃ nest, P ⟨h, nest⟩ ∧ ((compile commands sources).isClean = true → nest.blocks = []) := by
  have hwritten := Written.empty.readFiles hP sources
  obtain ⟨nest, hn, hb⟩ :=
    hwritten.done h ((Image.mem_ofHeaders hh).resolve_left List.not_mem_nil)
  exact ⟨nest, hn, fun hc => hb (List.isEmpty_iff.mp hc)⟩

/-- The lines of a header follow each other. -/
theorem Compiler.inherited_follows (commands : Commands) :
    Inherited commands fun s => Follows .empty s.header.lines s.nest where
  begins _ _ := .nil _
  event _ _ h _ := h
  statement _ _ _ _ h hread := h.snoc rfl (Statement.after_of_read hread)

/-- The lines of a header follow each other, and if no problem was found they end
outside of all blocks. -/
theorem follows_of_isClean {commands : Commands} {sources : List (String × String)}
    (hc : (compile commands sources).isClean = true) {i : Nat} {h : Header}
    (hh : (compile commands sources).image.headerAt? i = some h) :
    ∃ m, Follows .empty h.lines m ∧ m.blocks = [] := by
  obtain ⟨m, hm, hb⟩ := (Compiler.inherited_follows commands).of_mem (List.mem_of_getElem? hh)
  exact ⟨m, hm, hb hc⟩

end Switchboard
