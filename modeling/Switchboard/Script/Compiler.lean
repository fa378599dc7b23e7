import Switchboard.Script.Fault
import Switchboard.Script.Statement

/-!
# Switchboard.Script.Compiler

From source files to an image.

1. A source is read line by line. Empty lines and lines that begin with `#`
   are skipped; `@name` begins a header, `^event` marks the handler of an
   event, and every other line is a statement. A colon may end a mark.
2. A header ends where the next begins, or with its file. Blocks that are
   open then are reported at the lines that opened them.
3. A problem is recorded and its line left out; reading goes on, so that one
   run reports all problems.
4. The listing repeats each accepted line with its number, statements
   indented by their depth in loops.
-/

namespace Switchboard

/-- What compiling gives: an image, the problems, and a listing. -/
structure Compilation where
  image : Image
  diagnostics : List Diagnostic
  listing : List String
deriving Repr, DecidableEq

namespace Compilation

/-- Whether there were no problems. -/
def isClean (c : Compilation) : Bool := c.diagnostics.isEmpty

/-- The image, unless there were problems. -/
def result (c : Compilation) : Except Fault Image :=
  if c.isClean then .ok c.image else .error (.rejected c.diagnostics)

end Compilation

namespace Compiler

/-! ## the state between two lines -/

/-- A header that is being read, and the blocks open in it. -/
structure Section where
  header : Header
  nest : Nest
deriving Repr, DecidableEq

/-- What has been read: the headers that have ended, the one that has not,
the problems and the listing. -/
structure Draft where
  done : List Header
  current : Option Section
  diagnostics : List Diagnostic
  listing : List String
deriving Repr, DecidableEq

namespace Draft

/-- Nothing read. -/
def empty : Draft := ⟨[], none, [], []⟩

/-- Record a problem. -/
def report (d : Draft) (file : String) (line : UInt32) (p : Problem) : Draft :=
  { d with diagnostics := d.diagnostics ++ [⟨file, line, p⟩] }

/-- Add a line to the listing. -/
def list (d : Draft) (line : UInt32) (text : String) : Draft :=
  { d with listing := d.listing ++ [Text.padded 4 line.toNat ++ " " ++ text] }

/-- Report the blocks that are still open, the outermost first. -/
def reportOpen (d : Draft) (file : String) (blocks : List (Block × UInt32)) : Draft :=
  blocks.reverse.foldl (fun d (block, line) => d.report file line (.unterminated block.kind)) d

/-- End the header that is being read. -/
def close (d : Draft) (file : String) : Draft :=
  match d.current with
  | none => d
  | some s =>
    let d := d.reportOpen file s.nest.blocks
    { d with done := d.done ++ [s.header], current := none }

end Draft

/-! ## the kinds of line -/

open Text in
/-- The name that a mark gives: without colons at its end, and without blanks. -/
def markName (cs : List Char) : List Char := trim (trimEndOf (· == ':') cs)

/-- Begin a header. A name that exists already is a problem, but its header
is read all the same. -/
def beginHeader (d : Draft) (file : String) (line : UInt32) (mark : List Char) : Draft :=
  let d := d.close file
  let cs := markName mark
  let name := String.ofList cs
  if cs.isEmpty || Text.hasBlank cs then d.report file line (.invalidHeader name)
  else
    let d := if d.done.any fun h => Text.alike h.name name then
        d.report file line (.duplicateHeader name)
      else d
    { d.list line ("@" ++ name) with
      current := some ⟨Header.empty (Header.bare name) file, Nest.empty⟩ }

/-- Mark the place of an event handler; no block may be open there. -/
def markEvent (d : Draft) (s : Section) (file : String) (line : UInt32) (mark : List Char) :
    Draft :=
  let event := String.ofList (markName mark)
  match s.nest.innermost? with
  | some block => d.report file line (.eventInBlock event block.kind)
  | none =>
    { d.list line ("^" ++ event) with
      current := some { s with header := s.header.setEvent event s.header.lines.length } }

/-- Read a statement into the current header. -/
def addStatement (commands : Commands) (d : Draft) (s : Section) (file : String) (line : UInt32)
    (text : List Char) : Draft :=
  match Token.tokenize text >>= Statement.read commands s.nest line with
  | .error p => d.report file line p
  | .ok accepted =>
    let indent := String.ofList (List.replicate (2 * s.nest.depth) ' ')
    { d.list line (indent ++ String.ofList text) with
      current := some {
        header := s.header.push ⟨accepted.command, s.nest.depth, accepted.mask, line⟩
        nest := accepted.nest } }

/-- Read one line of a file. -/
def readLine (commands : Commands) (file : String) (d : Draft) (line : UInt32) (raw : List Char) :
    Draft :=
  match Text.trim raw with
  | [] => d
  | '#' :: _ => d
  | '@' :: mark => beginHeader d file line mark
  | text =>
    match d.current with
    | none => d.report file line .outsideHeader
    | some s =>
      match text with
      | '^' :: mark => markEvent d s file line mark
      | _ => addStatement commands d s file line text

/-- The lines of a source, each with its number, counted from one in 32 bits. -/
def sourceLines (source : String) : List (UInt32 × List Char) :=
  (Text.lines source.toList).mapIdx fun i line => (.ofNat i + 1, line)

/-- Read a file. -/
def readFile (commands : Commands) (d : Draft) (file source : String) : Draft :=
  ((sourceLines source).foldl
    (fun d (line, raw) => readLine commands file d line raw) d).close file

end Compiler

/-- Compile source files, each with its name, into one image. -/
def compile (commands : Commands) (sources : List (String × String)) : Compilation :=
  let draft := sources.foldl
    (fun d (file, source) => Compiler.readFile commands d file source) Compiler.Draft.empty
  ⟨Image.ofHeaders draft.done, draft.diagnostics, draft.listing⟩

end Switchboard
