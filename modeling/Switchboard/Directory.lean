import Switchboard.Text.Extent
import Switchboard.Text.Pieces

/-!
# Switchboard.Directory

The directory that an exchange reads its files from and writes its records to.

1. A path is walked step by step, from the directory itself or, after a slash,
   from the root. A step may stay, go up, or name an entry.
2. There are no directories inside. A path that goes on behind a file is
   refused, and one that goes on behind an absent entry leads nowhere.
3. Above the directory there are directories, reached by going up, and at the
   root those that every system has. Files above it are known by their path.
4. Steps have at most 255 bytes and paths at most 4095.
-/

namespace Switchboard

/-- Why a file cannot be used. -/
inductive FileProblem where
  | missing
  | notDirectory
  | isDirectory
  | nameTooLong
  | nulInName
deriving Repr, DecidableEq

/-- The problem in words. -/
def FileProblem.message : FileProblem → String
  | .missing => "No such file or directory (os error 2)"
  | .notDirectory => "Not a directory (os error 20)"
  | .isDirectory => "Is a directory (os error 21)"
  | .nameTooLong => "File name too long (os error 36)"
  | .nulInName => "file name contained an unexpected NUL byte"

/-- Where the steps of a path have led. A directory is written as the path
to it, with a slash at its end unless it is the one that paths begin in, and
an entry, which may be absent, as the path to it. -/
inductive Place where
  | directory (path : String)
  | entry (path : String)
deriving Repr, DecidableEq

/-- The files of a directory, by path. -/
structure Directory where
  files : List (String × String)
deriving Repr, DecidableEq

namespace Directory

/-- The directory without files. -/
def empty : Directory := ⟨[]⟩

/-! ## paths -/

/-- The most bytes of a step. -/
def stepLimit : Nat := 255

/-- The most bytes of a path. -/
def pathLimit : Nat := 4095

/-- The directories at the root of every system. -/
def rootDirectories : List String :=
  ["bin", "dev", "etc", "home", "lib", "proc", "root", "run", "sbin", "sys", "tmp", "usr", "var"]

/-- The directory above a directory; the root is above itself. -/
def above (path : String) : String :=
  if path.toList.head? = some '/' then "/" else path ++ "../"

/-- What a name stands for in a directory. -/
def named (path name : String) : Place :=
  if path = "/" ∧ name ∈ rootDirectories then .directory (path ++ name ++ "/")
  else .entry (path ++ name)

/-- Go one step of a path. -/
def step (d : Directory) : Place → String → Except FileProblem Place
  | .entry path, _ => .error (if (d.files.lookup path).isSome then .notDirectory else .missing)
  | .directory path, s =>
    if s = "" ∨ s = "." then .ok (.directory path)
    else if s = ".." then .ok (.directory (above path))
    else if stepLimit < Text.extent s.toList then .error .nameTooLong
    else .ok (named path s)

/-- Where steps lead that begin in a directory. -/
def walk (d : Directory) (start : String) (steps : List String) : Except FileProblem Place :=
  steps.foldlM d.step (.directory start)

/-- The directory that a path begins in and the steps of the path. -/
def steps (path : String) : Except FileProblem (String × List String) :=
  let cs := path.toList
  if cs.contains '\x00' then .error .nulInName
  else if cs.isEmpty then .error .missing
  else if pathLimit < Text.extent cs then .error .nameTooLong
  else .ok (if cs.head? = some '/' then "/" else "",
    (Text.pieces (· == '/') cs).map String.ofList)

/-- The file to write that a path leads to, which may be absent. No file is
written behind a slash, be there an entry before it or not. -/
def target (d : Directory) (path : String) : Except FileProblem String := do
  let (start, steps) ← steps path
  if steps.getLast? = some "" then
    let upToSlash := (steps.reverse.dropWhile (· == "")).reverse
    let _ ← d.walk start (upToSlash.dropLast ++ [""])
    throw .isDirectory
  else match ← d.walk start steps with
    | .directory _ => throw .isDirectory
    | .entry file => return file

/-! ## files -/

/-- The text of a file. -/
def read (d : Directory) (path : String) : Except FileProblem String := do
  let (start, steps) ← steps path
  match ← d.walk start steps with
  | .directory _ => throw .isDirectory
  | .entry file =>
    match d.files.lookup file with
    | some text => return text
    | none => throw .missing

/-- The files with the text of one of them replaced or added. -/
def put (name text : String) : List (String × String) → List (String × String)
  | [] => [(name, text)]
  | (n, t) :: rest => if n == name then (name, text) :: rest else (n, t) :: put name text rest

/-- Write a file whole. A path that leads to no entry changes nothing. -/
def write (d : Directory) (path text : String) : Directory :=
  match d.target path with
  | .ok file => ⟨put file text d.files⟩
  | .error _ => d

/-- Write at the end of a file, which is made if it is absent. -/
def append (d : Directory) (path text : String) : Except FileProblem Directory :=
  (d.target path).map fun file => ⟨put file ((d.files.lookup file).getD "" ++ text) d.files⟩

/-- Remove a file. -/
def remove (d : Directory) (path : String) : Directory :=
  match d.target path with
  | .ok file => ⟨d.files.filter (·.1 != file)⟩
  | .error _ => d

end Directory

end Switchboard
