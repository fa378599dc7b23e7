import Switchboard.Toml.Lexeme

/-!
# Switchboard.Toml.Reader

From a TOML text to a document.

1. A text is a list of lines; each sets a key, begins a table, or begins the
   next table of a list of tables.
2. A key is set once. Tables between the parts of a dotted key, or above a
   table that has begun, exist without being written; a table that was made
   for a dotted key cannot begin later, nor can dotted keys add to one that
   has begun or that a header made.
3. Values nest less than eighty deep.
-/

namespace Switchboard.Toml

/-! ## tables in the making -/

/-- A part of the document in the making. A table is `implicit` if no line
has begun it, and `dotted` if it was made for a dotted key. -/
inductive Node where
  | value (d : Document)
  | table (implicit dotted : Bool) (entries : List (String × Node))
  | tables (items : List Node)
deriving Inhabited

namespace Node

/-- A table that a line has begun. -/
def fresh : Node := .table false false []

mutual

/-- The document that a node stands for. -/
def document : Node → Document
  | .value d => d
  | .table _ _ entries => .table (documentEntries entries)
  | .tables items => .list (documents items)

/-- The documents of the entries of a table. -/
def documentEntries : List (String × Node) → List (String × Document)
  | [] => []
  | (key, n) :: rest => (key, n.document) :: documentEntries rest

/-- The documents of several nodes. -/
def documents : List Node → List Document
  | [] => []
  | n :: rest => n.document :: documents rest

end

/-- The entries with one of them set, which is last if it is new. -/
def setEntry (key : String) (n : Node) : List (String × Node) → List (String × Node)
  | [] => [(key, n)]
  | (k, m) :: rest => if k == key then (k, n) :: rest else (k, m) :: setEntry key n rest

/-- Change the table that a path leads to. Missing tables on the way are
made; the last of a list of tables stands for the list. -/
def atPath (dotted : Bool) (change : Node → Option Node) : List String → Node → Option Node
  | [], n => change n
  | key :: path, .table implicit wasDotted entries => do
    let child ← match entries.lookup key with
      | none => atPath dotted change path (.table true dotted [])
      | some (.value _) => none
      | some (.tables items) =>
        match items.getLast? with
        | none => none
        | some item => (atPath dotted change path item).map fun n => .tables (items.dropLast ++ [n])
      | some (.table true d es) => atPath dotted change path (.table true d es)
      | some (.table false d es) =>
        if dotted then none else atPath dotted change path (.table false d es)
    return .table implicit wasDotted (setEntry key child entries)
  | _ :: _, _ => none

/-- Set the key at the end of a path, which must be new. -/
def setKey (path : List String) (key : String) (d : Document) (n : Node) : Option Node :=
  atPath true (fun t =>
    match t with
    | .table implicit dotted entries =>
      if dotted == path.isEmpty || (entries.lookup key).isSome then none
      else some (.table implicit dotted (entries ++ [(key, .value d)]))
    | _ => none) path n

end Node

/-- Divide a key into its path and its last part. -/
def splitKey (parts : List String) : List String × String := (parts.dropLast, parts.getLastD "")

/-! ## values -/

mutual

/-- A value. -/
def value? (fuel depth : Nat) (cs : List Char) : Option (Document × List Char) :=
  match fuel with
  | 0 => none
  | fuel + 1 =>
    match cs with
    | '"' :: _ => (string? cs).map fun (s, rest) => (.text s, rest)
    | '\'' :: _ => (string? cs).map fun (s, rest) => (.text s, rest)
    | '[' :: rest =>
      if depth + 1 < nestingLimit then
        (items? fuel (depth + 1) rest).map fun (ds, rest) => (.list ds, rest)
      else none
    | '\x7b' :: rest =>
      if depth + 1 < nestingLimit then
        match skipSpace rest with
        | '\x7d' :: rest => some (.table [], rest)
        | rest => (pairs? fuel (depth + 1) .fresh rest).map fun (n, rest) => (n.document, rest)
      else none
    | _ => scalarValue? cs

/-- The items of a list and its closing bracket. -/
def items? (fuel depth : Nat) (cs : List Char) : Option (List Document × List Char) :=
  match fuel with
  | 0 => none
  | fuel + 1 =>
    match skipLines cs.length cs with
    | ']' :: rest => some ([], rest)
    | cs => do
      let (d, rest) ← value? fuel depth cs
      match skipLines rest.length rest with
      | ',' :: rest =>
        let (ds, rest) ← items? fuel depth rest
        return (d :: ds, rest)
      | ']' :: rest => return ([d], rest)
      | _ => none

/-- The keys of a table in braces, added to `n`, and its closing brace. -/
def pairs? (fuel depth : Nat) (n : Node) (cs : List Char) : Option (Node × List Char) :=
  match fuel with
  | 0 => none
  | fuel + 1 => do
    let (parts, rest) ← key? cs
    let rest ← expect? '=' (skipSpace rest)
    let (d, rest) ← value? fuel depth (skipSpace rest)
    let (path, key) := splitKey parts
    let n ← n.setKey path key d
    match skipSpace rest with
    | ',' :: rest => pairs? fuel depth n rest
    | '\x7d' :: rest => return (n, rest)
    | _ => none

end

/-! ## lines -/

/-- The document so far: all finished tables, and the one being written with
its path, which may be the next of a list of tables. -/
structure Draft where
  root : Node
  current : Node
  path : List String
  isItem : Bool

namespace Draft

/-- Nothing read. -/
def empty : Draft := ⟨.fresh, .fresh, [], false⟩

/-- Change the entry at the end of a path; `none` stands for no entry. -/
def changeEntry (path : List String) (change : Option Node → Option (Option Node)) (root : Node) :
    Option Node :=
  let (parents, key) := splitKey path
  Node.atPath false (fun t =>
    match t with
    | .table implicit dotted entries => do
      match ← change (entries.lookup key) with
      | some n => return .table implicit dotted (Node.setEntry key n entries)
      | none => return .table implicit dotted (entries.filter (·.1 != key))
    | _ => none) parents root

/-- Put the table being written into its place. -/
def close (d : Draft) : Option Node :=
  if d.path.isEmpty then some d.current
  else changeEntry d.path (fun entry =>
    if d.isItem then
      match entry with
      | none => some (some (.tables [d.current]))
      | some (.tables items) => some (some (.tables (items ++ [d.current])))
      | _ => none
    else
      match entry with
      | none => some (some d.current)
      | some _ => none) d.root

/-- The entry at the end of a path. -/
def entryAt (path : List String) : Node → Option Node
  | .table _ _ entries =>
    match path with
    | [] => none
    | [key] => entries.lookup key
    | key :: rest =>
      match entries.lookup key with
      | some (.tables items) => items.getLast?.bind (entryAt rest)
      | some n => entryAt rest n
      | none => none
  | _ => none
termination_by path.length
decreasing_by all_goals simp_all

/-- Begin a table. -/
def beginTable (d : Draft) (path : List String) : Option Draft := do
  let root ← d.close
  let current ← match entryAt path root with
    | none => some .fresh
    | some (.table true false entries) => some (.table false false entries)
    | some _ => none
  let root ← changeEntry path (fun _ => some none) root
  return ⟨root, current, path, false⟩

/-- Begin the next table of a list of tables. -/
def beginItem (d : Draft) (path : List String) : Option Draft := do
  let root ← d.close
  let root ← changeEntry path (fun entry =>
    match entry with
    | none => some (some (.tables []))
    | some (.tables items) => some (some (.tables items))
    | _ => none) root
  return ⟨root, .fresh, path, true⟩

end Draft

/-- Read one line that is not empty: what it changes, and the text after it. -/
def line? (d : Draft) (cs : List Char) : Option (Draft × List Char) :=
  match cs with
  | '[' :: '[' :: rest => do
    let (path, rest) ← key? rest
    let rest ← expect? ']' rest
    let rest ← expect? ']' rest
    let d ← d.beginItem path
    return (d, ← afterLine? rest)
  | '[' :: rest => do
    let (path, rest) ← key? rest
    let rest ← expect? ']' rest
    let d ← d.beginTable path
    return (d, ← afterLine? rest)
  | _ => do
    let (parts, rest) ← key? cs
    let rest ← expect? '=' rest
    let (v, rest) ← value? (4 * rest.length + 4) 0 (skipSpace rest)
    let (path, key) := splitKey parts
    let current ← d.current.setKey path key v
    return ({ d with current }, ← afterLine? rest)

/-- Read all lines. -/
def lines? (fuel : Nat) (d : Draft) (cs : List Char) : Option Draft :=
  match fuel with
  | 0 => if cs.isEmpty then some d else none
  | fuel + 1 =>
    match skipSpace cs with
    | [] => some d
    | cs =>
      match afterLine? cs with
      | some rest => lines? fuel d rest
      | none => do
        let (d, rest) ← line? d cs
        lines? fuel d rest

/-- The document that a text writes. A mark of byte order may come first. -/
def parse (text : String) : Option Document := do
  let cs := match text.toList with
    | '\ufeff' :: cs => cs
    | cs => cs
  let d ← lines? (cs.length + 1) .empty cs
  let root ← d.close
  return root.document

end Switchboard.Toml
