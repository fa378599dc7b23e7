import Switchboard.Directory
import Switchboard.Notice

/-!
# Switchboard.Record.Sink

Where records are written.

1. A sink writes one record after the other and may keep a state of its own.
   Writing may fail, and may leave messages.
2. An outlet is one of four sinks: it keeps the records, sends them as
   messages, writes them at the end of a file, or always fails.
3. The file is opened for the first record. If it is removed while it is open,
   further records go to the removed file, where nobody finds them.
-/

namespace Switchboard

/-- A place for records, with a state of type `τ`. -/
structure Sink (τ : Type) where
  write : CallRecord → τ → Except Error Unit × List Notice × τ
  flush : τ → Except Error Unit

/-! ## files of records -/

/-- How far a file is in use. -/
inductive FileUse where
  | closed
  | opened
  /-- Open, but removed from its directory. -/
  | removed
deriving Repr, DecidableEq

/-- A file of records and the directory that it belongs to. -/
structure RecordFile where
  path : String
  directory : Directory
  state : FileUse
deriving Repr, DecidableEq

namespace RecordFile

/-- Write a record at the end of the file. -/
def write (f : RecordFile) (r : CallRecord) : Except Error Unit × RecordFile :=
  if f.state = .removed then (.ok (), f)
  else match f.directory.append f.path r.line with
    | .ok directory => (.ok (), { f with directory, state := .opened })
    | .error cause => (.error (.file cause), f)

/-- The text of the file, if there is one. -/
def text? (f : RecordFile) : Option String := (f.directory.read f.path).toOption

/-- Remove the file from its directory. -/
def remove (f : RecordFile) : RecordFile :=
  { f with
    directory := f.directory.remove f.path
    state := if f.state = .opened then .removed else f.state }

end RecordFile

/-! ## outlets -/

/-- One of the places for records. -/
inductive Outlet where
  | kept (records : List CallRecord)
  | messages
  | file (file : RecordFile)
  | failing (message : String)
deriving Repr, DecidableEq

namespace Outlet

/-- Write a record. -/
def write (r : CallRecord) : Outlet → Except Error Unit × List Notice × Outlet
  | .kept records => (.ok (), [], .kept (records ++ [r]))
  | .messages => (.ok (), [.callDetail r], .messages)
  | .file f => let (result, f) := f.write r; (result, [], .file f)
  | .failing message => (.error (.callDetail message), [], .failing message)

/-- Finish what was written. -/
def flush : Outlet → Except Error Unit
  | .failing message => .error (.callDetail message)
  | _ => .ok ()

/-- The sink that writes to an outlet. -/
def sink : Sink Outlet := ⟨write, flush⟩

/-- The records kept. -/
def records : Outlet → List CallRecord
  | .kept records => records
  | _ => []

end Outlet

end Switchboard
