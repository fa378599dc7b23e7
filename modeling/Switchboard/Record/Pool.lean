import Switchboard.Record.Basic

/-!
# Switchboard.Record.Pool

Records for use and records on their way.

1. A limited number of blank records is kept for use. When none is left, a new
   one is made; of those handed back, no more are kept than the limit allows.
2. A record that is handed in waits for whoever writes it down, in order of
   handing in. Once nobody will, it is lost, and counted as lost.
-/

namespace Switchboard

/-- Blank records, and records to be written. -/
structure RecordPool where
  capacity : Nat
  free : List CallRecord
  pending : List CallRecord
  /-- Whether anybody will write the records that wait. -/
  isOpen : Bool
  submitted : Nat
  dropped : Nat
deriving Repr, DecidableEq

namespace RecordPool

/-- A pool with all its records free. -/
def new (capacity : Nat) : RecordPool :=
  ⟨capacity, List.replicate capacity .blank, [], true, 0, 0⟩

/-- The number of records free for use. -/
def available (p : RecordPool) : Nat := p.free.length

/-- Take a record for use: the one handed back last, or a new one. -/
def acquire (p : RecordPool) : CallRecord × RecordPool :=
  match p.free with
  | r :: rest => (r, { p with free := rest })
  | [] => (.blank, p)

/-- Hand a record back. It is wiped, and kept if there is room. -/
def recycle (p : RecordPool) (r : CallRecord) : RecordPool :=
  if p.free.length < p.capacity then { p with free := r.clear :: p.free } else p

/-- Count a record as lost. -/
def noteDropped (p : RecordPool) : RecordPool := { p with dropped := p.dropped + 1 }

/-- Hand a record in. The answer tells whether it will be written. -/
def submit (p : RecordPool) (r : CallRecord) : RecordPool × Bool :=
  if p.isOpen then
    ({ p with pending := p.pending ++ [r], submitted := p.submitted + 1 }, true)
  else (p.noteDropped.recycle r, false)

/-- Take the record that has waited for longest. -/
def receive (p : RecordPool) : Option CallRecord × RecordPool :=
  match p.pending with
  | r :: rest => (some r, { p with pending := rest })
  | [] => (none, p)

/-- From now on nobody writes records; those that wait are gone. -/
def close (p : RecordPool) : RecordPool := { p with pending := [], isOpen := false }

end RecordPool

end Switchboard
