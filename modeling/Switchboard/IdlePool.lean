import Switchboard.Event

/-!
# Switchboard.IdlePool

The free slots.

1. A slot is listed at most once, in the order in which slots became free.
2. A slot is taken from those listed, or from the members of a group among
   them, by a policy: the lowest, the highest, or the one free for longest.
3. The switch itself keeps with each slot the time since when it is free, and
   takes as the one free for longest that with the least time, of equal times
   the lowest number.  Here the order of the list stands for the times: it is
   theirs as long as slots become free at times that strictly increase, and may
   differ where two slots become free at the same reading of the clock.
-/

namespace Switchboard

/-- How a slot is chosen among free ones. -/
inductive Policy where
  | first | last | longestIdle
deriving Repr, DecidableEq

/-- The slot that a policy chooses from a list in order of waiting. -/
def Policy.choose? (policy : Policy) (slots : List SlotId) : Option SlotId :=
  match policy with
  | .first => slots.min?
  | .last => slots.max?
  | .longestIdle => slots.head?

/-- The free slots, that which has been free for longest first.  The order stands for
the times since when they are free, as long as these strictly increase. -/
structure IdlePool where
  slots : List SlotId
deriving Repr, DecidableEq

namespace IdlePool

/-- No free slot. -/
def empty : IdlePool := ⟨[]⟩

/-- The number of free slots. -/
def size (p : IdlePool) : Nat := p.slots.length

/-- Whether a slot is free. -/
def contains (p : IdlePool) (slot : SlotId) : Bool := p.slots.contains slot

/-- List a slot as free. The answer tells whether it was not listed before. -/
def insert (p : IdlePool) (slot : SlotId) : IdlePool × Bool :=
  if p.contains slot then (p, false) else (⟨p.slots ++ [slot]⟩, true)

/-- Take a slot off the list. The answer tells whether it was listed. -/
def remove (p : IdlePool) (slot : SlotId) : IdlePool × Bool :=
  (⟨p.slots.erase slot⟩, p.contains slot)

/-- The free slots among members, or all of them. -/
def candidates (p : IdlePool) : Option (List SlotId) → List SlotId
  | none => p.slots
  | some members => p.slots.filter members.contains

/-- Choose a slot and take it off the list. -/
def take (p : IdlePool) (members : Option (List SlotId)) (policy : Policy) :
    IdlePool × Option SlotId :=
  match policy.choose? (p.candidates members) with
  | none => (p, none)
  | some slot => ((p.remove slot).1, some slot)

end IdlePool

/-! ## reservations -/

/-- The slots taken out for a group that carry no call yet. -/
structure Reservations where
  entries : List (SlotId × String)
deriving Repr, DecidableEq

namespace Reservations

/-- No reservation. -/
def empty : Reservations := ⟨[]⟩

/-- The number of slots reserved for a group. -/
def count (r : Reservations) (group : String) : Nat := r.entries.countP (·.2 == group)

/-- Whether a slot is reserved. -/
def contains (r : Reservations) (slot : SlotId) : Bool := r.entries.any (·.1 == slot)

/-- Give up the reservation of a slot. -/
def release (r : Reservations) (slot : SlotId) : Reservations :=
  ⟨r.entries.filter (·.1 != slot)⟩

/-- Reserve a slot for a group, in place of a reservation it has. -/
def insert (r : Reservations) (slot : SlotId) (group : String) : Reservations :=
  ⟨(slot, group) :: (r.release slot).entries⟩

end Reservations

end Switchboard
