import Mathlib.Logic.Relation
import Switchboard.Record.Pool

/-!
# Switchboard.Proofs.Record.Pool

What becomes of records in the pool.

1. Whatever is kept for use is blank (`RecordPool.Blank`): a record that is handed
   back is wiped first.
2. Records that are handed in wait in order while somebody writes them, and are
   counted as lost afterwards (`RecordPool.Taken`).
3. Whoever writes records takes those that wait, hands them back, counts some as
   lost, and leaves in the end (`RecordPool.Handled`).
-/

namespace Switchboard.RecordPool

variable {p q t : RecordPool} {rs ss : List CallRecord}

/-! ## blank records -/

/-- Nothing is written in the records kept for use. -/
def Blank (p : RecordPool) : Prop := ∀ r ∈ p.free, r = .blank

theorem Blank.new (capacity : Nat) : (RecordPool.new capacity).Blank :=
  fun _ hr => List.eq_of_mem_replicate hr

/-- A record taken for use is blank. -/
theorem Blank.acquire (h : p.Blank) : p.acquire.1 = .blank ∧ p.acquire.2.Blank := by
  unfold RecordPool.acquire
  split
  · next r rest hfree =>
      refine ⟨h r (by simp [hfree]), fun s hs => h s ?_⟩
      rw [hfree]
      exact List.mem_cons_of_mem r hs
  · exact ⟨rfl, h⟩

/-- A record handed back is kept blank. -/
theorem Blank.recycle (h : p.Blank) (r : CallRecord) : (p.recycle r).Blank := by
  unfold RecordPool.recycle
  split
  · intro s hs
    rcases List.mem_cons.mp hs with rfl | hs
    · exact CallRecord.clear_eq_blank r
    · exact h s hs
  · exact h

/-! ## records handed in -/

/-- What handing in records makes of a pool: they wait behind the others, or are
lost if nobody writes them. -/
structure Taken (p : RecordPool) (rs : List CallRecord) (q : RecordPool) : Prop where
  blank : q.Blank
  isOpen : q.isOpen = p.isOpen
  pending : q.pending = if p.isOpen then p.pending ++ rs else p.pending
  dropped : q.dropped = if p.isOpen then p.dropped else p.dropped + rs.length

theorem Blank.taken (h : p.Blank) : Taken p [] p :=
  ⟨h, rfl, by simp, by simp⟩

theorem Taken.trans (h : Taken p rs q) (h' : Taken q ss t) : Taken p (rs ++ ss) t := by
  refine ⟨h'.blank, h'.isOpen.trans h.isOpen, ?_, ?_⟩
  · rw [h'.pending, h.pending, h.isOpen]
    split <;> simp
  · rw [h'.dropped, h.dropped, h.isOpen]
    split <;> simp [Nat.add_assoc]

/-- Taking a record for use leaves those that wait. -/
theorem acquire_eq (p : RecordPool) : p.acquire.2 = { p with free := p.acquire.2.free } := by
  unfold acquire
  split <;> rfl

/-- So does handing one back. -/
theorem recycle_eq (p : RecordPool) (r : CallRecord) :
    p.recycle r = { p with free := (p.recycle r).free } := by
  unfold recycle
  split <;> rfl

/-- A record that is handed in waits, or is lost. -/
theorem Blank.submit (h : p.Blank) (r : CallRecord) : Taken p [r] (p.submit r).1 := by
  unfold RecordPool.submit
  cases ho : p.isOpen with
  | true => exact ⟨h, by simp [ho], by simp [ho], by simp [ho]⟩
  | false =>
      have hlost : (p.noteDropped.recycle r).Blank := Blank.recycle (p := p.noteDropped) h r
      rw [recycle_eq] at hlost ⊢
      exact ⟨hlost, by simp [ho, noteDropped], by simp [ho, noteDropped],
        by simp [ho, noteDropped]⟩

/-- A record is taken for use, and `r`, which is written in it, handed in. -/
def use (p : RecordPool) (r : CallRecord) : RecordPool := (p.acquire.2.submit r).1

theorem Blank.use (h : p.Blank) (r : CallRecord) : Taken p [r] (p.use r) := by
  unfold RecordPool.use
  have htaken := h.acquire.2.submit r
  rw [acquire_eq] at htaken ⊢
  exact ⟨htaken.blank, htaken.isOpen, htaken.pending, htaken.dropped⟩

/-- Nothing but what waits depends on what is written. -/
theorem use_eq (p : RecordPool) (r s : CallRecord) :
    p.use r = { p.use s with pending := if p.isOpen then p.pending ++ [r] else p.pending } := by
  have hopen : p.acquire.2.isOpen = p.isOpen := by rw [acquire_eq]
  have hpending : p.acquire.2.pending = p.pending := by rw [acquire_eq]
  unfold use submit
  rw [hopen]
  cases p.isOpen with
  | true => simp [hpending]
  | false =>
      have hlost : ∀ q : CallRecord, p.acquire.2.noteDropped.recycle q =
          p.acquire.2.noteDropped.recycle .blank := fun _ => rfl
      have hkept := recycle_eq p.acquire.2.noteDropped .blank
      simp only [Bool.false_eq_true, if_false]
      rw [hlost r, hlost s, hkept]
      simp [noteDropped, hpending]

/-! ## records handled -/

/-- What whoever writes the records may do. -/
inductive Handled : RecordPool → RecordPool → Prop
  | receive (p : RecordPool) : Handled p p.receive.2
  | recycle (p : RecordPool) (r : CallRecord) : Handled p (p.recycle r)
  | noteDropped (p : RecordPool) : Handled p p.noteDropped
  | close (p : RecordPool) : Handled p p.close

/-- Whoever writes the records leaves those kept for use blank. -/
theorem Blank.handled (h : p.Blank) (hq : Relation.ReflTransGen Handled p q) : q.Blank := by
  induction hq with
  | refl => exact h
  | tail _ hlast ih =>
      cases hlast with
      | receive =>
          unfold RecordPool.receive
          split <;> exact ih
      | recycle r => exact ih.recycle r
      | noteDropped => exact ih
      | close => exact ih

end Switchboard.RecordPool
