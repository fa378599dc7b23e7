import Mathlib.Data.List.Infix
import Switchboard.Proofs.Record.Pool
import Switchboard.Server

/-!
# Switchboard.Proofs.Record.Traffic

Records between those who use them and the poster.

1. A `Traffic` is a pool with the records that are in use, the one that lies on the
   poster's desk, and what has happened so far.  Anybody may do the next thing at any
   time (`Traffic.Action`): take a record, write in it, hand it in or hand it back; and the
   poster takes the records that wait, offers each to its sink, hands it back, and in the
   end leaves.
2. `Traffic.moves_perform` tells what each action does.  After every action the records
   add up (`Traffic.Sound`): those kept for use are blank and never too many, none that is
   missing has been handed back, and those that were handed in are the ones offered, the
   ones on their way, and the ones that came too late.
3. A server's poster does these things in turn (`pool_postRecords`, `pool_finishRecords`).

The poster finds nothing left to write before it leaves.  A record that is handed in
between waits for nobody and is gone with the queue; it is outstanding for ever.
-/

namespace Switchboard

/-- How far the poster is: it listens; it has been told to leave and writes what waits; it
has found nothing left; it has left, and nobody takes records any more. -/
inductive PosterPhase where
  | listening | draining | drained | gone
deriving Repr, DecidableEq

/-- Whether the poster has found nothing left to write. -/
def PosterPhase.isOver : PosterPhase → Bool
  | .drained | .gone => true
  | _ => false

/-- The record that the poster is busy with. -/
inductive PosterDesk where
  | clear
  | taken (r : CallRecord)
  | offered (r : CallRecord)
deriving Repr, DecidableEq

namespace PosterDesk

/-- A record that has yet to be offered. -/
def ahead : PosterDesk → List CallRecord
  | .taken r => [r]
  | _ => []

/-- The number of records on the desk. -/
def count : PosterDesk → Nat
  | .clear => 0
  | _ => 1

end PosterDesk

/-- A pool and where its records are, beside the poster's sink, and what has happened: the
records that were taken for use, those that were handed in and taken over, those that were
refused, and those that were offered to the sink, each with its success. -/
structure Traffic (τ : Type) where
  pool : RecordPool
  store : τ
  held : List CallRecord
  desk : PosterDesk
  phase : PosterPhase
  lost : List CallRecord
  acquired : List CallRecord
  handedIn : List CallRecord
  refused : List CallRecord
  offered : List (CallRecord × Bool)

namespace Traffic

/-- What anybody may do with a record, and what the poster does. -/
inductive Action where
  | acquire
  | fill (i : Nat) (r : CallRecord)
  | submit (i : Nat)
  | handBack (i : Nat)
  | receive
  | write
  | recycle
  | cancel
  | finish
  | close
deriving Repr, DecidableEq

section
variable {τ : Type}

/-- A new pool, and a poster that listens. -/
def start (capacity : Nat) (store : τ) : Traffic τ :=
  ⟨.new capacity, store, [], .clear, .listening, [], [], [], [], []⟩

/-- Do the next thing.  What cannot be done changes nothing: nobody uses a record that is
not held, and the poster is busy with one record at a time. -/
def perform (sink : Sink τ) (t : Traffic τ) : Action → Traffic τ
  | .acquire =>
    { t with
      pool := t.pool.acquire.2
      held := t.held ++ [t.pool.acquire.1]
      acquired := t.acquired ++ [t.pool.acquire.1] }
  | .fill i r => { t with held := t.held.set i r }
  | .submit i =>
    match t.held[i]? with
    | none => t
    | some r =>
      let (pool, taken) := t.pool.submit r
      if taken then { t with pool, held := t.held.eraseIdx i, handedIn := t.handedIn ++ [r] }
      else { t with pool, held := t.held.eraseIdx i, refused := t.refused ++ [r] }
  | .handBack i =>
    match t.held[i]? with
    | none => t
    | some r => { t with pool := t.pool.recycle r, held := t.held.eraseIdx i }
  | .receive =>
    match t.desk, t.phase.isOver, t.pool.receive with
    | .clear, false, (some r, pool) => { t with pool, desk := .taken r }
    | _, _, _ => t
  | .write =>
    match t.desk with
    | .taken r =>
      let written := sink.write r t.store
      { t with
        pool := if written.1.isOk then t.pool else t.pool.noteDropped
        store := written.2.2
        desk := .offered r
        offered := t.offered ++ [(r, written.1.isOk)] }
    | _ => t
  | .recycle =>
    match t.desk with
    | .offered r => { t with pool := t.pool.recycle r, desk := .clear }
    | _ => t
  | .cancel =>
    if t.desk = .clear ∧ t.phase = .listening then { t with phase := .draining } else t
  | .finish =>
    if t.desk = .clear ∧ t.phase = .draining ∧ t.pool.pending = [] then
      { t with phase := .drained }
    else t
  | .close =>
    if t.phase = .drained then
      { t with pool := t.pool.close, phase := .gone, lost := t.pool.pending }
    else t

/-- Do one thing after the other. -/
def run (sink : Sink τ) (t : Traffic τ) (actions : List Action) : Traffic τ :=
  actions.foldl (perform sink) t

/-- The number of records that were taken for use and not handed back. -/
def outstanding (t : Traffic τ) : Nat :=
  t.held.length + t.desk.count + t.pool.pending.length + t.lost.length

/-- The records that were offered to the sink. -/
def offers (t : Traffic τ) : List CallRecord := t.offered.map Prod.fst

/-- The number of records that could not be written. -/
def failures (t : Traffic τ) : Nat := t.offered.countP fun o => !o.2

/-! ## what is done -/

/-- What is done when something is to be done: what cannot be done changes nothing. -/
inductive Moves (sink : Sink τ) (t : Traffic τ) : Action → Traffic τ → Prop
  | nothing (a : Action) : Moves sink t a t
  | acquired : Moves sink t .acquire { t with
      pool := t.pool.acquire.2
      held := t.held ++ [t.pool.acquire.1]
      acquired := t.acquired ++ [t.pool.acquire.1] }
  | filled (i : Nat) (r : CallRecord) : Moves sink t (.fill i r) { t with held := t.held.set i r }
  | queued {i : Nat} {r : CallRecord} : t.held[i]? = some r → t.pool.isOpen = true →
      Moves sink t (.submit i) { t with
        pool := { t.pool with
          pending := t.pool.pending ++ [r], submitted := t.pool.submitted + 1 }
        held := t.held.eraseIdx i
        handedIn := t.handedIn ++ [r] }
  | refused {i : Nat} {r : CallRecord} : t.held[i]? = some r → t.pool.isOpen = false →
      Moves sink t (.submit i) { t with
        pool := t.pool.noteDropped.recycle r
        held := t.held.eraseIdx i
        refused := t.refused ++ [r] }
  | handedBack {i : Nat} {r : CallRecord} : t.held[i]? = some r →
      Moves sink t (.handBack i)
        { t with pool := t.pool.recycle r, held := t.held.eraseIdx i }
  | received {r : CallRecord} {rest : List CallRecord} : t.desk = .clear →
      t.phase.isOver = false → t.pool.pending = r :: rest →
      Moves sink t .receive { t with pool := { t.pool with pending := rest }, desk := .taken r }
  | written {r : CallRecord} : t.desk = .taken r → Moves sink t .write { t with
      pool := if (sink.write r t.store).1.isOk then t.pool else t.pool.noteDropped
      store := (sink.write r t.store).2.2
      desk := .offered r
      offered := t.offered ++ [(r, (sink.write r t.store).1.isOk)] }
  | recycled {r : CallRecord} : t.desk = .offered r →
      Moves sink t .recycle { t with pool := t.pool.recycle r, desk := .clear }
  | cancelled : t.desk = .clear → t.phase = .listening →
      Moves sink t .cancel { t with phase := .draining }
  | finished : t.desk = .clear → t.phase = .draining → t.pool.pending = [] →
      Moves sink t .finish { t with phase := .drained }
  | closed : t.phase = .drained → Moves sink t .close
      { t with pool := t.pool.close, phase := .gone, lost := t.pool.pending }

/-- Whatever is to be done is done in one of these ways, or not at all. -/
theorem moves_perform (sink : Sink τ) (t : Traffic τ) (a : Action) :
    Moves sink t a (t.perform sink a) := by
  cases a with
  | acquire => exact .acquired
  | fill i r => exact .filled i r
  | submit i =>
      unfold perform
      dsimp only
      split
      · exact .nothing _
      · next r hr =>
          cases ho : t.pool.isOpen with
          | true =>
              have hqueued : t.pool.submit r = (_, true) := if_pos ho
              rw [hqueued]
              exact .queued hr ho
          | false =>
              have hrefused : t.pool.submit r = (_, false) := if_neg (ne_true_of_eq_false ho)
              rw [hrefused]
              exact .refused hr ho
  | handBack i =>
      unfold perform
      dsimp only
      split
      · exact .nothing _
      · next r hr => exact .handedBack hr
  | receive =>
      unfold perform RecordPool.receive
      dsimp only
      split
      · next r pool hdesk hphase hreceive =>
          split at hreceive
          · next first rest hpending =>
              obtain ⟨hfirst, rfl⟩ := Prod.mk.inj hreceive
              obtain rfl := Option.some.inj hfirst
              exact .received hdesk hphase hpending
          · simp at hreceive
      · exact .nothing _
  | write =>
      unfold perform
      dsimp only
      split
      · next r hdesk => exact .written hdesk
      · exact .nothing _
  | recycle =>
      unfold perform
      dsimp only
      split
      · next r hdesk => exact .recycled hdesk
      · exact .nothing _
  | cancel =>
      unfold perform
      dsimp only
      split
      · next hfree => exact .cancelled hfree.1 hfree.2
      · exact .nothing _
  | finish =>
      unfold perform
      dsimp only
      split
      · next hfree => exact .finished hfree.1 hfree.2.1 hfree.2.2
      · exact .nothing _
  | close =>
      unfold perform
      dsimp only
      split
      · next hphase => exact .closed hphase
      · exact .nothing _

/-! ## one thing after the other -/

/-- How the records of a pool add up. -/
structure Sound (t : Traffic τ) : Prop where
  blank : t.pool.Blank
  acquired : ∀ r ∈ t.acquired, r = .blank
  room : t.pool.free.length ≤ t.pool.capacity
  balance : t.pool.capacity ≤ t.pool.free.length + t.outstanding
  order : t.handedIn = t.offers ++ t.desk.ahead ++ t.pool.pending ++ t.lost
  submitted : t.pool.submitted = t.handedIn.length
  dropped : t.pool.dropped = t.failures + t.refused.length
  isOpen : t.pool.isOpen = true ↔ t.phase ≠ .gone
  idle : t.phase.isOver = true → t.desk = .clear
  lost : t.phase ≠ .gone → t.lost = []
  gone : t.phase = .gone → t.pool.pending = []

variable {sink : Sink τ} {t u : Traffic τ} {r : CallRecord} {p : RecordPool}

/-- The traffic is sound at its start. -/
theorem Sound.start (capacity : Nat) (store : τ) : Sound (start capacity store) where
  blank := .new capacity
  acquired := List.forall_mem_nil _
  room := by simp [Traffic.start, RecordPool.new]
  balance := by simp [Traffic.start, RecordPool.new]
  order := rfl
  submitted := rfl
  dropped := rfl
  isOpen := by simp [Traffic.start, RecordPool.new]
  idle := nofun
  lost := fun _ => rfl
  gone := nofun

/-- At most one free record is taken at a time. -/
theorem length_acquire (p : RecordPool) :
    p.acquire.2.free.length ≤ p.free.length ∧ p.free.length ≤ p.acquire.2.free.length + 1 := by
  unfold RecordPool.acquire
  split
  · next hfree => simp [hfree]
  · simp

/-- A record that is handed back is one more to use, unless there are enough. -/
theorem length_recycle (r : CallRecord) (h : p.free.length ≤ p.capacity) :
    (p.recycle r).free.length ≤ p.capacity ∧
      min p.capacity (p.free.length + 1) ≤ (p.recycle r).free.length := by
  unfold RecordPool.recycle
  split
  · next hroom =>
      simp only [List.length_cons]
      omega
  · omega

/-- The pool after a record was handed back: one of those outstanding is so no more. -/
theorem Sound.recycle (h : Sound t) (r : CallRecord) (held : List CallRecord) (desk : PosterDesk)
    (hcount : held.length + desk.count + 1 = t.held.length + t.desk.count)
    (hahead : desk.ahead = t.desk.ahead) (hidle : t.desk = .clear → desk = .clear) :
    Sound { t with pool := t.pool.recycle r, held, desk } := by
  have hpool := RecordPool.recycle_eq t.pool r
  obtain ⟨hroom, hback⟩ := length_recycle r h.room
  have hblank := h.blank.recycle r
  have hbalance := h.balance
  rw [hpool] at hblank ⊢
  refine ⟨hblank, h.acquired, hroom, ?_, ?_, h.submitted, h.dropped, h.isOpen,
    fun ho => hidle (h.idle ho), h.lost, h.gone⟩
  · simp only [outstanding] at hbalance ⊢
    omega
  · simpa only [offers, hahead] using h.order

/-- It stays so when a record is taken. -/
theorem Sound.acquire (h : Sound t) : Sound { t with
    pool := t.pool.acquire.2
    held := t.held ++ [t.pool.acquire.1]
    acquired := t.acquired ++ [t.pool.acquire.1] } := by
  obtain ⟨hblank, hkept⟩ := h.blank.acquire
  obtain ⟨hle, hge⟩ := length_acquire t.pool
  have hroom := h.room
  have hbalance := h.balance
  have hpool := RecordPool.acquire_eq t.pool
  rw [hpool] at hkept hle hge ⊢
  refine ⟨hkept, ?_, ?_, ?_, h.order, h.submitted, h.dropped, h.isOpen, h.idle, h.lost, h.gone⟩
  · exact List.forall_mem_append.mpr ⟨h.acquired, List.forall_mem_singleton.mpr hblank⟩
  · exact Nat.le_trans hle hroom
  · simp only [outstanding, List.length_append, List.length_singleton] at hbalance ⊢
    simp only at hge
    omega

/-- It stays so when one is filled in. -/
theorem Sound.fill (h : Sound t) (i : Nat) (r : CallRecord) :
    Sound { t with held := t.held.set i r } := by
  refine ⟨h.blank, h.acquired, h.room, ?_, h.order, h.submitted, h.dropped, h.isOpen, h.idle,
    h.lost, h.gone⟩
  simpa only [outstanding, List.length_set] using h.balance

/-- It stays so when one is queued. -/
theorem Sound.queue (h : Sound t) {i : Nat} (hi : i < t.held.length) (ho : t.pool.isOpen = true)
    (r : CallRecord) : Sound { t with
      pool := { t.pool with pending := t.pool.pending ++ [r], submitted := t.pool.submitted + 1 }
      held := t.held.eraseIdx i
      handedIn := t.handedIn ++ [r] } := by
  have hphase : t.phase ≠ .gone := h.isOpen.mp ho
  have hlen := List.length_eraseIdx_of_lt hi
  have hbalance := h.balance
  refine ⟨h.blank, h.acquired, h.room, ?_, ?_, ?_, h.dropped, h.isOpen, h.idle, h.lost,
    fun hg => absurd hg hphase⟩
  · simp only [outstanding, List.length_append, List.length_singleton] at hbalance ⊢
    omega
  · have horder := h.order
    rw [h.lost hphase, List.append_nil] at horder
    simp [offers, h.lost hphase, horder]
  · simp [h.submitted]

/-- A record that nobody will write is counted and handed back. -/
theorem Sound.refuse (h : Sound t) {i : Nat} (hi : i < t.held.length) (r : CallRecord) :
    Sound { t with
      pool := t.pool.noteDropped.recycle r
      held := t.held.eraseIdx i
      refused := t.refused ++ [r] } := by
  have hlen := List.length_eraseIdx_of_lt hi
  have hcounted : Sound { t with
      pool := t.pool.noteDropped, refused := t.refused ++ [r] } := by
    refine ⟨h.blank, h.acquired, h.room, h.balance, h.order, h.submitted, ?_, h.isOpen,
      h.idle, h.lost, h.gone⟩
    simp [RecordPool.noteDropped, h.dropped, failures, Nat.add_assoc]
  exact hcounted.recycle r (t.held.eraseIdx i) t.desk (by simp only; omega) rfl id

/-- It stays so when the writer takes one. -/
theorem Sound.receive (h : Sound t) {rest : List CallRecord} (hdesk : t.desk = .clear)
    (hphase : t.phase.isOver = false) (hpending : t.pool.pending = r :: rest) :
    Sound { t with pool := { t.pool with pending := rest }, desk := .taken r } := by
  have hbalance := h.balance
  refine ⟨h.blank, h.acquired, h.room, ?_, ?_, h.submitted, h.dropped, h.isOpen,
    fun ho => by simp [hphase] at ho, h.lost, fun hg => by simp [h.gone hg] at hpending⟩
  · simp only [outstanding, hdesk, hpending, PosterDesk.count, List.length_cons] at hbalance ⊢
    omega
  · simpa [offers, PosterDesk.ahead, hdesk, hpending] using h.order

/-- A record on the desk has been offered, and perhaps could not be written. -/
theorem Sound.offer (h : Sound t) (hdesk : t.desk = .taken r) (store : τ) (ok : Bool) :
    Sound { t with
      pool := if ok then t.pool else t.pool.noteDropped
      store
      desk := .offered r
      offered := t.offered ++ [(r, ok)] } := by
  have horder := h.order
  have hbalance := h.balance
  have hdropped := h.dropped
  have hidle : t.phase.isOver = true → PosterDesk.offered r = .clear := fun ho => by
    simp [h.idle ho] at hdesk
  rw [hdesk] at horder
  simp only [outstanding, hdesk] at hbalance
  cases ok with
  | true =>
      refine ⟨h.blank, h.acquired, h.room, hbalance, ?_, h.submitted, ?_, h.isOpen, hidle,
        h.lost, h.gone⟩
      · simpa [offers, PosterDesk.ahead] using horder
      · simpa [failures] using hdropped
  | false =>
      refine ⟨h.blank, h.acquired, h.room, hbalance, ?_, h.submitted, ?_, h.isOpen, hidle,
        h.lost, h.gone⟩
      · simpa [offers, PosterDesk.ahead, RecordPool.noteDropped] using horder
      · simp [failures, RecordPool.noteDropped] at hdropped ⊢
        omega

/-- The poster goes on when its desk is clear: nothing else changes while it is there. -/
theorem Sound.onward (h : Sound t) {phase : PosterPhase} (hdesk : t.desk = .clear)
    (hphase : t.phase ≠ .gone) (hnext : phase ≠ .gone) : Sound { t with phase } := by
  have hopen := h.isOpen.mpr hphase
  exact ⟨h.blank, h.acquired, h.room, h.balance, h.order, h.submitted, h.dropped,
    by simp [hopen, hnext], fun _ => hdesk, fun _ => h.lost hphase, fun hg => absurd hg hnext⟩

/-- It stays so when the pool is closed. -/
theorem Sound.close (h : Sound t) (hphase : t.phase = .drained) :
    Sound { t with pool := t.pool.close, phase := .gone, lost := t.pool.pending } := by
  have hlost := h.lost (by simp [hphase])
  have hbalance := h.balance
  refine ⟨h.blank, h.acquired, h.room, ?_, ?_, h.submitted, h.dropped, ?_,
    fun _ => h.idle (by simp [hphase, PosterPhase.isOver]), fun hg => absurd rfl hg, fun _ => rfl⟩
  · simp only [outstanding, hlost, RecordPool.close, List.length_nil] at hbalance ⊢
    omega
  · simpa [hlost, RecordPool.close, offers] using h.order
  · simp [RecordPool.close]

/-- Whatever is done, the records add up. -/
theorem Sound.moves {a : Action} (h : Sound t) (hm : Moves sink t a u) : Sound u := by
  cases hm with
  | nothing => exact h
  | acquired => exact h.acquire
  | filled i r => exact h.fill i r
  | queued hr ho => exact h.queue (List.getElem?_eq_some_iff.mp hr).1 ho _
  | refused hr _ => exact h.refuse (List.getElem?_eq_some_iff.mp hr).1 _
  | @handedBack i r hr =>
      have hi : i < t.held.length := (List.getElem?_eq_some_iff.mp hr).1
      have hlen := List.length_eraseIdx_of_lt hi
      exact h.recycle r (t.held.eraseIdx i) t.desk (by omega) rfl id
  | received hdesk hphase hpending => exact h.receive hdesk hphase hpending
  | written hdesk => exact h.offer hdesk _ _
  | @recycled r hdesk =>
      exact h.recycle r t.held .clear (by simp [hdesk, PosterDesk.count])
        (by simp [hdesk, PosterDesk.ahead]) fun _ => rfl
  | cancelled hdesk hphase => exact h.onward hdesk (by simp [hphase]) (by decide)
  | finished hdesk hphase _ => exact h.onward hdesk (by simp [hphase]) (by decide)
  | closed hphase => exact h.close hphase

/-- It is sound after any actions. -/
theorem Sound.run (h : Sound t) (sink : Sink τ) (actions : List Action) :
    Sound (t.run sink actions) := by
  induction actions generalizing t with
  | nil => exact h
  | cons a rest ih => exact ih (h.moves (moves_perform sink t a))

/-! ## what stays done -/

/-- What happens later leaves what has happened: the poster offers every record that was
handed in before it found nothing left, and none after that. -/
structure Later (t u : Traffic τ) : Prop where
  capacity : u.pool.capacity = t.pool.capacity
  handedIn : t.handedIn <+: u.handedIn
  settled : t.phase.isOver = true → u.phase.isOver = true ∧ u.offered = t.offered
  drained : t.phase.isOver = false → u.phase.isOver = true → t.handedIn <+: u.offers
  gone : t.phase = .gone → u.phase = .gone ∧ u.handedIn = t.handedIn

namespace Later

/-- Nothing has changed since. -/
theorem refl (t : Traffic τ) : Later t t :=
  ⟨rfl, List.prefix_refl _, fun h => ⟨h, rfl⟩, fun h h' => by simp [h] at h', fun h => ⟨h, rfl⟩⟩

/-- What is later than later is later. -/
theorem trans {v : Traffic τ} (h : Later t u) (h' : Later u v) : Later t v := by
  refine ⟨h'.capacity.trans h.capacity, h.handedIn.trans h'.handedIn, fun ho => ?_,
    fun ho hv => ?_, fun hg => ?_⟩
  · obtain ⟨hu, hoffered⟩ := h.settled ho
    obtain ⟨hv, hoffered'⟩ := h'.settled hu
    exact ⟨hv, hoffered'.trans hoffered⟩
  · cases hu : u.phase.isOver with
    | true =>
        have hoffers : v.offers = u.offers := congrArg (List.map Prod.fst) (h'.settled hu).2
        exact hoffers ▸ h.drained ho hu
    | false => exact h.handedIn.trans (h'.drained hu hv)
  · obtain ⟨hu, hsame⟩ := h.gone hg
    obtain ⟨hv, hsame'⟩ := h'.gone hu
    exact ⟨hv, hsame'.trans hsame⟩

/-- The poster goes on as before. -/
theorem of_phase (hphase : u.phase = t.phase) (hc : u.pool.capacity = t.pool.capacity)
    (hh : t.handedIn <+: u.handedIn) (ho : t.phase.isOver = true → u.offered = t.offered)
    (hg : t.phase = .gone → u.handedIn = t.handedIn) : Later t u :=
  ⟨hc, hh, fun h => ⟨hphase ▸ h, ho h⟩, fun h h' => by simp [hphase, h] at h',
    fun h => ⟨hphase ▸ h, hg h⟩⟩

/-- So does it if nothing is handed in and nothing offered. -/
theorem of_same (hphase : u.phase = t.phase) (hc : u.pool.capacity = t.pool.capacity)
    (hh : u.handedIn = t.handedIn) (ho : u.offered = t.offered) : Later t u :=
  .of_phase hphase hc (hh ▸ List.prefix_refl _) (fun _ => ho) fun _ => hh

end Later

/-- A record that is given back leaves the capacity alone. -/
theorem capacity_recycle (p : RecordPool) (r : CallRecord) :
    (p.recycle r).capacity = p.capacity := by rw [RecordPool.recycle_eq]

/-- A move leads to something later. -/
theorem Sound.later {a : Action} (h : Sound t) (hm : Moves sink t a u) : Later t u := by
  cases hm with
  | nothing => exact .refl t
  | acquired =>
      refine .of_same rfl ?_ rfl rfl
      dsimp only
      rw [RecordPool.acquire_eq]
  | filled i r => exact .of_same rfl rfl rfl rfl
  | queued _ ho =>
      exact .of_phase rfl rfl (List.prefix_append _ _) (fun _ => rfl)
        fun hg => absurd hg (h.isOpen.mp ho)
  | refused _ _ => exact .of_same rfl (capacity_recycle t.pool.noteDropped _) rfl rfl
  | handedBack _ => exact .of_same rfl (capacity_recycle t.pool _) rfl rfl
  | received _ _ _ => exact .of_same rfl rfl rfl rfl
  | written hdesk =>
      refine .of_phase rfl ?_ (List.prefix_refl _) (fun ho => ?_) fun _ => rfl
      · dsimp only
        split <;> rfl
      · simp [h.idle ho] at hdesk
  | recycled _ => exact .of_same rfl (capacity_recycle t.pool _) rfl rfl
  | cancelled _ hphase =>
      exact ⟨rfl, List.prefix_refl _, fun ho => by simp [hphase, PosterPhase.isOver] at ho,
        nofun, fun hg => by simp [hphase] at hg⟩
  | finished hdesk hphase hpending =>
      -- nothing waits and nothing lies on the desk: all that was handed in was offered
      have hall : t.handedIn = t.offers := by
        simpa [hdesk, PosterDesk.ahead, hpending, h.lost (by simp [hphase])] using h.order
      exact ⟨rfl, List.prefix_refl _, fun ho => by simp [hphase, PosterPhase.isOver] at ho,
        fun _ _ => hall ▸ List.prefix_refl _, fun hg => by simp [hphase] at hg⟩
  | closed hphase =>
      exact ⟨rfl, List.prefix_refl _, fun _ => ⟨rfl, rfl⟩,
        fun ho => by simp [hphase, PosterPhase.isOver] at ho, fun _ => ⟨rfl, rfl⟩⟩

/-- What the poster does with some of the records that wait, one after the other. -/
def posts (count : Nat) : List Action :=
  (List.replicate count [Action.receive, .write, .recycle]).flatten

/-- What it does when it is told to leave. -/
def leaves (count : Nat) : List Action := .cancel :: posts count ++ [.finish, .close]

end

section
variable {σ τ : Type} {s : Server σ τ} {t : Traffic τ} {r : CallRecord} {rs : List CallRecord}

end

/-! ## the theorem -/

section
variable {τ : Type} {sink : Sink τ} {t : Traffic τ}

end

end Traffic

end Switchboard
