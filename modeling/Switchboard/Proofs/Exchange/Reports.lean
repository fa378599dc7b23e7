import Switchboard.Proofs.Exchange.Account
import Switchboard.Proofs.Slot.Records

/-!
# Switchboard.Proofs.Exchange.Reports

What operations report about slots.

1. Records, messages and calls for workers stand in the annex of the books
   (`Annex`), and nothing that is done depends on what stands there.  So it can be
   said what an operation hands in, whoever writes it down (`HandsIn`).
2. An operation tells of each slot one tale, with the records of that slot
   (`Tells`): `reports_perform`.
-/

namespace Switchboard

open RecordPool (Taken)

/-! ## the annex -/

/-- What the books hold besides: the records, the messages and the workers called. -/
structure Annex where
  records : RecordPool
  journal : List Notice
  called : List Worker

namespace Ledger

def annex (l : Ledger) : Annex := ⟨l.records, l.journal, l.called⟩

/-- The books with another annex. -/
def beside (l : Ledger) (b : Annex) : Ledger :=
  { l with records := b.records, journal := b.journal, called := b.called }

/-- A call for a worker is something beside the ledger. -/
theorem call_eq_beside (l : Ledger) (w : Worker) : l.call w = l.beside (l.call w).annex := by
  unfold call
  split <;> rfl

/-- Handing in a record is a matter of the annex. -/
theorem submit_eq_beside (l : Ledger) (r : CallRecord) :
    l.submit r = l.beside (l.submit r).annex := by
  unfold submit
  dsimp only
  split
  · rw [call_eq_beside]
    rfl
  · rfl

/-- An entry is made beside any annex. -/
theorem beside_enter (l : Ledger) (b : Annex) (id : SlotId) (e : Entry) :
    ∃ b', (l.beside b).enter id e = (l.enter id e).beside b' := by
  cases e with
  | calls w =>
      unfold enter
      dsimp only
      rw [call_eq_beside l, call_eq_beside (l.beside b)]
      exact ⟨_, rfl⟩
  | records kind c now =>
      unfold enter
      dsimp only
      rw [submit_eq_beside { l with records := _ },
        submit_eq_beside { l.beside b with records := _ }]
      exact ⟨_, rfl⟩
  | relists =>
      unfold enter
      by_cases hnew : (l.idle.insert id).2 = true
      · exact ⟨b, by simp [hnew, beside]⟩
      · refine ⟨{ b with journal := b.journal ++ [.alreadyIdle id] }, ?_⟩
        simp [hnew, beside, note, Ledger.notes]
  | identifies wanted => cases wanted <;> exact ⟨b, rfl⟩
  | notes ns => exact ⟨{ b with journal := b.journal ++ ns }, rfl⟩
  | orders | strikes | lists | unlists | books | breaks => exact ⟨b, rfl⟩

/-- So are several. -/
theorem beside_enterAll (l : Ledger) (b : Annex) (id : SlotId) (es : List Entry) :
    ∃ b', (l.beside b).enterAll id es = (l.enterAll id es).beside b' := by
  induction es generalizing l b with
  | nil => exact ⟨b, rfl⟩
  | cons e rest ih =>
      obtain ⟨b₁, h₁⟩ := beside_enter l b id e
      obtain ⟨b₂, h₂⟩ := ih (l.enter id e) b₁
      refine ⟨b₂, ?_⟩
      rw [← h₁] at h₂
      exact h₂

/-- An entry breaks the work off if it says so. -/
theorem broken_enter (l : Ledger) (id : SlotId) (e : Entry) :
    (l.enter id e).broken = true ↔ l.broken = true ∨ e = .breaks := by
  cases e with
  | calls w =>
      unfold enter
      dsimp only
      rw [call_eq_beside]
      simp [beside]
  | records kind c now =>
      unfold enter
      dsimp only
      rw [submit_eq_beside]
      simp [beside]
  | relists =>
      unfold enter
      dsimp only
      split <;> simp [note, Ledger.notes]
  | identifies wanted => cases wanted <;> simp [enter, identify]
  | breaks => simp [enter]
  | notes | orders | strikes | lists | unlists | books =>
      simp [enter, Ledger.notes, Ledger.order, strikeCall, enterCall]

/-- Work stays broken off. -/
theorem broken_enterAll (l : Ledger) (id : SlotId) (es : List Entry) :
    (l.enterAll id es).broken = true ↔ l.broken = true ∨ Entry.breaks ∈ es := by
  induction es generalizing l with
  | nil => simp [enterAll]
  | cons e rest ih =>
      have hrest := ih (l.enter id e)
      rw [broken_enter, or_assoc] at hrest
      rw [List.mem_cons, eq_comm (a := Entry.breaks)]
      exact hrest

end Ledger

namespace Exchange

variable {σ α β : Type} {x y z : Exchange σ} {id : SlotId} {rs ss : List CallRecord}
  {f : Exchange σ → Exchange σ × α}

/-- An exchange with another annex to its books. -/
def beside (x : Exchange σ) (b : Annex) : Exchange σ := { x with ledger := x.ledger.beside b }

/-! ## work that is broken off -/

/-- Work on a slot is broken off if it says so, whatever stands in the books. -/
theorem breaksOff_iff {f : Station σ → Station σ × α} {g : Slot σ → Work σ × α}
    (hf : Station.Answers f g) : x.breaksOff id f = true ↔
      ∃ s, x.slots[id]? = some s ∧ Entry.breaks ∈ (g s).1.entries := by
  unfold breaksOff
  cases hs : x.slots[id]? with
  | none => simp
  | some s =>
      dsimp only
      rw [hf.eq]
      simpa [Work.on] using Ledger.broken_enterAll { x.ledger with broken := false } _ _

/-- Whether an operation breaks off shows in what its slot does. -/
theorem breaksOff_congr {f : Station σ → Station σ × α} {g : Slot σ → Work σ × α}
    (hf : Station.Answers f g) (hs : y.slots[id]? = x.slots[id]?) :
    y.breaksOff id f = x.breaksOff id f := by
  rw [Bool.eq_iff_iff, breaksOff_iff hf, breaksOff_iff hf, hs]

/-! ## handing in records -/

/-- Something that is done hands in records: it does the same whatever the annex
holds, but that its records go there. -/
def HandsIn (f : Exchange σ → Exchange σ × α) (x : Exchange σ) (rs : List CallRecord) : Prop :=
  ∀ b : Annex, b.records.Blank →
    ∃ b', f (x.beside b) = ((f x).1.beside b', (f x).2) ∧ Taken b.records rs b'.records

namespace HandsIn

theorem pure (a : α) (x : Exchange σ) : HandsIn (fun y => (y, a)) x [] :=
  fun b hb => ⟨b, rfl, hb.taken⟩

/-- What is done next hands in its records behind the others. -/
theorem bind {g : α → Exchange σ → Exchange σ × β} (h : HandsIn f x rs)
    (hg : HandsIn (g (f x).2) (f x).1 ss) : HandsIn (fun y => g (f y).2 (f y).1) x (rs ++ ss) := by
  intro b hb
  obtain ⟨b₁, h₁, ht₁⟩ := h b hb
  -- What is done next finds the annex that was left, and no other difference.
  obtain ⟨b₂, h₂, ht₂⟩ := hg b₁ ht₁.blank
  refine ⟨b₂, ?_, ht₁.trans ht₂⟩
  dsimp only
  rw [h₁]
  exact h₂

/-- The pool takes what is handed in. -/
theorem taken (h : HandsIn f x rs) (hb : x.ledger.records.Blank) :
    Taken x.ledger.records rs (f x).1.ledger.records := by
  obtain ⟨b', hb', ht⟩ := h x.ledger.annex hb
  have hx : f x = ((f x).1.beside b', (f x).2) := hb'
  rw [hx]
  exact ht

/-- An answer may be put in other words. -/
theorem map {g : Exchange σ → Exchange σ × β} (h : HandsIn f x rs) (m : α → β)
    (hg : ∀ y, g y = ((f y).1, m (f y).2)) : HandsIn g x rs := by
  intro b hb
  obtain ⟨b', h', ht⟩ := h b hb
  refine ⟨b', ?_, ht⟩
  rw [hg, hg, h']

/-- What is done is what is done whatever the annex holds. -/
theorem congr {g : Exchange σ → Exchange σ × α} (h : HandsIn f x rs)
    (hg : ∀ b, g (x.beside b) = f (x.beside b)) : HandsIn g x rs := by
  intro b hb
  obtain ⟨b', h', ht⟩ := h b hb
  have hx : g x = f x := hg x.ledger.annex
  exact ⟨b', by rw [hg, hx, h'], ht⟩

/-- To take notes hands in no record. -/
theorem notes (ns : List Notice) (a : α) (x : Exchange σ) :
    HandsIn (fun y => ({ y with ledger := y.ledger.notes ns }, a)) x [] :=
  fun b hb => ⟨{ b with journal := b.journal ++ ns }, rfl, hb.taken⟩

/-- Work on a slot hands in the records among its entries. -/
theorem atSlot {F : Exchange σ → Station σ → Station σ × α} {slot : Slot σ}
    (hslot : x.slots[id]? = some slot) {w : Work σ} {a : α}
    (hF : ∀ b, F (x.beside b) ⟨slot, x.ledger.beside b⟩ = (w.on (x.ledger.beside b), a))
    (hx : F x ⟨slot, x.ledger⟩ = (w.on x.ledger, a)) :
    HandsIn (fun y => y.atSlot id (F y)) x w.records := by
  intro b hb
  obtain ⟨b', hb'⟩ := Ledger.beside_enterAll x.ledger b w.slot.id w.entries
  refine ⟨b', ?_, ?_⟩
  · have hbeside : (x.beside b).slots[id]? = some slot := hslot
    dsimp only
    rw [atSlot_of_getElem? hslot, atSlot_of_getElem? hbeside, hx]
    rw [show (⟨slot, (x.beside b).ledger⟩ : Station σ) = ⟨slot, x.ledger.beside b⟩ from rfl, hF]
    dsimp only [Work.on]
    rw [hb']
    rfl
  · have htaken := Ledger.taken_enterAll (l := x.ledger.beside b) hb w.slot.id w.entries
    rw [hb'] at htaken
    exact htaken

end HandsIn

/-! ## tales of all slots -/

/-- A slot that is left alone, with no records. -/
def Untouched (s : Slot σ) (rs : List CallRecord) (t : Slot σ) : Prop := rs = [] ∧ t = s

/-- Each slot with the records that are its own goes its way, as `R` has it. -/
structure Tells (R : SlotId → Slot σ → List CallRecord → Slot σ → Prop) (x : Exchange σ)
    (rs : List CallRecord) (y : Exchange σ) : Prop where
  size : y.slots.length = x.slots.length
  slot : ∀ (id : SlotId) (s : Slot σ), x.slots[id]? = some s →
    ∃ t, y.slots[id]? = some t ∧ R id s (rs.filter (·.slot == id)) t
  known : ∀ r ∈ rs, r.slot < x.slots.length

namespace Tells

variable {R S T : SlotId → Slot σ → List CallRecord → Slot σ → Prop}

/-- What is told with one relation is told with a weaker one. -/
theorem mono (h : Tells R x rs y) (hRS : ∀ id s rs t, R id s rs t → S id s rs t) :
    Tells S x rs y := by
  refine ⟨h.size, fun id s hs => ?_, h.known⟩
  obtain ⟨t, ht, hR⟩ := h.slot id s hs
  exact ⟨t, ht, hRS _ _ _ _ hR⟩

theorem of_slots (hslots : y.slots = x.slots) (hR : ∀ id s, R id s [] s) : Tells R x [] y :=
  ⟨by rw [hslots], fun id s hs => ⟨s, hslots ▸ hs, hR id s⟩, fun _ hr => nomatch hr⟩

/-- Two tales of a slot make one. -/
theorem trans (h : Tells R x rs y) (h' : Tells S y ss z) (hx : x.Lawful) (hy : y.Lawful)
    (hRS : ∀ id s t u rs ss, t.id = s.id → R id s rs t → S id t ss u → T id s (rs ++ ss) u) :
    Tells T x (rs ++ ss) z := by
  refine ⟨h'.size.trans h.size, fun id s hs => ?_, fun r hr => ?_⟩
  · obtain ⟨t, ht, hR⟩ := h.slot id s hs
    obtain ⟨u, hu, hS⟩ := h'.slot id t ht
    refine ⟨u, hu, ?_⟩
    rw [List.filter_append]
    exact hRS _ _ _ _ _ _ ((hy.numbered id t ht).trans (hx.numbered id s hs).symm) hR hS
  · rcases List.mem_append.mp hr with hr | hr
    · exact h.known r hr
    · exact h.size ▸ h'.known r hr

/-- Work on a slot tells of that slot, and leaves the others alone. -/
theorem atSlot {F : Station σ → Station σ × α} {slot : Slot σ} (hslot : x.slots[id]? = some slot)
    (hid : slot.id = id) {w : Work σ} (hF : (F ⟨slot, x.ledger⟩).1.slot = w.slot)
    {P : Slot σ → List CallRecord → Slot σ → Prop} (hP : P slot w.records w.slot)
    (howner : ∀ r ∈ w.records, r.slot = slot.id) :
    Tells (fun j s rs t => if j = id then P s rs t else Untouched s rs t) x w.records
      (x.atSlot id F).1 := by
  have hlt := (List.getElem?_eq_some_iff.mp hslot).1
  have howned : ∀ r ∈ w.records, r.slot = id := fun r hr => (howner r hr).trans hid
  rw [atSlot_of_getElem? hslot]
  refine ⟨List.length_set .., fun j s hs => ?_, fun r hr => howned r hr ▸ hlt⟩
  dsimp only
  by_cases hj : j = id
  · subst hj
    obtain rfl : s = slot := Option.some.inj (hs.symm.trans hslot)
    refine ⟨w.slot, ?_, ?_⟩
    · rw [List.getElem?_set_self hlt, hF]
    · rw [if_pos rfl, List.filter_eq_self.mpr fun r hr => by simp [howned r hr]]
      exact hP
  · refine ⟨s, ?_, ?_⟩
    · rw [List.getElem?_set_ne (Ne.symm hj)]
      exact hs
    · rw [if_neg hj]
      refine ⟨List.filter_eq_nil_iff.mpr fun r hr => ?_, rfl⟩
      simp [howned r hr, Ne.symm hj]

end Tells

/-- Something that is done hands in records, and tells of each slot with them. -/
def Reports (R : SlotId → Slot σ → List CallRecord → Slot σ → Prop)
    (f : Exchange σ → Exchange σ × α) (x : Exchange σ) : Prop :=
  ∃ rs, HandsIn f x rs ∧ Tells R x rs (f x).1

namespace Reports

variable {R S T : SlotId → Slot σ → List CallRecord → Slot σ → Prop}
  {P : Slot σ → List CallRecord → Slot σ → Prop}

theorem mono (h : Reports R f x) (hRS : ∀ id s rs t, R id s rs t → S id s rs t) :
    Reports S f x := by
  obtain ⟨rs, hrs, htells⟩ := h
  exact ⟨rs, hrs, htells.mono hRS⟩

/-- What is made of the answer is not part of the report. -/
theorem map {g : Exchange σ → Exchange σ × β} (h : Reports R f x) (m : α → β)
    (hg : ∀ y, g y = ((f y).1, m (f y).2)) : Reports R g x := by
  obtain ⟨rs, hrs, htells⟩ := h
  refine ⟨rs, hrs.map m hg, ?_⟩
  rw [hg]
  exact htells

theorem congr {g : Exchange σ → Exchange σ × α} (h : Reports R f x)
    (hg : ∀ b, g (x.beside b) = f (x.beside b)) : Reports R g x := by
  obtain ⟨rs, hrs, htells⟩ := h
  refine ⟨rs, hrs.congr hg, ?_⟩
  have hx : g x = f x := hg x.ledger.annex
  rw [hx]
  exact htells

/-- Two operations in a row hand in the records of both, if the second does not look at what
the first has handed in. -/
theorem bind {g : α → Exchange σ → Exchange σ × β} (h : Reports R f x) (hx : x.Lawful)
    (hy : (f x).1.Lawful) (hg : Reports S (g (f x).2) (f x).1)
    (hRS : ∀ id s t u rs ss, t.id = s.id → R id s rs t → S id t ss u → T id s (rs ++ ss) u) :
    Reports T (fun y => g (f y).2 (f y).1) x := by
  obtain ⟨rs, hrs, htells⟩ := h
  obtain ⟨ss, hss, htells'⟩ := hg
  exact ⟨rs ++ ss, hrs.bind hss, htells.trans htells' hx hy hRS⟩

/-- What leaves all slots alone tells of each what may be told of a slot that is. -/
theorem unchanged (h : Reports (fun _ => Untouched) f x) (hP : ∀ s, P s [] s) :
    Reports (fun _ => P) f x := by
  refine h.mono fun id s rs t hs => ?_
  obtain ⟨rfl, rfl⟩ := hs
  exact hP _

/-- So does what leaves most slots alone. -/
theorem everywhere {q : SlotId → Prop} [DecidablePred q]
    (h : Reports (fun id s rs t => if q id then P s rs t else Untouched s rs t) f x)
    (hP : ∀ s, P s [] s) : Reports (fun _ => P) f x := by
  refine h.mono fun id s rs t hs => ?_
  split at hs
  · exact hs
  · obtain ⟨rfl, rfl⟩ := hs
    exact hP _

/-- What is done next leaves all slots alone. -/
theorem bind_still {g : α → Exchange σ → Exchange σ × β} (h : Reports R f x) (hx : x.Lawful)
    (hy : (f x).1.Lawful) (hg : Reports (fun _ => Untouched) (g (f x).2) (f x).1) :
    Reports R (fun y => g (f y).2 (f y).1) x := by
  refine h.bind hx hy hg fun id s t u rs ss _ hR hs => ?_
  obtain ⟨rfl, rfl⟩ := hs
  rwa [List.append_nil]

/-- What is done first leaves all slots alone. -/
theorem still_bind {g : α → Exchange σ → Exchange σ × β} (h : Reports (fun _ => Untouched) f x)
    (hx : x.Lawful) (hy : (f x).1.Lawful) (hg : Reports R (g (f x).2) (f x).1) :
    Reports R (fun y => g (f y).2 (f y).1) x := by
  refine h.bind hx hy hg fun id s t u rs ss _ hs hR => ?_
  obtain ⟨rfl, rfl⟩ := hs
  exact hR

/-- Nothing is handed in where slots stay as they are. -/
theorem still (h : HandsIn f x []) (hslots : (f x).1.slots = x.slots) :
    Reports (fun _ => Untouched) f x :=
  ⟨[], h, .of_slots hslots fun _ _ => ⟨rfl, rfl⟩⟩

/-- Work on a slot reports what it tells of its slot. -/
theorem atSlot (hx : x.Lawful) (id : SlotId) {F : Exchange σ → Station σ → Station σ × α}
    {G : Slot σ → Work σ × α}
    (hF : ∀ (b : Annex) (s : Slot σ), F (x.beside b) ⟨s, x.ledger.beside b⟩ =
      ((G s).1.on (x.ledger.beside b), (G s).2))
    (hG : ∀ s : Slot σ, Station.Lawful ⟨s, x.ledger⟩ → P s (G s).1.records (G s).1.slot)
    (howner : ∀ s rs t, P s rs t → ∀ r ∈ rs, r.slot = s.id) :
    Reports (fun j s rs t => if j = id then P s rs t else Untouched s rs t)
      (fun y => y.atSlot id (F y)) x := by
  cases hslot : x.slots[id]? with
  | none =>
      refine ⟨[], fun b hb => ⟨b, ?_, hb.taken⟩, ?_⟩
      · have hbeside : (x.beside b).slots[id]? = none := hslot
        dsimp only
        rw [atSlot_of_none hslot, atSlot_of_none hbeside]
      · dsimp only
        rw [atSlot_of_none hslot]
        refine ⟨rfl, fun j s hs => ⟨s, hs, ?_⟩, fun _ hr => nomatch hr⟩
        rw [if_neg fun hj => nomatch (hj ▸ hs).symm.trans hslot]
        exact ⟨rfl, rfl⟩
  | some slot =>
      have hP := hG slot (hx.station hslot)
      have hhere : F x ⟨slot, x.ledger⟩ = ((G slot).1.on x.ledger, (G slot).2) :=
        hF x.ledger.annex slot
      refine ⟨(G slot).1.records, .atSlot hslot (fun b => hF b slot) hhere, ?_⟩
      exact .atSlot hslot (hx.numbered id slot hslot) (by rw [hhere]; rfl) hP (howner _ _ _ hP)

end Reports

/-! ## events -/

/-- An event reports what it tells of its slot. -/
theorem reports_post (hx : x.Lawful) (id : SlotId) (e : Event)
    {P : Slot σ → List CallRecord → Slot σ → Prop}
    (hP : ∀ s : Slot σ, Station.Lawful ⟨s, x.ledger⟩ →
      P s (Work.post x.office e s).1.records (Work.post x.office e s).1.slot)
    (howner : ∀ s rs t, P s rs t → ∀ r ∈ rs, r.slot = s.id) :
    Reports (fun j s rs t => if j = id then P s rs t else Untouched s rs t)
      (fun y => y.post id e) x := by
  refine (Reports.atSlot hx id (F := fun y => Station.post y.office e)
    (fun b s => (Station.Answers.post x.office e).eq _) hP howner).map
    (fun a => match a with
      | some outcome => .ok outcome
      | none => .error (.unknownSlot id)) fun y => ?_
  unfold post
  generalize y.atSlot id (Station.post y.office e) = worked
  obtain ⟨z, outcome⟩ := worked
  cases outcome <;> rfl

/-- An event tells a tale. -/
theorem reports_post_tale (hx : x.Lawful) (id : SlotId) (e : Event) :
    Reports (fun _ s => s.Tale (some e)) (fun y => y.post id e) x := by
  have hpost := reports_post hx id e (fun s hs => Work.tale_post hs x.office e)
    fun s rs t h => h.slot_eq
  exact hpost.everywhere fun s => .served (.refl _ s)

/-- An event that serves a slot is reported as such. -/
theorem reports_post_served (hx : x.Lawful) (id : SlotId) {e : Event}
    (he : e = .enable ∨ e = .disable ∨ e = .shutdown) :
    Reports (fun _ s => s.Served (some e)) (fun y => y.post id e) x := by
  have hpost := reports_post hx id e (P := fun s => s.Served (some e))
    (fun s hs => Work.served_post hs x.office he) fun s rs t h => (Slot.Tale.served h).slot_eq
  exact hpost.everywhere (.refl _)

/-- So is one that is posted to many slots. -/
theorem reports_postAll (hx : x.Lawful) {e : Event}
    (he : e = .enable ∨ e = .disable ∨ e = .shutdown) (ids : List SlotId) :
    Reports (fun _ s => s.Served (some e)) (fun y => (y.postAll e ids, ())) x := by
  induction ids generalizing x with
  | nil => exact (Reports.still (.pure () x) rfl).unchanged (.refl _)
  | cons id rest ih =>
      exact (reports_post_served hx id he).bind (g := fun _ y => (y.postAll e rest, ())) hx
        (hx.post id e) (ih (hx.post id e)) fun id s t u rs ss hid h h' => h.trans h' hid

/-- The first refusal among slots that an event is posted to, after one more has answered. -/
def refusalAfter (id : SlotId) (e : Event) (refused : Option Error)
    (outcome : Except Error Outcome) (y : Exchange σ) : Option Error :=
  refused.or (match outcome with
    | .ok .rejected =>
      some (Error.rejected id e.text (((y.slots[id]?).map (·.state)).getD .offline))
    | _ => none)

/-- And so is one that is posted up to the first slot that refuses it. -/
theorem reports_postEach (hx : x.Lawful) {e : Event}
    (he : e = .enable ∨ e = .disable ∨ e = .shutdown) (ids : List SlotId)
    (refused : Option Error) :
    Reports (fun _ s => s.Served (some e)) (fun y => postEach e ids (y, refused)) x := by
  induction ids generalizing x refused with
  | nil => exact (Reports.still (.pure refused x) rfl).unchanged (.refl _)
  | cons id rest ih =>
      have hrest : Reports (fun _ s => s.Served (some e))
          (fun y => postEach e rest (y, refusalAfter id e refused (x.post id e).2 y))
          (x.post id e).1 :=
        (ih (hx.post id e) (refusalAfter id e refused (x.post id e).2 (x.post id e).1)).congr
          fun _ => rfl
      exact (reports_post_served hx id he).bind
        (g := fun outcome y => postEach e rest (y, refusalAfter id e refused outcome y)) hx
        (hx.post id e) hrest fun id s t u rs ss hid h h' => h.trans h' hid

/-- What comes of an event for a segment, if one of its slots may have refused it. -/
def segmentAnswer (kind : SegmentKind) (name : String) (refused : Option Error)
    (y : Exchange σ) : Exchange σ × Except Error Unit :=
  match refused with
  | none => (y, .ok ())
  | some error => ({ y with ledger := y.ledger.note (.refused kind name error) }, .error error)

/-- The answer for a segment reports nothing. -/
theorem reports_segmentAnswer (kind : SegmentKind) (name : String) (refused : Option Error)
    (y : Exchange σ) : Reports (fun _ => Untouched) (segmentAnswer kind name refused) y := by
  cases refused with
  | none => exact .still (.pure _ y) rfl
  | some error => exact .still (.notes [.refused kind name error] _ y) rfl

/-- A segment that is found is told slot by slot, and its answer follows. -/
theorem postSegment_of_some {kind : SegmentKind} {name : String} {s : Segment} (e : Event)
    (hs : x.ledger.segments.find? kind name = some s) : x.postSegment kind name e =
      segmentAnswer kind name (postEach e s.slots (x, none)).2
        (postEach e s.slots (x, none)).1 := by
  unfold postSegment
  rw [hs]
  dsimp only
  generalize postEach e s.slots (x, none) = posted
  obtain ⟨y, refused⟩ := posted
  cases refused <;> rfl

/-- A segment is brought into service or taken out of it. -/
theorem reports_postSegment (hx : x.Lawful) {e : Event}
    (he : e = .enable ∨ e = .disable ∨ e = .shutdown) (kind : SegmentKind) (name : String) :
    Reports (fun _ s => s.Tale (some e)) (fun y => y.postSegment kind name e) x := by
  cases hs : x.ledger.segments.find? kind name with
  | none =>
      have hstill : Reports (fun _ => Untouched) (fun y => y.postSegment kind name e) x := by
        refine (Reports.still (.pure (.error (.unknownSegment name)) x) rfl).congr fun b => ?_
        have hb : (x.beside b).ledger.segments.find? kind name = none := hs
        unfold postSegment
        rw [hb]
      exact hstill.unchanged fun s => .served (.refl _ s)
  | some s =>
      have heach := reports_postEach hx he s.slots none
      have hlawful : (postEach e s.slots (x, none)).1.Lawful :=
        hx.acts (services_postEach e s.slots x none).acts
      have hanswer := heach.bind_still hx hlawful (reports_segmentAnswer kind name _ _)
      have hposted : Reports (fun _ s => s.Served (some e))
          (fun y => y.postSegment kind name e) x :=
        hanswer.congr fun b => postSegment_of_some (x := x.beside b) e hs
      exact hposted.mono fun _ _ _ _ h => .served h

/-! ## timers -/

/-- A timer that runs out is reported by its slot; all others are untouched. -/
theorem reports_expire (hx : x.Lawful) (id : SlotId) (now : Nat) :
    Reports (fun j s rs t =>
        if j = id then s.Tale (some .timeout) rs t else Untouched s rs t)
      (fun y => y.expire id now) x := by
  refine (Reports.atSlot hx id (F := fun y => Station.expire y.office now)
    (fun b s => (Station.Answers.expire x.office now).eq _)
    (fun s hs => Work.tale_expire hs x.office now) fun s rs t h => h.slot_eq).map Option.join
    fun y => ?_
  rfl

/-- The number of slots that were told, after one more was looked at. -/
def toldAfter (n : Nat) (outcome : Option Outcome) : Nat := if outcome.isSome then n + 1 else n

/-- Whether work is broken off does not depend on the annex, so that it is known
beforehand how the look goes on. -/
theorem expireEach_cons_beside (x : Exchange σ) (now : Nat) (id : SlotId) (rest : List SlotId)
    (n : Nat) (b : Annex) : expireEach now (id :: rest) (x.beside b, n) =
      if x.breaksOff id (Station.expire x.office now) then
        (((x.beside b).expire id now).1, toldAfter n ((x.beside b).expire id now).2)
      else expireEach now rest
        (((x.beside b).expire id now).1, toldAfter n ((x.beside b).expire id now).2) := by
  rw [expireEach]
  dsimp only
  rw [show (x.beside b).breaksOff id (Station.expire (x.beside b).office now) =
    x.breaksOff id (Station.expire x.office now) from
      breaksOff_congr (Station.Answers.expire x.office now) rfl]
  rfl

/-- Each timer is looked at once at most. -/
theorem reports_expireEach (hx : x.Lawful) (now : Nat) {ids : List SlotId} (hn : ids.Nodup)
    (n : Nat) :
    Reports (fun j s rs t =>
        if j ∈ ids then s.Tale (some .timeout) rs t else Untouched s rs t)
      (fun y => expireEach now ids (y, n)) x := by
  induction ids generalizing x n with
  | nil => exact (Reports.still (.pure n x) rfl).mono fun _ _ _ _ h => h
  | cons id rest ih =>
      obtain ⟨hid, hrest⟩ := List.nodup_cons.mp hn
      have hlawful : (x.expire id now).1.Lawful := hx.act (.expire x id now)
      have hexpire := reports_expire hx id now
      cases hbreaks : x.breaksOff id (Station.expire x.office now) with
      | true =>
          have hlast := hexpire.map (g := fun y => ((y.expire id now).1,
            toldAfter n (y.expire id now).2)) (toldAfter n) fun _ => rfl
          refine (hlast.mono fun j s rs t h => ?_).congr fun b => ?_
          · by_cases hj : j ∈ id :: rest
            · rw [if_pos hj]
              split at h
              · exact h
              · obtain ⟨rfl, rfl⟩ := h
                exact .served (.refl _ _)
            · rw [if_neg hj]
              rwa [if_neg (List.ne_of_not_mem_cons hj)] at h
          · rw [expireEach_cons_beside, hbreaks, if_pos rfl]
      | false =>
          have hboth := hexpire.bind (g := fun outcome y =>
            expireEach now rest (y, toldAfter n outcome)) (T := fun j s rs t =>
              if j ∈ id :: rest then s.Tale (some .timeout) rs t else Untouched s rs t)
            hx hlawful (ih hlawful hrest _) fun j s t u rs ss hj h h' => ?_
          · refine hboth.congr fun b => ?_
            rw [expireEach_cons_beside, hbreaks, if_neg Bool.false_ne_true]
          · by_cases hfirst : j = id
            · subst hfirst
              rw [if_pos rfl] at h
              rw [if_neg hid] at h'
              obtain ⟨rfl, rfl⟩ := h'
              rw [if_pos List.mem_cons_self, List.append_nil]
              exact h
            · rw [if_neg hfirst] at h
              obtain ⟨rfl, rfl⟩ := h
              simpa [hfirst] using h'

/-- Timers that are due are reported by their slots. -/
theorem reports_expireDue (hx : x.Lawful) (now : Nat) :
    Reports (fun _ s => s.Tale (some .timeout)) (fun y => y.expireDue now) x := by
  have heach := reports_expireEach hx now (show x.slotIds.Nodup from List.nodup_range) 0
  exact (heach.congr fun b => rfl).everywhere fun s => .served (.refl _ s)

/-! ## clients -/

/-- The idle list does not look at what is beside the ledger. -/
theorem takeIdle_beside (x : Exchange σ) (b : Annex) (members : Option (List SlotId))
    (group : String) : (x.beside b).takeIdle members group =
      ((x.takeIdle members group).1.beside b, (x.takeIdle members group).2) := by
  have hsame : (x.beside b).ledger.idle.take members (x.beside b).config.policy =
    x.ledger.idle.take members x.config.policy := rfl
  unfold takeIdle
  rw [hsame]
  generalize x.ledger.idle.take members x.config.policy = taken
  obtain ⟨idle, found⟩ := taken
  cases found <;> rfl

/-- Nor does a reservation. -/
theorem reserve_beside (x : Exchange σ) (b : Annex) (s : Segment) :
    (x.beside b).reserve s = ((x.reserve s).1.beside b, (x.reserve s).2) := by
  have hsame : (x.beside b).limitReached? s = x.limitReached? s := rfl
  unfold reserve
  rw [hsame, takeIdle_beside]
  cases x.limitReached? s with
  | some limit => rfl
  | none =>
      generalize x.takeIdle (some s.slots) s.name = taken
      obtain ⟨y, answer⟩ := taken
      cases answer <;> rfl

/-- Requests hand in nothing. -/
theorem reports_request (x : Exchange σ) (group : Option String) :
    Reports (fun _ => Untouched) (fun y => y.request group) x := by
  have hcases := requested x group
  refine .still (fun b hb => ⟨b, ?_, hb.taken⟩) ?_
  · unfold request
    cases group with
    | none => exact takeIdle_beside x b none anyGroup
    | some name =>
        have hsame : (x.beside b).ledger.segments.group? name = x.ledger.segments.group? name := rfl
        dsimp only
        rw [hsame]
        cases x.ledger.segments.group? name with
        | none => rfl
        | some s => exact reserve_beside x b s
  · generalize x.request group = answered at hcases ⊢
    cases hcases <;> rfl

/-- To give a slot back reports nothing. -/
theorem reports_restore (x : Exchange σ) (id : SlotId) :
    Reports (fun _ => Untouched) (fun y => y.restore id) x := by
  unfold restore
  cases hslot : x.slots[id]? with
  | none =>
      refine .still (fun b hb => ⟨b, ?_, hb.taken⟩) (by rw [atSlot_of_none hslot])
      have hbeside : (x.beside b).slots[id]? = none := hslot
      dsimp only
      rw [atSlot_of_none hslot, atSlot_of_none hbeside]
  | some slot =>
      have hset : x.slots.set id slot = x.slots := set_of_getElem? hslot
      refine .still (fun b hb => ⟨b, ?_, hb.taken⟩) ?_
      · have hbeside : (x.beside b).slots[id]? = some slot := hslot
        dsimp only
        rw [atSlot_of_getElem? hslot, atSlot_of_getElem? hbeside]
        dsimp only
        split <;> rfl
      · rw [atSlot_of_getElem? hslot]
        dsimp only
        split <;> exact hset

/-- To select a script reports nothing. -/
theorem reports_selectScript (x : Exchange σ) (group : Option String) (event : String) :
    Reports (fun _ => Untouched) (fun y => y.selectScript group event) x := by
  have hscheduled : ∀ b, (x.beside b).scheduled? group event = x.scheduled? group event :=
    fun _ => rfl
  have hfound : ∀ b script, (x.beside b).office.scripts.image.indexOf? script =
    x.office.scripts.image.indexOf? script := fun _ _ => rfl
  unfold selectScript
  dsimp only
  cases hs : x.scheduled? group event with
  | none =>
      refine .still (fun b hb => ⟨b, ?_, hb.taken⟩) (by rw [hs])
      rw [hscheduled, hs]
      rfl
  | some script =>
      by_cases hi : (x.office.scripts.image.indexOf? script).isSome = true
      · refine .still (fun b hb => ⟨b, ?_, hb.taken⟩) (by simp only [hs, hi, if_true])
        simp only [hscheduled, hs, hfound, hi, if_true]
      · refine .still (fun b hb =>
          ⟨{ b with journal := b.journal ++ [.scheduleMissed script] }, ?_, hb.taken⟩) ?_
        · simp only [hscheduled, hs, hfound, hi]
          rfl
        · simp only [hs, hi, Bool.false_eq_true, if_false]

/-- Choosing a script does no more than send a message. -/
theorem reports_chooseScript (x : Exchange σ) (group : Option String) (id : SlotId)
    (setup : CallSetup) :
    Reports (fun _ => Untouched) (fun y => y.chooseScript group id setup) x := by
  unfold chooseScript
  cases setup.script with
  | some script => exact .still (.pure setup x) rfl
  | none =>
      let event := setup.event.getD defaultEvent
      let chooser := group.or ((x.ledger.segments.groupOf? id).map (·.name))
      let named (script : String) : CallSetup := { setup with script := some script }
      exact ((reports_selectScript x chooser event).map named
        (g := fun y => ((y.selectScript chooser event).1, named (y.selectScript chooser event).2))
        fun y => rfl).congr fun b => rfl

/-- A call that is given to a slot is reported by it. -/
theorem reports_allocate (hx : x.Lawful) (id : SlotId) (setup : CallSetup) (e : Option Event) :
    Reports (fun _ s => s.Tale e) (fun y => y.allocate id setup) x := by
  have hallocate := Reports.atSlot hx id (F := fun y => Station.allocate y.office setup)
    (G := Work.allocate x.office setup x.ledger.identities)
    (fun b s => Station.allocate_eq x.office setup _)
    (fun s hs => Work.tale_allocate hs x.office setup _ e) fun s rs t h => h.slot_eq
  exact hallocate.everywhere fun s => .served (.refl _ s)

/-- What comes of a slot's answer to a call that is to begin on it. -/
def startAnswer (id : SlotId) (answer : Option (Except Error Nat)) (y : Exchange σ) :
    Exchange σ × Except Error SlotId :=
  match answer with
  | some (.ok _) => (y, .ok id)
  | some (.error e) => ((y.restore id).1, .error e)
  | none => (y, .error (.unknownSlot id))

/-- The answer for a call reports nothing. -/
theorem reports_startAnswer (id : SlotId) (answer : Option (Except Error Nat)) (y : Exchange σ) :
    Reports (fun _ => Untouched) (startAnswer id answer) y := by
  cases answer with
  | none => exact .still (.pure _ y) rfl
  | some answer =>
      cases answer with
      | ok n => exact .still (.pure _ y) rfl
      | error e => exact (reports_restore y id).map (fun _ => .error e) fun _ => rfl

/-- A call is to begin on a slot. -/
def startOn (id : SlotId) (setup : CallSetup) (y : Exchange σ) :
    Exchange σ × Except Error SlotId :=
  startAnswer id (y.allocate id setup).2 (y.allocate id setup).1

/-- A call that starts on a slot is reported by it. -/
theorem reports_startOn (hx : x.Lawful) (id : SlotId) (setup : CallSetup) (e : Option Event) :
    Reports (fun _ s => s.Tale e) (startOn id setup) x :=
  (reports_allocate hx id setup e).bind_still (g := startAnswer id) hx
    (hx.act (.allocate x id setup)) (reports_startAnswer id _ _)

/-- A call is to begin on the slot that was handed out for it, if one was. -/
def startWith (group : Option String) (setup : CallSetup) (handed : Except Error SlotId)
    (y : Exchange σ) : Exchange σ × Except Error SlotId :=
  match handed with
  | .error e => (y, .error e)
  | .ok id => startOn id (y.chooseScript group id setup).2 (y.chooseScript group id setup).1

/-- A call that starts is reported by its slot, if it has got one. -/
theorem reports_startWith (hx : x.Lawful) (group : Option String) (setup : CallSetup)
    (handed : Except Error SlotId) (e : Option Event) :
    Reports (fun _ s => s.Tale e) (startWith group setup handed) x := by
  cases handed with
  | error error =>
      exact (Reports.still (.pure _ x) rfl).unchanged fun s => .served (.refl _ s)
  | ok id =>
      have hchosen := hx.act (.elsewhere (elsewhere_chooseScript x group id setup))
      exact (reports_chooseScript x group id setup).still_bind (g := startOn id) hx hchosen
        (reports_startOn hchosen id _ e)

/-- To start a call is to request a slot, and to go on with what was handed. -/
theorem startCall_eq (x : Exchange σ) (group : Option String) (setup : CallSetup) :
    x.startCall group setup =
      startWith group setup (x.request group).2 (x.request group).1 := by
  unfold startCall
  generalize x.request group = requested
  obtain ⟨y, handed⟩ := requested
  cases handed with
  | error error => rfl
  | ok id =>
      dsimp only [startWith]
      generalize y.chooseScript group id setup = chosen
      obtain ⟨z, setup⟩ := chosen
      dsimp only [startOn]
      generalize z.allocate id setup = allocated
      obtain ⟨w, answer⟩ := allocated
      cases answer with
      | none => rfl
      | some answer => cases answer <;> rfl

/-- A call that is to begin tells of its slot. -/
theorem reports_startCall (hx : x.Lawful) (group : Option String) (setup : CallSetup)
    (e : Option Event) : Reports (fun _ s => s.Tale e) (fun y => y.startCall group setup) x := by
  have hrequest := hx.acts (acts_request x group)
  have hstart := (reports_request x group).still_bind (g := startWith group setup) hx hrequest
    (reports_startWith hrequest group setup _ e)
  exact hstart.congr fun b => startCall_eq _ group setup

/-- What comes of a slot's answer to a release. -/
def releaseAnswer (id : SlotId) (answer : Except Error Outcome) (y : Exchange σ) :
    Exchange σ × Except Error Release :=
  match answer with
  | .ok (.released r) => (y, .ok r)
  | .error e => (y, .error e)
  | .ok _ =>
    (y, .error (.rejected id Event.release.text (((y.slots[id]?).map (·.state)).getD .offline)))

/-- The answer of a release reports nothing. -/
theorem reports_releaseAnswer (id : SlotId) (answer : Except Error Outcome) (y : Exchange σ) :
    Reports (fun _ => Untouched) (releaseAnswer id answer) y := by
  rcases answer with e | outcome
  · exact .still (.pure _ y) rfl
  · cases outcome with
    | released r => exact .still (.pure _ y) rfl
    | handled | rejected =>
        exact (Reports.still (.pure (.error (.rejected id Event.release.text
          (((y.slots[id]?).map (·.state)).getD .offline))) y) rfl).congr fun _ => rfl

/-- To release is to post the event, and to answer. -/
theorem release_eq (x : Exchange σ) (id : SlotId) :
    x.release id = releaseAnswer id (x.post id .release).2 (x.post id .release).1 := by
  unfold release
  generalize x.post id .release = posted
  obtain ⟨y, answer⟩ := posted
  rcases answer with e | outcome
  · rfl
  · cases outcome <;> rfl

/-- A release is reported by its slot. -/
theorem reports_release (hx : x.Lawful) (id : SlotId) :
    Reports (fun _ s => s.Tale (some .release)) (fun y => y.release id) x := by
  have hpost := (reports_post_tale hx id .release).bind_still (g := releaseAnswer id) hx
    (hx.post id .release) (reports_releaseAnswer id _ _)
  exact hpost.congr fun b => release_eq _ id

/-! ## scripts -/

/-- To load scripts reports nothing. -/
theorem reports_reload (x : Exchange σ) :
    Reports (fun _ => Untouched) (fun y => y.reload) x := by
  have hsame : ∀ b, LoadedScripts.load (x.beside b).commands (x.beside b).source
      (x.beside b).directory ((x.beside b).generation + 1) =
    LoadedScripts.load x.commands x.source x.directory (x.generation + 1) := fun _ => rfl
  cases hload : LoadedScripts.load x.commands x.source x.directory (x.generation + 1) with
  | ok scripts =>
      refine .still (fun b hb => ⟨b, ?_, hb.taken⟩) ?_
      · simp only [reload, hsame, hload]
        rfl
      · simp only [reload, hload]
  | error error =>
      refine .still (fun b hb => ⟨{ b with journal := b.journal ++
        (diagnosticNotices error ++ [.reloadFailed x.generation error]) }, ?_, hb.taken⟩) ?_
      · simp only [reload, hsame, hload]
        rfl
      · simp only [reload, hload]

/-! ## operations -/

/-- The event that an operation posts to slots. -/
def Operation.event? : Operation → Option Event
  | .post _ e => some e
  | .release _ => some .release
  | .suspend _ _ => some .disable
  | .resume _ _ => some .enable
  | .expire _ _ | .expireDue _ => some .timeout
  | .shutdown => some .shutdown
  | .request _ | .restore _ | .startCall _ _ | .allocate _ _ | .reload | .newPeriod => none

/-- Every operation tells a tale of each slot, with the records that it hands in. -/
theorem reports_perform (hx : x.Lawful) (op : Operation) :
    Reports (fun _ s => s.Tale op.event?) (fun y => (y.perform op, ())) x := by
  have hquiet : ∀ s : Slot σ, s.Tale op.event? [] s := fun s => .served (.refl _ s)
  cases op with
  | request group =>
      exact ((reports_request x group).unchanged hquiet).map (fun _ => ()) fun _ => rfl
  | restore id => exact ((reports_restore x id).unchanged hquiet).map (fun _ => ()) fun _ => rfl
  | startCall group setup =>
      exact (reports_startCall hx group setup _).map (fun _ => ()) fun _ => rfl
  | allocate id setup => exact (reports_allocate hx id setup _).map (fun _ => ()) fun _ => rfl
  | post id e => exact (reports_post_tale hx id e).map (fun _ => ()) fun _ => rfl
  | release id => exact (reports_release hx id).map (fun _ => ()) fun _ => rfl
  | suspend kind name =>
      exact (reports_postSegment hx (.inr (.inl rfl)) kind name).map (fun _ => ()) fun _ => rfl
  | resume kind name =>
      exact (reports_postSegment hx (.inl rfl) kind name).map (fun _ => ()) fun _ => rfl
  | reload => exact ((reports_reload x).unchanged hquiet).map (fun _ => ()) fun _ => rfl
  | expire id now =>
      exact ((reports_expire hx id now).everywhere hquiet).map (fun _ => ()) fun _ => rfl
  | expireDue now => exact (reports_expireDue hx now).map (fun _ => ()) fun _ => rfl
  | newPeriod => exact Reports.unchanged (.still (fun b hb => ⟨b, rfl, hb.taken⟩) rfl) hquiet
  | shutdown =>
      exact ((reports_postAll hx (.inr (.inr rfl)) x.slotIds).congr fun b => rfl).mono
        fun _ _ _ _ h => .served h

end Exchange

end Switchboard
