import Switchboard.Proofs.Exchange.GroupLimit
import Switchboard.Proofs.Exchange.NextCall
import Switchboard.Proofs.Exchange.Shutdown
import Switchboard.Proofs.Interpreter.Invocation

/-!
# Switchboard.Proofs.Exchange.Refusal

Calls that are refused.

1. On a free slot of an exchange that can be reached, a call begins unless its script is
   missing or the symbols it begins with find no room (`Office.hurdle?`).  What is left of
   the attempt is no more than a number used up (`Work.allocate_idle`).
2. A request takes one listed slot out (`HandedOut`).  So a call that is asked for is
   refused with the request, or turned down by its slot, or begins (`Attempted`), and
   turned down it leaves everything as it was, but for what `Traceless` names.
3. Calls that are asked for later find the same slots (`Traceless.available`), and fare as
   they would have before (`Traceless.request`, `Traceless.startCall`):
   `refused_call_leaves_no_trace`.
-/

namespace Switchboard

variable {σ : Type}

/-! ## symbols that a call begins with -/

/-- Symbols of the whole call are given as those of a header are. -/
theorem Symbols.assign_none (s : Symbols) (name value : String) :
    s.assign none name value = s.assignScoped none name value := by
  unfold Symbols.assign Symbols.assignScoped Symbols.owner
  rw [ite_self]

namespace Station

/-- An interpreter gets its first symbols as a header gets its arguments. -/
theorem seed_as_arguments (i : Interpreter) (pairs : List (String × String)) :
    (∃ j, i.bindArguments none pairs = .next j ∧ seed i pairs = .ok j) ∨
      ∃ fault j, i.bindArguments none pairs = .fault fault j ∧ seed i pairs = .error fault := by
  induction pairs generalizing i with
  | nil => exact .inl ⟨i, rfl, rfl⟩
  | cons pair rest ih =>
      obtain ⟨name, value⟩ := pair
      simp only [seed, Interpreter.bindArguments, Interpreter.setSymbol, Symbols.assign_none]
      cases i.symbols.assignScoped none name value with
      | error fault => exact .inr ⟨fault, i, rfl, rfl⟩
      | ok symbols => exact ih { i with symbols }

/-- The number of symbols that a call begins with. -/
def seedCount : Nat := 6

/-- Without other symbols, those that a call begins with fit if there may be as many. -/
theorem fits_seeds {s : Symbols} (hblank : s.entries = []) (id : SlotId) (c : Call) :
    s.Fits none (seeds id c) ↔ seedCount ≤ s.limit := by
  have hundeclared (name : String) : s.declared? none name = none := by
    simp [Symbols.declared?, hblank]
  have hmissing : s.missing none (seeds id c) =
      {"cid", "source", "target", "script", "sequence", "slot"} := by
    simp [Symbols.missing, hundeclared, seeds]
  have hcard : (s.missing none (seeds id c)).card = seedCount := by
    rw [hmissing]
    decide
  have hsomeMissing : s.missing none (seeds id c) ≠ ∅ := by
    rw [Ne, ← Finset.card_eq_zero, hcard]
    decide
  unfold Symbols.Fits
  rw [hcard, Symbols.size, hblank, List.length_nil, Nat.zero_add]
  exact or_iff_right hsomeMissing

/-- An interpreter without symbols gets those that a call begins with, or the fault is that
there may not be as many. -/
theorem seed_blank {i : Interpreter} (hblank : i.symbols.entries = []) (id : SlotId) (c : Call) :
    (seedCount ≤ i.symbols.limit ∧ ∃ j, seed i (seeds id c) = .ok j) ∨
      (i.symbols.limit < seedCount ∧
        seed i (seeds id c) = .error (.symbolSpaceExhausted i.symbols.limit)) := by
  rcases i.bindArguments_spec none (seeds id c) with
    ⟨hfits, symbols, hbound, -⟩ | ⟨hunfit, -, -, -, -, symbols, -, hbound, -⟩
  · refine .inl ⟨(fits_seeds hblank id c).1 hfits, ?_⟩
    rcases seed_as_arguments i (seeds id c) with ⟨j, -, hseeded⟩ | ⟨fault, j, hfailed, -⟩
    · exact ⟨j, hseeded⟩
    · rw [hfailed] at hbound
      contradiction
  · refine .inr ⟨Nat.lt_of_not_le fun hroom => hunfit ((fits_seeds hblank id c).2 hroom), ?_⟩
    rcases seed_as_arguments i (seeds id c) with ⟨j, hgiven, -⟩ | ⟨fault, j, hfailed, hseeded⟩
    · rw [hgiven] at hbound
      contradiction
    · rw [hfailed] at hbound
      obtain ⟨rfl, -⟩ := Interpreter.Outcome.fault.inj hbound
      exact hseeded

end Station

/-! ## what stands in the way of a call -/

/-- A new interpreter begins a script that can be found, without a symbol; let go of it, it
is new again. -/
theorem Interpreter.attach_new (limits : Limits) (image : Image) (entry : String) :
    (image.indexOf? entry = none ∧
      (new limits).attach image (some entry) = (new limits, false)) ∨
      ∃ i s, image.indexOf? entry = some i ∧
        (new limits).attach image (some entry) = (s, true) ∧
        s.symbols = .empty limits.maxSymbols limits.symbolSize ∧ s.detach = new limits := by
  unfold attach
  rw [Option.getD_some]
  cases image.indexOf? entry with
  | none => exact .inl ⟨rfl, rfl⟩
  | some i => exact .inr ⟨i, _, rfl, rfl, rfl, rfl⟩

/-- Why a call whose script begins at `entry` cannot begin on a free slot, if so. -/
def Office.hurdle? (o : Office σ) (entry : String) : Option Error :=
  if o.scripts.image.indexOf? entry = none then some (.scriptNotFound entry)
  else if o.engine.maxSymbols < Station.seedCount then
    some (.script (.symbolSpaceExhausted o.engine.maxSymbols))
  else none

namespace Work

/-- A free slot is as it was once a call was turned down, but for a number that was used up,
and perhaps an identity. -/
inductive TurnedDown (setup : CallSetup) (s : Slot σ) : Work σ → Prop
  | unfound : TurnedDown setup s (rest s)
  | unseeded : TurnedDown setup s
      ⟨{ s with sequence := s.sequence + 1 }, [.identifies setup.cid]⟩

/-- On a free slot a call begins if nothing stands in its way. -/
theorem allocate_idle {o : Office σ} {s : Slot σ} (h : s.Renewed o.engine.limits)
    (hidle : s.state = .idle) (setup : CallSetup) (n : Nat) :
    (o.hurdle? (setup.script.getD o.entry) = none ∧ ∃ k, (allocate o setup n s).2 = .ok k) ∨
      ∃ e, o.hurdle? (setup.script.getD o.entry) = some e ∧ (allocate o setup n s).2 = .error e ∧
        TurnedDown setup s (allocate o setup n s).1 := by
  have hblank : s.interpreter = .new o.engine.limits := h.clear (.inl hidle)
  have hfree : ¬ (s.state != .idle) = true := by simp [hidle]
  unfold allocate accept Office.hurdle?
  rw [if_neg hfree, hblank]
  dsimp only
  rcases Interpreter.attach_new o.engine.limits o.scripts.image (setup.script.getD o.entry) with
    ⟨hmissing, hunfound⟩ | ⟨i, j, hfound, hattached, hsymbols, hdetached⟩
  · rw [hunfound, if_pos hmissing]
    exact .inr ⟨_, rfl, rfl, .unfound⟩
  · have hnone : ¬ o.scripts.image.indexOf? (setup.script.getD o.entry) = none := by simp [hfound]
    have hlimit : j.symbols.limit = o.engine.maxSymbols := by rw [hsymbols]; rfl
    rw [hattached, if_neg hnone, ← hlimit]
    rcases Station.seed_blank (by rw [hsymbols]; rfl) s.id (called o setup n s) with
      ⟨hroom, k, hseeded⟩ | ⟨hfull, hunseeded⟩
    · dsimp only
      rw [hseeded, if_neg (Nat.not_lt.2 hroom)]
      exact .inl ⟨rfl, _, rfl⟩
    · dsimp only
      rw [hunseeded, if_pos hfull]
      refine .inr ⟨_, rfl, rfl, ?_⟩
      dsimp only
      rw [hdetached, ← hblank]
      exact .unseeded

end Work

/-! ## free slots and reservations -/

/-- A slot that was listed, taken off the list and listed again. -/
theorem IdlePool.perm_reinsert {p : IdlePool} {id : SlotId} (hlisted : id ∈ p.slots)
    (hnodup : p.slots.Nodup) : ((p.remove id).1.insert id).1.slots.Perm p.slots := by
  rw [insert_eq_of_not_mem (not_mem_remove hnodup)]
  exact (List.perm_append_singleton id _).trans (List.perm_cons_erase hlisted).symm

/-- A policy chooses none only where there is none. -/
theorem Policy.choose?_eq_none {policy : Policy} {slots : List SlotId} :
    policy.choose? slots = none ↔ slots = [] := by
  cases policy <;> simp [choose?]

theorem Policy.choose?_eq_none_of_perm (policy : Policy) {as bs : List SlotId}
    (h : as.Perm bs) : policy.choose? as = none ↔ policy.choose? bs = none := by
  rw [choose?_eq_none, choose?_eq_none, ← List.length_eq_zero_iff, h.length_eq,
    List.length_eq_zero_iff]

/-- The order matters only where the slot is chosen that has been free for longest. -/
theorem Policy.choose?_eq_of_perm {policy : Policy} {as bs : List SlotId} (h : as.Perm bs)
    (hp : policy ≠ .longestIdle) : policy.choose? as = policy.choose? bs := by
  cases policy with
  | first => exact Option.ext fun i => by simp [choose?, List.min?_eq_some_iff, h.mem_iff]
  | last => exact Option.ext fun i => by simp [choose?, List.max?_eq_some_iff, h.mem_iff]
  | longestIdle => contradiction

/-- A reservation that was made and given up. -/
theorem Reservations.release_insert {r : Reservations} {id : SlotId}
    (h : ¬ r.contains id = true) (group : String) : (r.insert id group).release id = r := by
  have hdropped : (r.insert id group).release id = (r.release id).release id := by
    simp [insert, release]
  rw [hdropped, release_of_not_contains h, release_of_not_contains h]

namespace Exchange

variable {x y z : Exchange σ} {id : SlotId} {group : Option String} {setup : CallSetup}

/-! ## slots that are given out -/

/-- A slot was taken off the list, perhaps for a group, and that is all. -/
structure HandedOut (x : Exchange σ) (id : SlotId) (y : Exchange σ) : Prop where
  listed : x.ledger.Lists id
  rest : y = { x with ledger := { x.ledger with
    idle := (x.ledger.idle.remove id).1
    reservations := y.ledger.reservations } }
  reservations : y.ledger.reservations.release id = x.ledger.reservations

/-- A listed slot is there, free and not reserved. -/
theorem Reach.free_of_listed (h : Reach x) (hlisted : x.ledger.Lists id) :
    ∃ s, x.slots[id]? = some s ∧ s.state = .idle ∧
      s.Renewed x.office.engine.limits ∧ ¬ x.ledger.Reserves id := by
  have hthere : id < x.slots.length := by
    by_contra hmissing
    exact (h.known id (Nat.le_of_not_lt hmissing)).1 hlisted
  have hs : x.slots[id]? = some x.slots[id] := List.getElem?_eq_getElem hthere
  have hnumber : x.slots[id].id = id := h.lawful.numbered id _ hs
  have hlaw := (h.lawful.station hs).law
  dsimp only at hlaw
  rw [hnumber] at hlaw
  have hidle := hlaw.idle_of_listed hlisted
  refine ⟨_, hs, hidle, ?_, fun hreserved => (hlaw.idle hidle).2 ⟨hlisted, hreserved⟩⟩
  rw [h.fresh.engine]
  exact h.fresh.slots _ (List.getElem_mem hthere)

/-- What a request gives out was listed. -/
theorem Reach.handedOut (h : Reach x) (hgiven : (x.request group).2 = .ok id) :
    HandedOut x id (x.request group).1 := by
  have hcases := requested x group
  generalize x.request group = answered at hgiven hcases
  cases hcases with
  | refused e => contradiction
  | taken _ htaken =>
      obtain rfl := Except.ok.inj hgiven
      obtain ⟨hlisted, rfl⟩ := IdlePool.take_eq_some htaken
      obtain ⟨s, -, -, -, hunreserved⟩ := h.free_of_listed hlisted
      exact ⟨hlisted, rfl, Reservations.release_of_not_contains hunreserved⟩
  | reserved _ _ _ htaken =>
      obtain rfl := Except.ok.inj hgiven
      obtain ⟨hlisted, rfl⟩ := IdlePool.take_eq_some htaken
      obtain ⟨s, -, -, -, hunreserved⟩ := h.free_of_listed hlisted
      exact ⟨hlisted, rfl, Reservations.release_insert hunreserved _⟩

/-! ## the script of a call -/

/-- Where the script of a call on a slot is to begin. -/
def entryOf (x : Exchange σ) (group : Option String) (id : SlotId) (setup : CallSetup) : String :=
  (x.chooseScript group id setup).2.script.getD x.office.entry

/-- The script depends on the office and the segments alone. -/
theorem entryOf_congr (ho : y.office = x.office) (hs : y.ledger.segments = x.ledger.segments)
    (group : Option String) (id : SlotId) (setup : CallSetup) :
    y.entryOf group id setup = x.entryOf group id setup := by
  have hnamed : (y.chooseScript group id setup).2 = (x.chooseScript group id setup).2 := by
    unfold chooseScript
    split
    · rfl
    · unfold selectScript scheduled? groupScript?
      rw [ho, hs]
      dsimp only
      split
      · rfl
      · split <;> rfl
  rw [entryOf, hnamed, ho]
  rfl

/-- Where the group or the script is named, the script does not depend on the slot. -/
theorem entryOf_named (x : Exchange σ) {next : Option String} {setup : CallSetup}
    (hnamed : next.isSome ∨ setup.script.isSome) (i j : SlotId) :
    x.entryOf next i setup = x.entryOf next j setup := by
  unfold entryOf chooseScript
  split
  · rfl
  · next hunnamed =>
    obtain ⟨group, rfl⟩ := Option.isSome_iff_exists.1
      (hnamed.resolve_right fun h => by simp [hunnamed] at h)
    rfl

/-- To choose a script is no more than to say, perhaps, that one is missing. -/
theorem chooseScript_spec (x : Exchange σ) (group : Option String) (id : SlotId)
    (setup : CallSetup) : ∃ missed : Option String,
      (x.chooseScript group id setup).1 =
        { x with ledger := x.ledger.notes (missed.map .scheduleMissed).toList } := by
  unfold chooseScript selectScript
  split
  · exact ⟨none, by simp [Ledger.notes]⟩
  · dsimp only
    split
    · exact ⟨none, by simp [Ledger.notes]⟩
    · next script _ =>
      split
      · exact ⟨none, by simp [Ledger.notes]⟩
      · exact ⟨some script, rfl⟩

/-! ## calls that are turned down -/

/-- What is left of a call that was refused: free slots may be listed in another order, one
slot may have used up a number, and an identity and a message may have been made. -/
structure Traceless (x y : Exchange σ) : Prop where
  slots : y.slots = x.slots ∨ ∃ id slot, x.slots[id]? = some slot ∧
    y.slots = x.slots.set id { slot with sequence := slot.sequence + 1 }
  idle : y.ledger.idle.slots.Perm x.ledger.idle.slots
  journal : ∃ missed : Option String,
    y.ledger.journal = x.ledger.journal ++ (missed.map Notice.scheduleMissed).toList
  ledger : y.ledger = { x.ledger with
    idle := y.ledger.idle
    identities := y.ledger.identities
    journal := y.ledger.journal }
  rest : y = { x with slots := y.slots, ledger := y.ledger }

theorem Traceless.refl (x : Exchange σ) : Traceless x x :=
  ⟨.inl rfl, .refl _, ⟨none, by simp⟩, rfl, rfl⟩

/-- What comes of a call that is asked for. -/
inductive Attempted (x : Exchange σ) (group : Option String) (setup : CallSetup) :
    Exchange σ × Except Error SlotId → Prop
  /-- No slot is given out. -/
  | refused {e : Error} : (x.request group).2 = .error e → Attempted x group setup (x, .error e)
  /-- The slot is given back, since something stands in the way of the call. -/
  | turnedDown {id : SlotId} {e : Error} {y : Exchange σ} : (x.request group).2 = .ok id →
      x.office.hurdle? (x.entryOf group id setup) = some e → Traceless x y →
      Attempted x group setup (y, .error e)
  /-- The call begins. -/
  | begun {id : SlotId} (y : Exchange σ) : (x.request group).2 = .ok id →
      x.office.hurdle? (x.entryOf group id setup) = none → Attempted x group setup (y, .ok id)

theorem request_refused {e : Error} (h : (x.request group).2 = .error e) :
    (x.request group).1 = x := by
  have hcases := requested x group
  generalize x.request group = answered at h hcases
  cases hcases with
  | refused => rfl
  | taken | reserved => contradiction

/-- A free slot that is given back is listed, and not reserved. -/
theorem restore_idle {s : Slot σ} (hs : x.slots[id]? = some s) (hidle : s.state = .idle) :
    (x.restore id).1 = { x with ledger := { x.ledger with
      idle := (x.ledger.idle.insert id).1
      reservations := x.ledger.reservations.release id } } := by
  have hfree : ¬ (s.state != .idle) = true := by simp [hidle]
  have hsetSelf : x.slots.set id s = x.slots := set_of_getElem? hs
  unfold restore
  rw [atSlot_of_getElem? hs]
  dsimp only
  rw [if_neg hfree]
  dsimp only
  rw [hsetSelf]

/-- A slot that was given out and is given back. -/
theorem HandedOut.traceless (h : HandedOut x id y) (hnodup : x.ledger.idle.slots.Nodup)
    {s : Slot σ} (hs : z.slots[id]? = some s) (hidle : s.state = .idle)
    (hslots : z.slots = x.slots ∨ ∃ id slot, x.slots[id]? = some slot ∧
      z.slots = x.slots.set id { slot with sequence := slot.sequence + 1 })
    (hjournal : ∃ missed : Option String,
      z.ledger.journal = x.ledger.journal ++ (missed.map Notice.scheduleMissed).toList)
    (hrest' : z = { y with slots := z.slots, ledger := { y.ledger with
      identities := z.ledger.identities
      journal := z.ledger.journal } }) : Traceless x (z.restore id).1 := by
  have hrest := h.rest
  rw [restore_idle hs hidle]
  have hpool : z.ledger.idle = (x.ledger.idle.remove id).1 := by rw [hrest', hrest]
  have hreservations : z.ledger.reservations.release id = x.ledger.reservations := by
    rw [hrest', h.reservations]
  rw [hreservations]
  refine ⟨hslots, ?_, hjournal, ?_, ?_⟩
  · dsimp only
    rw [hpool]
    exact IdlePool.perm_reinsert h.listed hnodup
  · dsimp only
    rw [hrest', hrest]
  · dsimp only
    rw [hrest', hrest]

/-- A slot that was given out is given back, whatever the attempt at a call has left. -/
theorem HandedOut.turnedDown (h : HandedOut x id y) (hnodup : x.ledger.idle.slots.Nodup)
    {missed : Option String}
    (hchosen : z = { y with ledger := y.ledger.notes (missed.map .scheduleMissed).toList })
    {s : Slot σ} (hs : x.slots[id]? = some s) (hidle : s.state = .idle) {w : Work σ}
    (hdown : Work.TurnedDown setup s w) :
    Traceless x (Exchange.restore { z with
      slots := z.slots.set id (w.on z.ledger).slot
      ledger := (w.on z.ledger).ledger } id).1 := by
  have hslots : z.slots = x.slots := by rw [hchosen, h.rest]
  have hjournal : z.ledger.journal =
      x.ledger.journal ++ (missed.map Notice.scheduleMissed).toList := by
    rw [hchosen, h.rest]
    rfl
  have hthere : id < z.slots.length := hslots ▸ (List.getElem?_eq_some_iff.1 hs).1
  cases hdown with
  | unfound =>
      refine h.traceless hnodup (s := s) (List.getElem?_set_self hthere) hidle (.inl ?_)
        ⟨missed, hjournal⟩ (by rw [hchosen]; rfl)
      rw [hslots]
      exact set_of_getElem? hs
  | unseeded =>
      refine h.traceless hnodup (s := { s with sequence := s.sequence + 1 })
        (List.getElem?_set_self hthere) hidle (.inr ⟨id, s, hs, by rw [hslots]; rfl⟩)
        ⟨missed, ?_⟩ ?_
      · rw [← hjournal]
        cases setup.cid <;> rfl
      · rw [hchosen]
        cases setup.cid <;> rfl

theorem Reach.attempted (h : Reach x) (group : Option String) (setup : CallSetup) :
    Attempted x group setup (x.startCall group setup) := by
  unfold startCall
  cases hr : x.request group with
  | mk y answer =>
  cases answer with
  | error e =>
      have hrefused : (x.request group).2 = .error e := by rw [hr]
      obtain rfl : y = x := by rw [← request_refused hrefused, hr]
      exact .refused hrefused
  | ok id =>
      have hgiven : (x.request group).2 = .ok id := by rw [hr]
      have handed : HandedOut x id y := by simpa only [hr] using h.handedOut hgiven
      obtain ⟨s, hs, hidle, hrenewed, -⟩ := h.free_of_listed handed.listed
      have hsame : y.entryOf group id setup = x.entryOf group id setup :=
        entryOf_congr (by rw [handed.rest]) (by rw [handed.rest]) group id setup
      obtain ⟨missed, hchosen⟩ := y.chooseScript_spec group id setup
      rw [entryOf] at hsame
      dsimp only
      generalize y.chooseScript group id setup = choice at hsame hchosen ⊢
      obtain ⟨z, setup'⟩ := choice
      dsimp only at hsame hchosen ⊢
      have hoffice : z.office = x.office := by rw [hchosen, handed.rest]
      have hthere : z.slots[id]? = some s := by rw [hchosen, handed.rest, hs]
      have hentry : setup'.script.getD z.office.entry = x.entryOf group id setup := by
        rw [← hsame, hchosen]
      rw [← hoffice] at hrenewed
      rw [allocate, atSlot_of_getElem? hthere, Station.allocate_eq]
      dsimp only
      rcases Work.allocate_idle hrenewed hidle setup' z.ledger.identities with
        ⟨hclear, k, hok⟩ | ⟨e, hurdle, hfailed, hdown⟩
      · rw [hok]
        exact .begun _ hgiven (by rw [← hentry, ← hoffice]; exact hclear)
      · rw [hfailed]
        exact .turnedDown hgiven (by rw [← hentry, ← hoffice]; exact hurdle)
          (handed.turnedDown h.lawful.nodup hchosen hs hidle hdown)

/-- The answer to a call that is asked for. -/
theorem Reach.startCall_answer (h : Reach x) (group : Option String) (setup : CallSetup) :
    (x.startCall group setup).2 = (x.request group).2.bind fun id =>
      match x.office.hurdle? (x.entryOf group id setup) with
      | some e => .error e
      | none => .ok id := by
  have hcases := h.attempted group setup
  generalize x.startCall group setup = done at hcases
  cases hcases with
  | refused hr =>
      rw [hr]
      rfl
  | turnedDown hr hurdle _ =>
      rw [hr, Except.bind, hurdle]
  | begun y hr hclear =>
      rw [hr, Except.bind, hclear]

/-! ## what can be asked for later -/

/-- The free slots that a request may choose from. -/
def available (x : Exchange σ) : Option String → List SlotId
  | none => x.ledger.idle.candidates none
  | some name => ((x.ledger.segments.group? name).map fun s =>
      x.ledger.idle.candidates (some s.slots)).getD []

/-- Why no slot of a group is given out, whichever are free. -/
def denial? (x : Exchange σ) : Option String → Option Error
  | none => none
  | some name =>
    match x.ledger.segments.group? name with
    | none => some (.unknownSegment name)
    | some s => (x.limitReached? s).map (.groupLimit s.name)

theorem takeIdle_answer (x : Exchange σ) (members : Option (List SlotId)) (group : String) :
    (x.takeIdle members group).2 =
      match x.config.policy.choose? (x.ledger.idle.candidates members) with
      | none => .error (.noFreeSlot group)
      | some id => .ok id := by
  unfold takeIdle IdlePool.take
  cases x.config.policy.choose? (x.ledger.idle.candidates members) <;> rfl

theorem reserve_answer (x : Exchange σ) (s : Segment) :
    (x.reserve s).2 =
      match x.limitReached? s with
      | some limit => .error (.groupLimit s.name limit)
      | none => (x.takeIdle (some s.slots) s.name).2 := by
  unfold reserve
  cases x.limitReached? s with
  | some limit => rfl
  | none =>
      generalize x.takeIdle (some s.slots) s.name = taken
      obtain ⟨y, answer⟩ := taken
      cases answer <;> rfl

/-- The answer to a request. -/
theorem request_answer (x : Exchange σ) (group : Option String) :
    (x.request group).2 =
      match x.denial? group with
      | some e => .error e
      | none =>
        match x.config.policy.choose? (x.available group) with
        | none => .error (.noFreeSlot (group.getD anyGroup))
        | some id => .ok id := by
  cases group with
  | none => exact x.takeIdle_answer none anyGroup
  | some name =>
      unfold request denial? available
      dsimp only
      cases hs : x.ledger.segments.group? name with
      | none => rfl
      | some s =>
          have hname : s.name = name := by
            have hfound := List.find?_some hs
            simp only [Bool.and_eq_true, beq_iff_eq] at hfound
            exact hfound.2
          dsimp only
          rw [reserve_answer, takeIdle_answer, hname]
          cases x.limitReached? s <;> rfl

/-- What a request gives out was available. -/
theorem mem_available (hgiven : (x.request group).2 = .ok id) : id ∈ x.available group := by
  rw [request_answer] at hgiven
  split at hgiven
  · contradiction
  · split at hgiven
    · contradiction
    · next hchosen =>
      obtain rfl := Except.ok.inj hgiven
      exact IdlePool.mem_of_choose? hchosen

/-- Why a call is refused: there is no such group, it has reached its limit, no slot is
available, the script is missing, or its first symbols find no room. -/
inductive Cause (x : Exchange σ) (group : Option String) (setup : CallSetup) : Error → Prop
  | unknownGroup {name : String} : group = some name → x.ledger.segments.group? name = none →
      Cause x group setup (.unknownSegment name)
  | groupLimit {name : String} {s : Segment} {limit : Nat} : group = some name →
      x.ledger.segments.group? name = some s → x.limitReached? s = some limit →
      Cause x group setup (.groupLimit s.name limit)
  | noFreeSlot : x.available group = [] →
      Cause x group setup (.noFreeSlot (group.getD anyGroup))
  | missingEntry {id : SlotId} : id ∈ x.available group →
      x.office.scripts.image.indexOf? (x.entryOf group id setup) = none →
      Cause x group setup (.scriptNotFound (x.entryOf group id setup))
  | unseeded {id : SlotId} : id ∈ x.available group →
      x.office.engine.maxSymbols < Station.seedCount →
      Cause x group setup (.script (.symbolSpaceExhausted x.office.engine.maxSymbols))

theorem cause_of_denial {e : Error} (h : x.denial? group = some e) (setup : CallSetup) :
    Cause x group setup e := by
  unfold denial? at h
  split at h
  · contradiction
  · next name =>
    split at h
    · next hunknown =>
      obtain rfl := Option.some.inj h
      exact .unknownGroup rfl hunknown
    · next s hs =>
      obtain ⟨limit, hreached, rfl⟩ := Option.map_eq_some_iff.1 h
      exact .groupLimit rfl hs hreached

theorem cause_of_request {e : Error} (h : (x.request group).2 = .error e) (setup : CallSetup) :
    Cause x group setup e := by
  rw [request_answer] at h
  split at h
  · next hdenied =>
    obtain rfl := Except.error.inj h
    exact cause_of_denial hdenied setup
  · split at h
    · next hnoneLeft =>
      obtain rfl := Except.error.inj h
      exact .noFreeSlot (Policy.choose?_eq_none.1 hnoneLeft)
    · contradiction

theorem cause_of_hurdle {e : Error} (hid : id ∈ x.available group)
    (h : x.office.hurdle? (x.entryOf group id setup) = some e) : Cause x group setup e := by
  unfold Office.hurdle? at h
  split at h
  · next hmissing =>
    obtain rfl := Option.some.inj h
    exact .missingEntry hid hmissing
  · split at h
    · next hfull =>
      obtain rfl := Option.some.inj h
      exact .unseeded hid hfull
    · contradiction

/-! ## calls that are asked for later -/

/-- Two answers are the same, but where the slot chosen is the one free for longest it may be
another one. -/
inductive AnsweredAlike (policy : Policy) (a b : Except Error SlotId) : Prop
  | same : a = b → AnsweredAlike policy a b
  | other (i j : SlotId) : policy = .longestIdle → a = .ok i → b = .ok j → AnsweredAlike policy a b

namespace Traceless

theorem policy (h : Traceless x y) : y.config.policy = x.config.policy := by rw [h.rest]

theorem available (h : Traceless x y) (next : Option String) :
    (y.available next).Perm (x.available next) := by
  have hcandidates (members : Option (List SlotId)) :
      (y.ledger.idle.candidates members).Perm (x.ledger.idle.candidates members) := by
    cases members with
    | none => exact h.idle
    | some members => exact h.idle.filter _
  cases next with
  | none => exact hcandidates none
  | some name =>
      unfold Exchange.available
      rw [show y.ledger.segments = x.ledger.segments by rw [h.ledger]]
      dsimp only
      cases x.ledger.segments.group? name with
      | none => exact .refl _
      | some s => exact hcandidates (some s.slots)

theorem denial? (h : Traceless x y) (next : Option String) : y.denial? next = x.denial? next := by
  unfold Exchange.denial? limitReached? reserved
  rw [h.ledger]

/-- A later request is answered alike. -/
theorem request (h : Traceless x y) (next : Option String) :
    AnsweredAlike x.config.policy (y.request next).2 (x.request next).2 := by
  have hperm := h.available next
  rw [request_answer, request_answer, h.denial?, h.policy]
  cases x.denial? next with
  | some e => exact .same rfl
  | none =>
      dsimp only
      by_cases hp : x.config.policy = .longestIdle
      · have hboth := x.config.policy.choose?_eq_none_of_perm hperm
        cases hy : x.config.policy.choose? (y.available next) with
        | none =>
            rw [hboth.1 hy]
            exact .same rfl
        | some i =>
            cases hx : x.config.policy.choose? (x.available next) with
            | none =>
                rw [hboth.2 hx] at hy
                contradiction
            | some j => exact .other i j hp rfl rfl
      · rw [Policy.choose?_eq_of_perm hperm hp]
        exact .same rfl

/-- A later call is answered alike, unless another slot may call for another script. -/
theorem startCall (h : Traceless x y) (hx : Reach x) (hy : Reach y) {next : Option String}
    {setup : CallSetup}
    (hsettled : next.isSome ∨ setup.script.isSome ∨ x.config.policy ≠ .longestIdle) :
    AnsweredAlike x.config.policy (y.startCall next setup).2 (x.startCall next setup).2 := by
  have hoffice : y.office = x.office := by rw [h.rest]
  have hsegments : y.ledger.segments = x.ledger.segments := by rw [h.ledger]
  rw [hx.startCall_answer, hy.startCall_answer, hoffice]
  simp only [entryOf_congr hoffice hsegments]
  rcases h.request next with hsame | ⟨i, j, hp, hi, hj⟩
  · rw [hsame]
    exact .same rfl
  · have hnamed : next.isSome ∨ setup.script.isSome := by
      rcases hsettled with hnamed | hnamed | hother
      · exact .inl hnamed
      · exact .inr hnamed
      · exact absurd hp hother
    rw [hi, hj]
    simp only [Except.bind, x.entryOf_named hnamed i j]
    cases x.office.hurdle? (x.entryOf next j setup) with
    | some e => exact .same rfl
    | none => exact .other i j hp rfl rfl

end Traceless

/-- A call that is refused leaves no trace, in whatever exchange can be reached.  It is
refused because there is no such group, its limit is reached, no slot is available, the
script is missing, or the first symbols find no room.  Then the states, calls and timers of
all slots are as before, and so are the reservations, the index of calls, the counts of all
segments and the records; the same slots are free, if in another order, and one slot may
have used up a number.  So whatever is asked for later finds the same slots: it is answered
as it would have been before, but for the slot that has been free for longest, which may be
another one. -/
theorem refused_call_leaves_no_trace (h : Reach x) {e : Error}
    (hrefused : (x.startCall group setup).2 = .error e) :
    Cause x group setup e ∧ Traceless x (x.startCall group setup).1 ∧
      ∀ next, ((x.startCall group setup).1.available next).Perm (x.available next) ∧
        AnsweredAlike x.config.policy ((x.startCall group setup).1.request next).2
          (x.request next).2 ∧
        ∀ later : CallSetup,
          next.isSome ∨ later.script.isSome ∨ x.config.policy ≠ .longestIdle →
          AnsweredAlike x.config.policy ((x.startCall group setup).1.startCall next later).2
            (x.startCall next later).2 := by
  have hafter : Reach (x.startCall group setup).1 := h.perform (.startCall group setup)
  have hcases := h.attempted group setup
  have hcaused : Cause x group setup e ∧ Traceless x (x.startCall group setup).1 := by
    generalize x.startCall group setup = done at hrefused hcases
    cases hcases with
    | refused hr =>
        obtain rfl := Except.error.inj hrefused
        exact ⟨cause_of_request hr setup, .refl x⟩
    | turnedDown hr hurdle htraceless =>
        obtain rfl := Except.error.inj hrefused
        exact ⟨cause_of_hurdle (mem_available hr) hurdle, htraceless⟩
    | begun => contradiction
  obtain ⟨hcause, htraceless⟩ := hcaused
  exact ⟨hcause, htraceless, fun next => ⟨htraceless.available next, htraceless.request next,
    fun later hsettled => htraceless.startCall h hafter hsettled⟩⟩

/-- A call whose script is missing. -/
def lostCall : CallSetup := { Station.trialCall with script := some "@nowhere" }

/-- One of three slots carries a call when one is asked for whose script is missing: its slot
is listed again, behind the third one. -/
theorem refused_call_without_script : ∃ x : Exchange Unit, Reach x ∧
    (x.startCall (some "group") lostCall).2 = .error (.scriptNotFound "@nowhere") ∧
    x.ledger.idle.slots = [1, 2] ∧
    (x.startCall (some "group") lostCall).1.ledger.idle.slots = [2, 1] ∧
    Traceless x (x.startCall (some "group") lostCall).1 := by
  have hrun : (build trialConfig (trialPlan "@main\n  sleep 60\n  exit\n")).toOption.map
      (fun x => let y := x.perform (.startCall (some "group") Station.trialCall)
        ((y.startCall (some "group") lostCall).2, y.ledger.idle.slots,
          (y.startCall (some "group") lostCall).1.ledger.idle.slots)) =
      some (.error (.scriptNotFound "@nowhere"), [1, 2], [2, 1]) := by decide +kernel
  obtain ⟨x, hbuild, hobserved⟩ := exists_build hrun
  simp only [Prod.mk.injEq] at hobserved
  obtain ⟨hrefused, hbefore, hlater⟩ := hobserved
  have hreach := (Reach.build hbuild).perform (.startCall (some "group") Station.trialCall)
  exact ⟨_, hreach, hrefused, hbefore, hlater, (refused_call_leaves_no_trace hreach hrefused).2.1⟩

/-- Five symbols are not enough for a call: a number of the slot is used up. -/
example : (build { trialConfig with engine := { trialConfig.engine with maxSymbols := 5 } }
    (trialPlan "@main\n  exit\n")).toOption.map (fun x =>
      let (y, answer) := x.startCall (some "group") Station.trialCall
      (answer, y.slots.map fun s => (s.state, s.sequence), y.ledger.idle.slots,
        y.reserved "group")) =
    some (.error (.script (.symbolSpaceExhausted 5)), [(.idle, 1), (.idle, 0), (.idle, 0)],
      [1, 2, 0], 0) := by decide +kernel

end Exchange

end Switchboard
