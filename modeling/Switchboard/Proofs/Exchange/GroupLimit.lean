import Switchboard.Proofs.Exchange.Chronicle
import Switchboard.Proofs.Exchange.Desk

/-!
# Switchboard.Proofs.Exchange.GroupLimit

The limit of a group against the calls on its slots.

1. The load of a group is the number of calls on its slots and of slots reserved
   for it (`load`).  Service never adds to it, nor does a slot that is given back
   or a call on a slot that is reserved, and a request adds to it only below the
   limit.
2. A call on a slot of the group that is not reserved adds to the load whatever
   the limit is (`Desk.BeginsBeyond`).
3. A limit that fits the count of calls is kept to by requests, since the group counts
   its calls then (`load_lt_of_limit`).  Nothing more is granted beyond a greater one as
   long as the count has not begun anew (`Desk.GrantsBeyond`).
-/

namespace Switchboard

/-! ## counting reservations -/

namespace Reservations

variable {r : Reservations} {id : SlotId} {name group : String}

theorem count_release_le : (r.release id).count name ≤ r.count name :=
  List.filter_sublist.countP_le

/-- With a reservation for it given up, a group has one less at least. -/
theorem count_release_lt (h : (id, name) ∈ r.entries) :
    (r.release id).count name < r.count name := by
  have hsplit := List.countP_eq_countP_filter_add r.entries (·.2 == name) (·.1 != id)
  have hgiven : 0 < (r.entries.filter fun entry => !(entry.1 != id)).countP (·.2 == name) :=
    List.countP_pos_iff.mpr ⟨(id, name), List.mem_filter.mpr ⟨h, by simp⟩, by simp⟩
  unfold count release
  dsimp only
  omega

theorem count_insert_self_le : (r.insert id name).count name ≤ r.count name + 1 := by
  have hless : (r.release id).count name ≤ r.count name := count_release_le
  unfold count insert at *
  rw [List.countP_cons]
  split <;> omega

theorem count_insert_le (h : group ≠ name) : (r.insert id group).count name ≤ r.count name := by
  have hless : (r.release id).count name ≤ r.count name := count_release_le
  unfold count insert at *
  rwa [List.countP_cons_of_neg (by simpa using h)]

/-- Where nothing is reserved for a slot, there is nothing to give up. -/
theorem release_of_not_contains (h : ¬ r.contains id = true) : r.release id = r := by
  have hkept : r.entries.filter (·.1 != id) = r.entries := by
    refine List.filter_eq_self.mpr fun entry hentry => ?_
    have hne : entry.1 ≠ id := fun he => h (List.any_eq_true.mpr ⟨entry, hentry, by simp [he]⟩)
    simpa using hne
  rw [release, hkept]

end Reservations

/-- Events make no reservation. -/
theorem Standing.Posted.reservations {s t : Standing} (h : Posted s t) :
    t.reservations.entries.Sublist s.reservations.entries := by
  cases h with
  | kept ht => rw [ht]
  | ended _ ht => rw [ht]
  | enabled _ _ ht => rw [ht]; exact .refl _
  | disabled _ _ ht => rw [ht]; exact List.filter_sublist
  | broken cid _ ht => rw [ht]; exact .refl _
  | released cid _ ht => rw [ht]; exact .refl _

namespace Exchange

variable {σ : Type} {x y z : Exchange σ} {id : SlotId} {g s : Segment} {limit : Nat}
  {group : Option String} {setup : CallSetup}

open Accounts (Lapse)

/-! ## reservations of an exchange -/

/-- Service makes no reservation. -/
theorem Lawful.reservations_service (h : x.Lawful) (hs : Service x y) :
    y.ledger.reservations.entries.Sublist x.ledger.reservations.entries := by
  cases serviced hs with
  | posted id hf =>
      refine atSlot_cases (R := fun y =>
        y.ledger.reservations.entries.Sublist x.ledger.reservations.entries) id _ (.refl _)
        fun slot hslot => ?_
      exact (hf ⟨slot, x.ledger⟩ (h.station hslot) h.nodup).2.reservations
  | reload scripts => exact .refl _
  | elsewhere he => rw [he.ledger]

/-- A slot that is given back is no longer reserved, if it was free. -/
theorem reservations_restore (x : Exchange σ) (id : SlotId) :
    (x.restore id).1.ledger.reservations = x.ledger.reservations ∨
      (x.restore id).1.ledger.reservations = x.ledger.reservations.release id := by
  refine atSlot_cases (R := fun y => y.ledger.reservations = x.ledger.reservations ∨
    y.ledger.reservations = x.ledger.reservations.release id) id _ (.inl rfl) fun slot _ => ?_
  dsimp only
  split
  · exact .inl rfl
  · exact .inr rfl

/-! ## the load of a group -/

/-- The calls on the slots of a group, and the slots reserved for it. -/
def load (g : Segment) (x : Exchange σ) : Nat := busyIn g x + x.reserved g.name

theorem Lawful.load_eq (h : x.Lawful) (g : Segment) :
    load g x = x.accounts.busy g + x.ledger.reservations.count g.name := by
  rw [h.busy_eq]
  rfl

/-- The segments of an exchange, whatever they count, have a group among them. -/
def HasGroup (x : Exchange σ) (g : Segment) : Prop :=
  (x.ledger.segments.group? g.name).map Segment.blank = some g.blank

/-- Slots of the group are reserved for no other, and its load keeps to a limit. -/
structure Within (g : Segment) (limit : Nat) (x : Exchange σ) : Prop where
  named : ∀ entry ∈ x.ledger.reservations.entries, g.contains entry.1 = true → entry.2 = g.name
  load_le : load g x ≤ limit

/-- Where a slot of the group is reserved, it is for the group. -/
theorem Within.mem_of_reserves (h : Within g limit x) (hin : g.contains id = true)
    (hreserved : x.ledger.Reserves id) : (id, g.name) ∈ x.ledger.reservations.entries := by
  obtain ⟨⟨other, name⟩, hentry, hid⟩ := List.any_eq_true.mp hreserved
  obtain rfl : other = id := by simpa using hid
  obtain rfl : name = g.name := h.named _ hentry hin
  exact hentry

/-- Without more calls and reservations the load keeps to the limit. -/
theorem Within.fewer (h : Within g limit x) (hl : x.Lawful) (hly : y.Lawful)
    (hbusy : y.accounts.busy g ≤ x.accounts.busy g)
    (hreservations : y.ledger.reservations.entries.Sublist x.ledger.reservations.entries) :
    Within g limit y := by
  refine ⟨fun entry hentry => h.named entry (hreservations.subset hentry), ?_⟩
  have hload := h.load_le
  have hcount : y.ledger.reservations.count g.name ≤ x.ledger.reservations.count g.name :=
    hreservations.countP_le
  rw [hl.load_eq] at hload
  rw [hly.load_eq]
  omega

theorem Within.elsewhere (h : Within g limit x) (hl : x.Lawful) (he : Elsewhere x y) :
    Within g limit y := by
  refine h.fewer hl (hl.act (.elsewhere he)) (Nat.le_of_eq ?_) ?_
  · rw [he.accounts]
  · rw [he.ledger]

/-- Service adds nothing to the load. -/
theorem Within.service (h : Within g limit x) (hl : x.Lawful) (hs : Service x y) :
    Within g limit y := by
  refine h.fewer hl (hl.act hs.act) ?_ (hl.reservations_service hs)
  cases hl.lapse hs with
  | same hb => exact Nat.le_of_eq (by rw [hb])
  | ended id cid hid hb =>
      have hbusy := Accounts.busy_closed hid g
      rw [hb]
      omega

/-- A slot that is given back adds nothing to the load. -/
theorem Within.restore (h : Within g limit x) (hl : x.Lawful) (id : SlotId) :
    Within g limit (x.restore id).1 := by
  refine h.fewer hl (hl.act (.restore x id)) (Nat.le_of_eq ?_) ?_
  · rw [hl.accounts_restore]
  · rcases reservations_restore x id with hr | hr
    · rw [hr]
    · rw [hr]
      exact List.filter_sublist

/-- A call that is refused adds nothing to the load. -/
theorem Within.denied (h : Within g limit x) (hl : x.Lawful)
    (hno : ∀ n, (x.allocate id setup).2 ≠ some (.ok n)) :
    Within g limit (x.allocate id setup).1 := by
  have hlawful := hl.act (.allocate x id setup)
  cases hl.allocated id setup with
  | denied _ haccounts hreservations =>
      exact h.fewer hl hlawful (Nat.le_of_eq (by rw [haccounts])) (by rw [hreservations])
  | begun n _ hn _ _ _ => exact absurd hn (hno n)

/-- The load when a call has begun. -/
theorem Lawful.load_begun (h : x.Lawful) {k : Nat}
    (hok : (x.allocate id setup).2 = some (.ok k)) (g : Segment) :
    load g (x.allocate id setup).1 = x.accounts.busy g + (if g.contains id then 1 else 0) +
      (x.ledger.reservations.release id).count g.name := by
  rw [(h.act (.allocate x id setup)).load_eq]
  cases h.allocated id setup with
  | denied hno _ _ => exact absurd hok (hno k)
  | begun _ cid _ hvacant hopened hreleased =>
      rw [hopened, Accounts.busy_opened hvacant, hreleased]

/-- A call on a slot that is reserved adds nothing to the load, and a call on a
slot that is not adds one. -/
theorem Lawful.load_begun_le (h : x.Lawful) {k : Nat}
    (hok : (x.allocate id setup).2 = some (.ok k))
    (hreserved : g.contains id = true → (id, g.name) ∈ x.ledger.reservations.entries) :
    load g (x.allocate id setup).1 ≤ load g x := by
  rw [h.load_begun hok, h.load_eq]
  by_cases hin : g.contains id = true
  · have hless := Reservations.count_release_lt (hreserved hin)
    rw [if_pos hin]
    omega
  · have hless : (x.ledger.reservations.release id).count g.name ≤ _ :=
      Reservations.count_release_le
    rw [if_neg hin]
    omega

theorem Lawful.load_begun_unreserved (h : x.Lawful) {k : Nat}
    (hok : (x.allocate id setup).2 = some (.ok k)) (hin : g.contains id = true)
    (hno : ¬ x.ledger.Reserves id) : load g (x.allocate id setup).1 = load g x + 1 := by
  rw [h.load_begun hok, h.load_eq, Reservations.release_of_not_contains hno, if_pos hin]
  omega

/-- A call that begins keeps to the limit, if its slot is reserved or there is
room for it. -/
theorem Within.begun (h : Within g limit x) (hl : x.Lawful) {k : Nat}
    (hok : (x.allocate id setup).2 = some (.ok k))
    (hroom : g.contains id = true → ¬ x.ledger.Reserves id → load g x < limit) :
    Within g limit (x.allocate id setup).1 := by
  refine ⟨fun entry hentry => h.named entry ?_, ?_⟩
  · cases hl.allocated id setup with
    | denied hno _ _ => exact absurd hok (hno k)
    | begun _ _ _ _ _ hreleased =>
        rw [hreleased] at hentry
        exact (List.mem_filter.mp hentry).1
  · by_cases hfree : g.contains id = true ∧ ¬ x.ledger.Reserves id
    · rw [hl.load_begun_unreserved hok hfree.1 hfree.2]
      exact hroom hfree.1 hfree.2
    · refine Nat.le_trans (hl.load_begun_le hok fun hin => ?_) h.load_le
      refine h.mem_of_reserves hin ?_
      by_contra hno
      exact hfree ⟨hin, hno⟩

/-! ## requests -/

/-- A group that counts its calls has room for one more where its limit has not been
reached. -/
theorem load_lt_of_limit (hl : x.Lawful) (hc : x.accounts.Counts g) (hg : x.HasGroup g)
    (hlimit : g.limit = some limit) (hs : x.ledger.segments.group? g.name = some s)
    (hfree : x.limitReached? s = none) : load g x < limit := by
  have hblank : s.blank = g.blank := by
    rw [HasGroup, hs] at hg
    exact Option.some.inj hg
  have hname : s.name = g.name := congrArg (·.name) hblank
  have hlimit' : s.limit = some limit := (congrArg (·.limit) hblank).trans hlimit
  have hcurrent := hc s (List.mem_of_find?_eq_some hs) hblank
  unfold limitReached? at hfree
  rw [hlimit'] at hfree
  by_contra hnot
  have hfull : limit ≤ s.counter.current.toNat + x.reserved s.name := by
    rw [hcurrent, hname, hl.busy_eq]
    exact Nat.le_of_not_lt hnot
  simp [hfull] at hfree

/-- So no slot is handed out in the name of the group where there is no room. -/
theorem load_lt_of_request (hl : x.Lawful) (hc : x.accounts.Counts g) (hg : x.HasGroup g)
    (hlimit : g.limit = some limit) (hok : (x.request (some g.name)).2 = .ok id) :
    load g x < limit := by
  have hcases := requested x (some g.name)
  generalize x.request (some g.name) = answered at hok hcases
  cases hcases with
  | refused e => exact nomatch hok
  | taken hnone _ => exact nomatch hnone
  | reserved hname hs hfree _ =>
      obtain rfl := Option.some.inj hname
      exact load_lt_of_limit hl hc hg hlimit hs hfree

/-- A request keeps to the limit, if slots of the group are asked for in its name, and
handed out where there is room. -/
theorem Within.request (h : Within g limit x) (hl : x.Lawful)
    (hroom : ∀ id, group = some g.name → (x.request group).2 = .ok id → load g x < limit)
    (hasks : ∀ id, (x.request group).2 = .ok id → g.contains id = true → group = some g.name) :
    Within g limit (x.request group).1 := by
  have haccounts := accounts_request x group
  have hlawful := hl.acts (acts_request x group)
  have hcases := requested x group
  generalize x.request group = answered at hroom hasks haccounts hlawful hcases
  cases hcases with
  | refused e => exact h
  | taken _ _ =>
      exact h.fewer hl hlawful (Nat.le_of_eq (by rw [haccounts])) (.refl _)
  | @reserved name s idle id hgroup hs hfree ht =>
      have hname : s.name = name := (show _ ∧ _ by simpa using List.find?_some hs).2
      refine ⟨fun entry hentry hin => ?_, ?_⟩
      · rcases List.mem_cons.mp hentry with rfl | hentry
        · have hsame := hgroup.symm.trans (hasks id rfl hin)
          exact hname.trans (Option.some.inj hsame)
        · exact h.named entry (List.mem_filter.mp hentry).1 hin
      · have hload := h.load_le
        rw [hl.load_eq] at hload
        rw [hlawful.load_eq, haccounts]
        dsimp only
        by_cases hsame : name = g.name
        · have hroom := hroom id (hgroup.trans (congrArg some hsame)) rfl
          have hmore : (x.ledger.reservations.insert id g.name).count g.name ≤ _ :=
            Reservations.count_insert_self_le
          rw [hl.load_eq] at hroom
          rw [hname, hsame]
          omega
        · have hless : (x.ledger.reservations.insert id s.name).count g.name ≤ _ :=
            Reservations.count_insert_le (hname ▸ hsame)
          omega

/-- So does a call that is started. -/
theorem Within.startCall (h : Within g limit x) (hl : x.Lawful)
    (hroom : ∀ id, group = some g.name → (x.request group).2 = .ok id → load g x < limit)
    (hasks : ∀ id, (x.request group).2 = .ok id → g.contains id = true → group = some g.name) :
    Within g limit (x.startCall group setup).1 := by
  have hrequest := h.request hl hroom hasks
  have hlawful := hl.acts (acts_request x group)
  have hcases := callStarted x group setup
  generalize x.startCall group setup = answered at hcases
  cases hcases with
  | refused _ => exact hrequest
  | @begun z id setup n hid hz hn =>
      refine (hrequest.elsewhere hlawful hz).begun (hlawful.act (.elsewhere hz)) hn ?_
      intro hin hno
      have hgroup := hasks id hid hin
      have hreserved := (hl.waiting_request hid).2 (by rw [hgroup]; rfl)
      exact absurd ((hz.stays id).reserved.mpr hreserved) hno
  | @returned z id setup e hid hz he =>
      have hlawfulz := hlawful.act (.elsewhere hz)
      have hdenied : Within g limit (z.allocate id setup).1 :=
        (hrequest.elsewhere hlawful hz).denied hlawfulz (by simp [he])
      exact hdenied.restore (hlawfulz.act (.allocate z id setup)) id
  | missing hid hz hnone =>
      exact (hrequest.elsewhere hlawful hz).denied (hlawful.act (.elsewhere hz)) (by simp [hnone])

/-! ## the first load -/

theorem Lawful.reservations_services (h : x.Lawful) (hs : Services x y) :
    y.ledger.reservations.entries.Sublist x.ledger.reservations.entries := by
  induction hs with
  | refl => exact .refl _
  | tail hpast hlast ih =>
      exact ((h.acts (Services.acts hpast)).reservations_service hlast).trans ih

/-- When an exchange is built there are no calls and no reservations. -/
theorem within_of_build {c : Config} {p : Plan σ} (hb : build c p = .ok x) :
    Within g limit x := by
  have hnone : x.ledger.reservations.entries = [] := by
    obtain ⟨-, segments, scripts, -, rfl⟩ := build_ok hb
    exact List.sublist_nil.mp ((Lawful.unstarted c p segments scripts).reservations_services
      (services_postAll .enable _ _))
  have hbusy : x.accounts.busy g = 0 := by
    obtain ⟨segments, scripts, -, haccounts⟩ := accounts_of_build hb
    rw [haccounts, busy_unstarted]
  refine ⟨fun entry hentry => ?_, ?_⟩
  · rw [hnone] at hentry
    exact nomatch hentry
  · have hload : load g x = 0 := by
      rw [(Reach.build hb).lawful.load_eq, hbusy, Reservations.count, hnone]
      rfl
    omega

end Exchange

/-! ## clients of a group -/

namespace Desk

variable {σ : Type} {d : Desk σ} {y : Exchange σ} {m : Option Move} {g : Segment} {limit : Nat}
  {past : List (Desk σ × Option Move)}

open Exchange (Within HasGroup Service load busyIn)

/-- Slots of a group are handed out only to those who ask for one of the group. -/
def AsksFor (g : Segment) (d : Desk σ) (m : Option Move) : Prop :=
  ∀ id ∈ d.handsOut? m, g.contains id = true → m.bind Move.asks? = some (some g.name)

instance (g : Segment) (d : Desk σ) (m : Option Move) : Decidable (AsksFor g d m) :=
  inferInstanceAs <| Decidable <|
    ∀ id ∈ d.handsOut? m, g.contains id = true → m.bind Move.asks? = some (some g.name)

/-- A call begins on a slot of a group that is no longer reserved, though the group
has as many calls and reservations as it may have. -/
inductive BeginsBeyond (g : Segment) (limit : Nat) (d : Desk σ) : Option Move → Prop
  | begun {n k : Nat} {setup : CallSetup} {t : Ticket} : d.tickets[n]? = some t →
      (d.exchange.allocate t.slot setup).2 = some (.ok k) → g.contains t.slot = true →
      ¬ d.exchange.ledger.Reserves t.slot → limit ≤ load g d.exchange →
      BeginsBeyond g limit d (some (.allocate n setup))

/-- A slot is handed out in the name of a group that has as many calls and reservations as
it may have. -/
inductive GrantsBeyond (g : Segment) (limit : Nat) (d : Desk σ) : Option Move → Prop
  | handed {m : Move} {id : SlotId} : m.asks? = some (some g.name) →
      (d.exchange.request (some g.name)).2 = .ok id → limit ≤ load g d.exchange →
      GrantsBeyond g limit d (some m)

theorem AsksFor.of_asks (h : AsksFor g d m) {group : Option String}
    (hm : m.bind Move.asks? = some group) (id : SlotId)
    (hok : (d.exchange.request group).2 = .ok id) (hin : g.contains id = true) :
    group = some g.name := by
  have hasked := h id (by simp [handsOut?, hm, hok, Except.toOption]) hin
  exact Option.some.inj (hm.symm.trans hasked)

/-- Where nothing is granted beyond the limit, there is room for what is. -/
theorem load_lt_of_asks {m : Move} (h : ¬ GrantsBeyond g limit d (some m))
    {group : Option String} (hm : m.asks? = some group) (id : SlotId)
    (hgroup : group = some g.name) (hok : (d.exchange.request group).2 = .ok id) :
    load g d.exchange < limit := by
  subst hgroup
  by_contra hfull
  exact h (.handed hm hok (Nat.le_of_not_lt hfull))

/-- Moves keep to the limit, unless a call begins or a slot is granted beyond it. -/
theorem within_move (hw : Within g limit d.exchange) (hl : d.exchange.Lawful) (m : Move)
    (hasks : AsksFor g d (some m)) (hno : ¬ BeginsBeyond g limit d (some m))
    (hgrants : ¬ GrantsBeyond g limit d (some m)) : Within g limit (d.move m).exchange := by
  have hmoved := d.moved m
  generalize d.move m = after at hmoved
  cases hmoved with
  | handed _ | refused _ =>
      exact hw.request hl (load_lt_of_asks hgrants rfl) (hasks.of_asks rfl)
  | started group setup =>
      exact hw.startCall hl (load_lt_of_asks hgrants rfl) (hasks.of_asks rfl)
  | begun ht hok =>
      refine hw.begun hl hok fun hin hfree => ?_
      by_contra hfull
      exact hno (.begun ht hok hin hfree (Nat.le_of_not_lt hfull))
  | denied _ hrefused => exact hw.denied hl hrefused
  | @returned n t _ => exact hw.restore hl t.slot
  | none _ _ => exact hw

/-- A move is an operation on the exchange, or nothing. -/
theorem move_performs (d : Desk σ) (m : Move) : (d.move m).exchange = d.exchange ∨
    ∃ op, (d.move m).exchange = d.exchange.perform op := by
  have hmoved := d.moved m
  generalize d.move m = after at hmoved
  cases hmoved with
  | @handed group _ _ | @refused group _ _ => exact .inr ⟨.request group, rfl⟩
  | started group setup => exact .inr ⟨.startCall group setup, rfl⟩
  | @begun _ _ setup t _ _ | @denied _ setup t _ _ => exact .inr ⟨.allocate t.slot setup, rfl⟩
  | @returned _ t _ => exact .inr ⟨.restore t.slot, rfl⟩
  | none _ _ => exact .inl rfl

/-- A group within a limit that fits the count has calls that do. -/
theorem busy_lt_of_within (hw : Within g limit y) (hl : y.Lawful) (hwidth : limit < UInt32.size) :
    y.accounts.busy g < UInt32.size := by
  have hload := hw.load_le
  rw [hl.load_eq] at hload
  omega

/-- The segments are the same at every moment, whatever they count. -/
theorem Dealings.layout (h : Dealings past d) : ∀ e ∈ desks past d,
    e.exchange.ledger.segments.layout = d.exchange.ledger.segments.layout := by
  induction h with
  | build hb => exact fun e he => by rw [List.mem_singleton.mp he]
  | @move past d m hpast ih =>
      have hlayout := (hpast.lawful d (List.mem_cons_self ..)).layout (d.move_acts m)
      exact List.forall_mem_cons.mpr ⟨rfl, fun e he => (ih e he).trans hlayout.symm⟩
  | @service past d y hpast hs ih =>
      have hlayout := (hpast.lawful d (List.mem_cons_self ..)).layout (.single hs.act)
      exact List.forall_mem_cons.mpr ⟨rfl, fun e he => (ih e he).trans hlayout.symm⟩

/-- A group is there at every moment. -/
theorem Dealings.hasGroup (h : Dealings past d)
    (hg : d.exchange.ledger.segments.group? g.name = some g) :
    ∀ e ∈ desks past d, e.exchange.HasGroup g := by
  intro e he
  rw [HasGroup, Segments.group?_of_layout (h.layout e he), hg]
  rfl

/-- Who holds a slot of the group has asked for one of the group. -/
theorem Dealings.asked (h : Dealings past d) (hasks : ∀ step ∈ past, AsksFor g step.1 step.2) :
    ∀ e ∈ desks past d, ∀ t ∈ e.tickets, g.contains t.slot = true → t.group = some g.name := by
  refine h.induct hasks (fun c p x _ => nofun) (fun d m hd hasks => ?_) fun d y hd _ _ t ht => ?_
  · have hmoved := d.moved m
    generalize d.move m = after at hmoved
    cases hmoved with
    | handed hok => exact List.forall_mem_cons.mpr ⟨hasks.of_asks rfl _ hok, hd⟩
    | begun _ _ | returned _ => exact fun t ht => hd t (List.mem_of_mem_eraseIdx ht)
    | refused _ | started _ _ | denied _ _ | none _ _ => exact hd
  · obtain ⟨u, hu, rfl⟩ := List.mem_map.mp ht
    exact hd u hu

/-- The load of a group keeps to its limit, unless a call begins or a slot is granted beyond
it.  Nothing is granted beyond a limit that fits the count, since up to there the group
counts its calls. -/
theorem Dealings.within (h : Dealings past d)
    (hg : d.exchange.ledger.segments.group? g.name = some g) (hlimit : g.limit = some limit)
    (hasks : ∀ step ∈ past, AsksFor g step.1 step.2)
    (hgrants : limit < UInt32.size ∨ ∀ step ∈ past, ¬ GrantsBeyond g limit step.1 step.2)
    (hno : ∀ step ∈ past, ¬ BeginsBeyond g limit step.1 step.2) :
    ∀ e ∈ desks past d, Within g limit e.exchange := by
  let Kept (e : Desk σ) : Prop := e.exchange.Lawful ∧ e.exchange.accounts.Counted ∧
    (limit < UInt32.size → e.exchange.accounts.Counts g) ∧ Within g limit e.exchange
  let Allowed (e : Desk σ) (m : Option Move) : Prop := AsksFor g e m ∧
    ¬ BeginsBeyond g limit e m ∧ (limit < UInt32.size ∨ ¬ GrantsBeyond g limit e m) ∧
    e.exchange.HasGroup g
  have hgroup := h.hasGroup hg
  have hkept : ∀ e ∈ desks past d, Kept e := by
    refine h.induct (S := Allowed) (fun step hstep => ⟨hasks step hstep, hno step hstep,
      hgrants.imp_right fun hall => hall step hstep, hgroup _ (mem_desks hstep)⟩)
      (fun c p x hb => ?_) (fun d m hd hm => ?_) fun d y hd _ hs => ?_
    · exact ⟨(Exchange.Reach.build hb).lawful, (Exchange.Reach.build hb).counted,
        fun _ => Exchange.counts_of_build hb g, Exchange.within_of_build hb⟩
    · obtain ⟨hl, hc, hcounts, hw⟩ := hd
      obtain ⟨hasks, hno, hgrants, hg⟩ := hm
      have hgrants : ¬ GrantsBeyond g limit d (some m) := by
        rcases hgrants with hwidth | hgrants
        · rintro ⟨-, hok, hfull⟩
          have hroom := Exchange.load_lt_of_request hl (hcounts hwidth) hg hlimit hok
          exact Nat.not_lt_of_le hfull hroom
        · exact hgrants
      have hw' := within_move hw hl m hasks hno hgrants
      have hl' := hl.acts (d.move_acts m)
      refine ⟨hl', hl.counted hc (d.move_acts m), fun hwidth => ?_, hw'⟩
      have hroom := busy_lt_of_within hw' hl' hwidth
      rcases d.move_performs m with hsame | ⟨op, hop⟩
      · rw [hsame]
        exact hcounts hwidth
      · rw [hop] at hroom ⊢
        exact hl.counts_perform hc (hcounts hwidth) op hroom
    · obtain ⟨hl, hc, hcounts, hw⟩ := hd
      exact ⟨hl.act hs.act, hl.counted hc (.single hs.act),
        fun hwidth => (hcounts hwidth).lapses hc (.single (hl.lapse hs)), hw.service hl hs⟩
  exact fun e he => (hkept e he).2.2.2

/-- A call that begins beyond the limit leaves the group with more than it may have. -/
theorem BeginsBeyond.exceeds {m : Move} (h : BeginsBeyond g limit d (some m))
    (hl : d.exchange.Lawful) : limit < load g (d.move m).exchange := by
  cases h with
  | @begun n k setup t ht hok hin hfree hfull =>
      have hmoved := d.moved (.allocate n setup)
      generalize d.move (.allocate n setup) = after at hmoved
      cases hmoved with
      | @begun _ _ _ u hu _ =>
          obtain rfl := Option.some.inj (ht.symm.trans hu)
          dsimp only
          rw [hl.load_begun_unreserved hok hin hfree]
          omega
      | @denied _ _ u hu hno =>
          obtain rfl := Option.some.inj (ht.symm.trans hu)
          exact absurd hok (hno k)
      | none hn hnone =>
          obtain rfl := Option.some.inj hn
          exact nomatch ht.symm.trans hnone

/-- Where the load keeps to the limit, no call has begun beyond it. -/
theorem Dealings.not_beyond_of_load_le (h : Dealings past d)
    (hall : ∀ e ∈ desks past d, load g e.exchange ≤ limit) :
    ∀ step ∈ past, ¬ BeginsBeyond g limit step.1 step.2 := by
  induction h with
  | build _ => exact fun step hstep => absurd hstep List.not_mem_nil
  | @move past d m hpast ih =>
      obtain ⟨hlast, hbefore⟩ := List.forall_mem_cons.mp hall
      refine List.forall_mem_cons.mpr ⟨fun hbeyond => ?_, ih hbefore⟩
      have hexceeds := hbeyond.exceeds (hpast.lawful d (List.mem_cons_self ..))
      exact Nat.not_le_of_lt hexceeds hlast
  | service _ _ ih =>
      obtain ⟨-, hbefore⟩ := List.forall_mem_cons.mp hall
      exact List.forall_mem_cons.mpr ⟨nofun, ih hbefore⟩

/-- While no ticket lapses, every call on a slot of the group finds it reserved. -/
theorem Dealings.not_beyond (h : Dealings past d) (hasks : ∀ step ∈ past, AsksFor g step.1 step.2)
    (hfresh : ∀ e ∈ desks past d, ∀ t ∈ e.tickets, t.lapsed = false) :
    ∀ step ∈ past, ¬ BeginsBeyond g limit step.1 step.2 := by
  have hspares : ∀ step ∈ past, step.1.SparesLapsed step.2 :=
    fun step hstep _ _ t ht _ => hfresh step.1 (mem_desks hstep) t ht
  intro step hstep hbeyond
  have hdesk : step.1 ∈ desks past d := mem_desks hstep
  obtain ⟨e, m⟩ := step
  cases hbeyond with
  | @begun n k setup t ht _ hin hfree _ =>
      have hmem := List.mem_of_getElem? ht
      have hvalid := (h.inOrder hspares e hdesk).1.valid t hmem (hfresh e hdesk t hmem)
      have hgroup := h.asked hasks e hdesk t hmem hin
      exact hfree (hvalid.2 (by rw [hgroup]; rfl))

/-- A group never has more calls, nor more calls and reservations together, than
its limit, as long as no call begins beyond the limit on a slot that has lost its
reservation, and only as long.  No reservation is lost while no slot goes out of
service that a client holds.  So it is for every limit that fits the count of calls, and for
a greater one as long as nothing is granted beyond it. -/
theorem group_limit_iff (h : Dealings past d)
    (hg : d.exchange.ledger.segments.group? g.name = some g) (hlimit : g.limit = some limit)
    (hasks : ∀ step ∈ past, AsksFor g step.1 step.2)
    (hgrants : limit < UInt32.size ∨ ∀ step ∈ past, ¬ GrantsBeyond g limit step.1 step.2) :
    ((∀ e ∈ desks past d, busyIn g e.exchange ≤ limit ∧
        busyIn g e.exchange + e.exchange.reserved g.name ≤ limit) ↔
      ∀ step ∈ past, ¬ BeginsBeyond g limit step.1 step.2) ∧
    ((∀ e ∈ desks past d, ∀ t ∈ e.tickets, t.lapsed = false) →
      ∀ e ∈ desks past d, busyIn g e.exchange + e.exchange.reserved g.name ≤ limit) := by
  refine ⟨⟨fun hall => ?_, fun hno e he => ?_⟩, fun hfresh e he => ?_⟩
  · exact h.not_beyond_of_load_le fun e he => (hall e he).2
  · have hload := (h.within hg hlimit hasks hgrants hno e he).load_le
    unfold load at hload
    omega
  · exact (h.within hg hlimit hasks hgrants (h.not_beyond hasks hfresh) e he).load_le

/-- Two clients get slots of a group that takes two calls, a third is refused,
one of the calls ends, and another one begins. -/
theorem group_limit_full : ∃ (past : List (Desk Unit × Option Move)) (d : Desk Unit)
    (g : Segment), Dealings past d ∧ d.exchange.ledger.segments.group? g.name = some g ∧
      g.limit = some 2 ∧ (∀ step ∈ past, AsksFor g step.1 step.2) ∧ load g d.exchange = 2 ∧
      ∀ e ∈ desks past d, busyIn g e.exchange + e.exchange.reserved g.name ≤ 2 := by
  let deeds : List (Move ⊕ (SlotId × Event)) :=
    [.inl (.request (some "group")), .inl (.startCall (some "group") Station.trialCall),
      .inl (.request (some "group")), .inl (.allocate 0 Station.trialCall), .inr (0, .shutdown),
      .inl (.startCall (some "group") Station.trialCall)]
  have hrun : (Exchange.build Exchange.trialConfig
      (Exchange.trialPlan "@main\n  sleep 60\n  exit\n")).toOption.map
      (fun x => let run := dealt [] ⟨x, []⟩ deeds
        (run.2.exchange.ledger.segments.group? "group").map fun g => (g.name, g.limit,
          decide ((∀ step ∈ run.1, AsksFor g step.1 step.2) ∧
            ∀ e ∈ desks run.1 run.2, ∀ t ∈ e.tickets, t.lapsed = false),
          load g run.2.exchange)) =
      some (some ("group", some 2, true, 2)) := by decide +kernel
  obtain ⟨x, hbuild, hseen⟩ := Exchange.exists_build hrun
  obtain ⟨g, hg, hseen⟩ := Option.map_eq_some_iff.mp hseen
  obtain ⟨hname, hseen⟩ := Prod.mk.inj hseen
  obtain ⟨hlimit, hseen⟩ := Prod.mk.inj hseen
  obtain ⟨hdecided, hload⟩ := Prod.mk.inj hseen
  obtain ⟨hasks, hfresh⟩ := of_decide_eq_true hdecided
  have hpast := (Dealings.build hbuild).dealt deeds
  refine ⟨_, _, g, hpast, hname ▸ hg, hlimit, hasks, hload, ?_⟩
  exact (group_limit_iff hpast (hname ▸ hg) hlimit hasks (.inl (by decide))).2 hfresh

/-- A slot of a group that takes one call goes out of service and comes back while
a client holds it.  Another client has its call on the other slot of the group, and
the first begins a second one. -/
theorem group_limit_exceeded : ∃ (past : List (Desk Unit × Option Move)) (d : Desk Unit)
    (g : Segment), Dealings past d ∧ d.exchange.ledger.segments.group? g.name = some g ∧
      g.limit = some 1 ∧ (∀ step ∈ past, AsksFor g step.1 step.2) ∧ busyIn g d.exchange = 2 := by
  let deeds : List (Move ⊕ (SlotId × Event)) :=
    [.inl (.request (some "group")), .inr (0, .disable), .inr (0, .enable),
      .inl (.startCall (some "group") Station.trialCall), .inl (.allocate 0 Station.trialCall)]
  let config : Config := { Config.default with
    boards := [⟨"board", [⟨"span", 2⟩], [⟨"group", ["span"], [], some 1, none⟩], []⟩] }
  have hrun : (Exchange.build config
      (Exchange.trialPlan "@main\n  sleep 60\n  exit\n")).toOption.map
      (fun x => let run := dealt [] ⟨x, []⟩ deeds
        (run.2.exchange.ledger.segments.group? "group").map fun g => (g.name, g.limit,
          decide (∀ step ∈ run.1, AsksFor g step.1 step.2), busyIn g run.2.exchange)) =
      some (some ("group", some 1, true, 2)) := by decide +kernel
  obtain ⟨x, hbuild, hseen⟩ := Exchange.exists_build hrun
  obtain ⟨g, hg, hseen⟩ := Option.map_eq_some_iff.mp hseen
  obtain ⟨hname, hseen⟩ := Prod.mk.inj hseen
  obtain ⟨hlimit, hseen⟩ := Prod.mk.inj hseen
  obtain ⟨hasks, hbusy⟩ := Prod.mk.inj hseen
  have hpast := (Dealings.build hbuild).dealt deeds
  exact ⟨_, _, g, hpast, hname ▸ hg, hlimit, of_decide_eq_true hasks, hbusy⟩

end Desk

end Switchboard
