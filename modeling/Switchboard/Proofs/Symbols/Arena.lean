import Mathlib.Data.List.Find
import Switchboard.Symbols

/-!
# Switchboard.Proofs.Symbols.Arena

Symbols in storage that is used again.

1. An arena keeps the symbols of all calls so far in one list. Only the first
   `live` of them belong to the present call, and an index tells the places of
   those with a name.
2. A new symbol is written over one that an earlier call has left, if there is
   one at its place.
3. What an arena answers is what its live symbols answer (`Holds.answers`), so that
   nothing left in the storage shows: `answers_reset`.
-/

namespace Switchboard

/-! ## operations on symbols -/

/-- What can be asked of the symbols of a call. -/
inductive Symbols.Operation where
  | lookup (scope : Scope) (name : String)
  | define (scope : Scope) (name : String) (size : Option Nat)
  | assign (scope : Scope) (name value : String)
  | assignScoped (scope : Scope) (name value : String)
  | clear (scope : Scope) (name : String)
  | reset

namespace Symbols

/-- Carry out an operation; the answer is the symbol looked up or declared, or a fault. -/
def perform (s : Symbols) : Operation → Symbols × Except Fault (Option Symbol)
  | .lookup scope name => (s, .ok (s.lookup? scope name))
  | .define scope name size =>
    match s.define scope name size with
    | .ok t => (t, .ok (t.declared? scope name))
    | .error fault => (s, .error fault)
  | .assign scope name value => changed (s.assign scope name value)
  | .assignScoped scope name value => changed (s.assignScoped scope name value)
  | .clear scope name => (s.clear scope name, .ok none)
  | .reset => (s.reset, .ok none)
where
  changed : Except Fault Symbols → Symbols × Except Fault (Option Symbol)
    | .ok t => (t, .ok none)
    | .error fault => (s, .error fault)

/-- Carry out operations one after the other. -/
def performAll (s : Symbols) (ops : List Operation) : Symbols :=
  ops.foldl (fun s op => (s.perform op).1) s

/-- The answers to operations, each with the number of symbols after it. -/
def answers (s : Symbols) : List Operation → List (Except Fault (Option Symbol) × Nat)
  | [] => []
  | op :: rest => ((s.perform op).2, (s.perform op).1.size) :: (s.perform op).1.answers rest

/-! Operations change neither limits nor the size of new symbols, so that after a
reset nothing is left of them. -/

section
variable {s t : Symbols} {scope : Scope} {name value : String}

/-- A symbol that is created is gone after a reset. -/
theorem reset_create {size : Nat} (h : s.create scope name size = .ok t) : t.reset = s.reset := by
  unfold create at h
  split at h
  · contradiction
  · obtain rfl := Except.ok.inj h
    rfl

/-- So it is with one that is declared anew. -/
theorem reset_define {size : Option Nat} (h : s.define scope name size = .ok t) :
    t.reset = s.reset := by
  unfold define at h
  split at h
  · obtain rfl := Except.ok.inj h
    rfl
  · exact reset_create h

/-- So it is with an assignment in a scope. -/
theorem reset_assignScoped (h : s.assignScoped scope name value = .ok t) : t.reset = s.reset := by
  unfold assignScoped Except.map at h
  split at h
  · contradiction
  · next hdefined =>
      obtain rfl := Except.ok.inj h
      have hkept := reset_define hdefined
      exact hkept

/-- So it is with an assignment in the scope of the script. -/
theorem reset_assign (h : s.assign scope name value = .ok t) : t.reset = s.reset :=
  reset_assignScoped h

end

/-- No operation shows after a reset. -/
theorem reset_perform (s : Symbols) (op : Operation) : (s.perform op).1.reset = s.reset := by
  have hchanged {r : Except Fault Symbols} (h : ∀ t, r = .ok t → t.reset = s.reset) :
      (perform.changed s r).1.reset = s.reset := by
    cases r with
    | error cause => rfl
    | ok t => exact h t rfl
  cases op with
  | lookup _ _ | clear _ _ | reset => rfl
  | define scope name size =>
      cases h : s.define scope name size with
      | error cause => simp only [perform, h]
      | ok t => simpa only [perform, h] using reset_define h
  | assign _ _ _ => exact hchanged fun t => reset_assign
  | assignScoped _ _ _ => exact hchanged fun t => reset_assignScoped

/-- Nor do operations that come one after the other. -/
theorem reset_performAll (s : Symbols) (ops : List Operation) :
    (s.performAll ops).reset = s.reset := by
  induction ops generalizing s with
  | nil => rfl
  | cons op rest ih => exact (ih _).trans (s.reset_perform op)

end Symbols

/-! ## arenas -/

/-- Storage for symbols, with the places of the live ones by their names. -/
structure Arena where
  storage : List Symbol
  index : List (String × List Nat)
  live : Nat
  limit : Nat
  defaultSize : Nat
deriving Repr, DecidableEq

namespace Arena

/-- Storage that was never used. -/
def new (limit defaultSize : Nat) : Arena := ⟨[], [], 0, limit, defaultSize⟩

/-- The places of the live symbols with a name. -/
def places (a : Arena) (name : String) : List Nat := (a.index.lookup name).getD []

/-- The place of the symbol declared with this name in exactly this scope. -/
def find? (a : Arena) (scope : Scope) (name : String) : Option Nat :=
  (a.places name).find? fun i => (a.storage[i]?).any (·.scope == scope)

/-- The place of the symbol that `name` denotes in `scope`. -/
def position? (a : Arena) (scope : Scope) (name : String) : Option Nat :=
  (scope.bind fun _ => a.find? scope name).or (a.find? none name)

/-- The symbol that `name` denotes in `scope`. -/
def lookup? (a : Arena) (scope : Scope) (name : String) : Option Symbol :=
  (a.position? scope name).bind (a.storage[·]?)

/-- The index with one more place of a name. -/
def enter (name : String) (i : Nat) : List (String × List Nat) → List (String × List Nat)
  | [] => [(name, [i])]
  | (n, places) :: rest =>
    if n = name then (n, places ++ [i]) :: rest else (n, places) :: enter name i rest

/-- Write a symbol at the next place, over one that is left there. -/
def write (a : Arena) (e : Symbol) : Arena :=
  { a with
    storage := if a.live < a.storage.length then a.storage.set a.live e else a.storage ++ [e]
    index := enter e.name a.live a.index
    live := a.live + 1 }

/-- Add a symbol that holds the empty text; the answer is its place. -/
def allocate (a : Arena) (scope : Scope) (name : String) (size : Nat) :
    Except Fault (Nat × Arena) :=
  if a.limit ≤ a.live then .error (.symbolSpaceExhausted a.limit)
  else .ok (a.live, a.write ⟨name, scope, size, ""⟩)

/-- Change the symbol at a place. -/
def change (a : Arena) (i : Nat) (f : Symbol → Symbol) : Arena :=
  { a with storage := a.storage.modify i f }

/-- Declare a symbol in exactly this scope; the answer is its place. -/
def define (a : Arena) (scope : Scope) (name : String) (size : Option Nat) :
    Except Fault (Nat × Arena) :=
  match a.find? scope name with
  | some i => .ok (i, a)
  | none => a.allocate scope name (size.getD a.defaultSize)

/-- Give the symbol that `name` denotes a value; if there is none, the call
gets one. -/
def assign (a : Arena) (scope : Scope) (name value : String) : Except Fault Arena :=
  match a.position? scope name with
  | some i => .ok (a.change i (·.store value))
  | none => (a.allocate none name a.defaultSize).map fun (i, a) => a.change i (·.store value)

/-- Give the symbol of exactly this scope a value, declaring it if need be. -/
def assignScoped (a : Arena) (scope : Scope) (name value : String) : Except Fault Arena :=
  (a.define scope name none).map fun (i, a) => a.change i (·.store value)

/-- Empty the symbol that `name` denotes, if there is one. -/
def clear (a : Arena) (scope : Scope) (name : String) : Arena :=
  match a.position? scope name with
  | some i => a.change i fun e => { e with value := "" }
  | none => a

/-- Drop every symbol, and keep the storage. -/
def reset (a : Arena) : Arena := { a with live := 0, index := [] }

/-- Carry out an operation; the answer is the symbol looked up or declared, or a fault. -/
def perform (a : Arena) : Symbols.Operation → Arena × Except Fault (Option Symbol)
  | .lookup scope name => (a, .ok (a.lookup? scope name))
  | .define scope name size =>
    match a.define scope name size with
    | .ok (i, b) => (b, .ok b.storage[i]?)
    | .error fault => (a, .error fault)
  | .assign scope name value => changed (a.assign scope name value)
  | .assignScoped scope name value => changed (a.assignScoped scope name value)
  | .clear scope name => (a.clear scope name, .ok none)
  | .reset => (a.reset, .ok none)
where
  changed : Except Fault Arena → Arena × Except Fault (Option Symbol)
    | .ok b => (b, .ok none)
    | .error fault => (a, .error fault)

/-- Carry out operations one after the other. -/
def performAll (a : Arena) (ops : List Symbols.Operation) : Arena :=
  ops.foldl (fun a op => (a.perform op).1) a

/-- The answers to operations, each with the number of live symbols after it. -/
def answers (a : Arena) : List Symbols.Operation → List (Except Fault (Option Symbol) × Nat)
  | [] => []
  | op :: rest => ((a.perform op).2, (a.perform op).1.live) :: (a.perform op).1.answers rest

/-! ## places in a list -/

/-- The first place at which a list has a member of a class. -/
theorem findIdx?_eq_find?_range {α : Type} (p : α → Bool) (l : List α) :
    l.findIdx? p = (List.range l.length).find? fun i => (l[i]?).any p := by
  induction l with
  | nil => rfl
  | cons e rest ih =>
      rw [List.length_cons, List.range_succ_eq_map, List.find?_cons, List.findIdx?_cons]
      by_cases he : p e = true
      · simp [he]
      · simp [he, ih, List.find?_map]

/-- The first that is found stands at the first place that is found. -/
theorem find?_eq_bind_findIdx? {α : Type} (p : α → Bool) (l : List α) :
    l.find? p = (l.findIdx? p).bind (l[·]?) := by
  induction l with
  | nil => rfl
  | cons e rest ih =>
      rw [List.find?_cons, List.findIdx?_cons]
      by_cases he : p e = true
      · simp [he]
      · rw [ih]
        cases rest.findIdx? p <;> simp [he]

/-- To change every member of a class that has at most one is to change the first. -/
theorem map_ite_eq_modify {α : Type} {p : α → Bool} {l : List α} {f : α → α}
    (honce : l.Pairwise fun e e' => ¬ (p e = true ∧ p e' = true)) :
    (l.map fun e => if p e then f e else e) =
      match l.findIdx? p with
      | some i => l.modify i f
      | none => l := by
  induction l with
  | nil => rfl
  | cons e rest ih =>
      obtain ⟨hothers, honce⟩ := List.pairwise_cons.1 honce
      rw [List.map_cons, List.findIdx?_cons]
      by_cases he : p e = true
      · have hsame : (rest.map fun e' => if p e' then f e' else e') = rest := by
          refine (List.map_congr_left fun e' hm => ?_).trans (List.map_id rest)
          exact if_neg fun he' => hothers e' hm ⟨he, he'⟩
        simp [he, hsame]
      · rw [if_neg he, if_neg he, ih honce]
        cases rest.findIdx? p <;> rfl

/-! ## the live symbols -/

/-- A name is looked up past the entry of another. -/
theorem lookup_cons_of_ne {n m : String} (h : n ≠ m) (places : List Nat)
    (rest : List (String × List Nat)) : ((m, places) :: rest).lookup n = rest.lookup n := by
  rw [List.lookup_cons, beq_eq_false_iff_ne.2 h]

/-- A place that is entered comes last under its own name, and shows under no other. -/
theorem lookup_enter (name : String) (i : Nat) (index : List (String × List Nat)) (n : String) :
    ((enter name i index).lookup n).getD [] =
      (index.lookup n).getD [] ++ if n = name then [i] else [] := by
  induction index with
  | nil =>
      by_cases hn : n = name
      · simp [enter, hn]
      · simp [enter, lookup_cons_of_ne hn, hn]
  | cons entry rest ih =>
      obtain ⟨m, places⟩ := entry
      by_cases hm : m = name
      · subst hm
        by_cases hn : n = m
        · simp [enter, hn]
        · simp [enter, lookup_cons_of_ne hn, hn]
      · by_cases hn : n = m
        · subst hn
          simp [enter, hm]
        · simp [enter, hm, lookup_cons_of_ne hn, ih]

/-- What tells symbols apart. -/
def key (e : Symbol) : Scope × String := (e.scope, e.name)

/-- The live symbols of an arena are those of a call, and the index has their
places. -/
structure Holds (a : Arena) (s : Symbols) : Prop where
  limit : s.limit = a.limit
  defaultSize : s.defaultSize = a.defaultSize
  room : a.live ≤ a.storage.length
  entries : s.entries = a.storage.take a.live
  places : ∀ name, a.places name =
    (List.range a.live).filter fun i => (s.entries[i]?).any (·.name == name)
  distinct : (s.entries.map key).Nodup

/-- Both fail alike, or both go on with the same symbols. -/
inductive Agree : Except Fault Arena → Except Fault Symbols → Prop where
  | fault (cause : Fault) : Agree (.error cause) (.error cause)
  | holds {a : Arena} {s : Symbols} (h : Holds a s) : Agree (.ok a) (.ok s)

/-- As `Agree`, where the arena also tells the place of a symbol. -/
inductive Placed (scope : Scope) (name : String) :
    Except Fault (Nat × Arena) → Except Fault Symbols → Prop where
  | fault (cause : Fault) : Placed scope name (.error cause) (.error cause)
  | holds {i : Nat} {a : Arena} {s : Symbols} (h : Holds a s) (hi : a.find? scope name = some i) :
    Placed scope name (.ok (i, a)) (.ok s)

namespace Holds

variable {a : Arena} {s : Symbols}

/-- An arena that is new holds no symbols. -/
theorem new (limit defaultSize : Nat) : Holds (.new limit defaultSize) (.empty limit defaultSize) :=
  ⟨rfl, rfl, Nat.le_refl _, rfl, fun _ => rfl, .nil⟩

/-- Whatever the storage holds, none of it is live after a reset. -/
theorem reset (h : Holds a s) : Holds a.reset s.reset :=
  ⟨h.limit, h.defaultSize, Nat.zero_le _, rfl, fun _ => rfl, .nil⟩

/-- Both hold the same number of symbols. -/
theorem size (h : Holds a s) : s.size = a.live := by
  rw [Symbols.size, h.entries, List.length_take, Nat.min_eq_left h.room]

/-- A live place holds the symbol of that place. -/
theorem getElem? (h : Holds a s) {i : Nat} (hi : i < a.live) : a.storage[i]? = s.entries[i]? := by
  rw [h.entries, List.getElem?_take_of_lt hi]

/-- The places of a name give the first symbol of a scope as a search of them all does. -/
theorem find?_eq (h : Holds a s) (scope : Scope) (name : String) :
    a.find? scope name = s.entries.findIdx? fun e => e.scope == scope && e.name == name := by
  have hlength : s.entries.length = a.live := h.size
  rw [findIdx?_eq_find?_range, hlength, find?, h.places, List.find?_filter]
  refine List.find?_congr fun i hi => ?_
  rw [h.getElem? (List.mem_range.1 hi)]
  cases s.entries[i]? with
  | none => simp
  | some e => simp [Bool.beq_eq_decide_eq, Bool.and_comm]

/-- Only live places are found. -/
theorem lt_of_find? (h : Holds a s) {scope : Scope} {name : String} {i : Nat}
    (hi : a.find? scope name = some i) : i < a.live := by
  rw [h.find?_eq, List.findIdx?_eq_some_iff_getElem] at hi
  obtain ⟨hlt, -⟩ := hi
  rwa [show s.entries.length = a.live from h.size] at hlt

/-- What is declared is the symbol at the place that the index finds. -/
theorem declared?_eq (h : Holds a s) (scope : Scope) (name : String) :
    s.declared? scope name = (a.find? scope name).bind (a.storage[·]?) := by
  rw [Symbols.declared?, find?_eq_bind_findIdx?, ← h.find?_eq]
  cases hi : a.find? scope name with
  | none => rfl
  | some i => exact (h.getElem? (h.lt_of_find? hi)).symm

/-- A symbol is declared exactly if the index finds a place for it. -/
theorem isSome_declared? (h : Holds a s) (scope : Scope) (name : String) :
    (s.declared? scope name).isSome = (a.find? scope name).isSome := by
  rw [Symbols.declared?, List.isSome_find?, h.find?_eq, List.findIdx?_isSome]

/-- Both see a name in the same scope. -/
theorem position?_eq (h : Holds a s) (scope : Scope) (name : String) :
    a.position? scope name = a.find? (s.owner scope name) name := by
  unfold position? Symbols.owner
  rw [h.isSome_declared?]
  cases scope with
  | none => simp
  | some i =>
      cases hi : a.find? (some i) name with
      | none => rfl
      | some place => exact hi.symm

/-- Both look up the same value. -/
theorem lookup?_eq (h : Holds a s) (scope : Scope) (name : String) :
    a.lookup? scope name = s.lookup? scope name := by
  rw [lookup?, h.position?_eq, Symbols.lookup?, h.declared?_eq]

/-! ### changing a symbol -/

/-- To change the symbol of a scope is to change the one at its place. -/
theorem modify_eq (h : Holds a s) (scope : Scope) (name : String) (f : Symbol → Symbol) :
    s.modify scope name f =
      { s with entries := match a.find? scope name with
        | some i => s.entries.modify i f
        | none => s.entries } := by
  rw [h.find?_eq, Symbols.modify, map_ite_eq_modify]
  refine (List.pairwise_map.1 h.distinct).imp fun {e e'} hne => ?_
  simp only [Bool.and_eq_true, beq_iff_eq]
  rintro ⟨⟨hs, hn⟩, hs', hn'⟩
  exact hne (Prod.ext (hs.trans hs'.symm) (hn.trans hn'.symm))

/-- A change at a place shows there alone, and what the symbol is called stays. -/
theorem change (h : Holds a s) {f : Symbol → Symbol} (hf : ∀ e, key (f e) = key e) (i : Nat) :
    Holds (a.change i f) { s with entries := s.entries.modify i f } := by
  have hkeys : (s.entries.modify i f).map key = s.entries.map key := by
    refine List.ext_getElem? fun j => ?_
    rw [List.getElem?_map, List.getElem?_map, List.getElem?_modify]
    cases s.entries[j]? with
    | none => rfl
    | some e => by_cases hij : i = j <;> simp [hij, hf]
  refine ⟨h.limit, h.defaultSize, ?_, ?_, fun name => ?_, ?_⟩
  · rw [Arena.change, List.length_modify]
    exact h.room
  · rw [Arena.change, List.take_modify, h.entries]
  · refine (h.places name).trans (List.filter_congr fun j _ => ?_)
    rw [List.getElem?_modify]
    cases s.entries[j]? with
    | none => rfl
    | some e =>
        have hnamed : (f e).name = e.name := congrArg Prod.snd (hf e)
        by_cases hij : i = j <;> simp [hij, hnamed]
  · rw [hkeys]
    exact h.distinct

/-- A change in place that keeps keys is the same change of both. -/
theorem modify (h : Holds a s) {scope : Scope} {name : String} {i : Nat}
    (hi : a.find? scope name = some i) {f : Symbol → Symbol} (hf : ∀ e, key (f e) = key e) :
    Holds (a.change i f) (s.modify scope name f) := by
  rw [h.modify_eq, hi]
  exact h.change hf i

/-! ### adding a symbol -/

/-- A new symbol comes after the live ones, whether it is written over another or
at the end. -/
theorem take_write (a : Arena) (hroom : a.live ≤ a.storage.length) (e : Symbol) :
    (a.write e).storage.take (a.live + 1) = a.storage.take a.live ++ [e] := by
  unfold write
  by_cases hlt : a.live < a.storage.length
  · rw [if_pos hlt, List.take_add_one, List.take_set_of_le (Nat.le_refl _),
      List.getElem?_set_self hlt]
    rfl
  · obtain hfull : a.live = a.storage.length := by omega
    rw [if_neg hlt, hfull, List.take_length, List.take_of_length_le (by simp)]

/-- There is a place for what is written. -/
theorem room_write (a : Arena) (hroom : a.live ≤ a.storage.length) (e : Symbol) :
    (a.write e).live ≤ (a.write e).storage.length := by
  unfold write
  by_cases hlt : a.live < a.storage.length
  · rw [if_pos hlt, List.length_set]
    exact hlt
  · rw [if_neg hlt, List.length_append]
    exact Nat.succ_le_succ hroom

/-- What is written is live. -/
theorem write (h : Holds a s) {e : Symbol} (hfresh : a.find? e.scope e.name = none) :
    Holds (a.write e) { s with entries := s.entries ++ [e] } := by
  have hlength : s.entries.length = a.live := h.size
  refine ⟨h.limit, h.defaultSize, room_write a h.room e, ?_, fun name => ?_, ?_⟩
  · exact (congrArg (· ++ [e]) h.entries).trans (take_write a h.room e).symm
  · have hearlier : a.places name =
        (List.range a.live).filter fun i => ((s.entries ++ [e])[i]?).any (·.name == name) := by
      refine (h.places name).trans (List.filter_congr fun i hi => ?_)
      rw [List.getElem?_append_left (hlength ▸ List.mem_range.1 hi)]
    have hlast : (s.entries ++ [e])[a.live]? = some e := by
      rw [← hlength, List.getElem?_concat_length]
    change _ = (List.range (a.live + 1)).filter _
    rw [List.range_succ, List.filter_append, ← hearlier, List.filter_cons, hlast]
    refine (lookup_enter e.name a.live a.index name).trans (congrArg _ ?_)
    by_cases hn : name = e.name
    · simp [hn]
    · simp [hn, Ne.symm hn]
  · rw [List.map_append, List.map_singleton, List.nodup_append]
    refine ⟨h.distinct, List.pairwise_singleton _ _, fun k hk k' hk' hsame => ?_⟩
    obtain ⟨e', he', rfl⟩ := List.mem_map.1 hk
    obtain rfl := List.mem_singleton.1 hk'
    obtain ⟨hs, hn⟩ := Prod.mk.inj hsame
    have hdiffers := List.findIdx?_eq_none_iff.1 ((h.find?_eq _ _).symm.trans hfresh) e' he'
    simp [hs, hn] at hdiffers

/-- What is written is found at the place that was next. -/
theorem find?_write (h : Holds a s) {e : Symbol} (hfresh : a.find? e.scope e.name = none) :
    (a.write e).find? e.scope e.name = some a.live := by
  rw [(h.write hfresh).find?_eq, List.findIdx?_append, ← h.find?_eq, hfresh, ← h.size]
  simp [Symbols.size]

/-- A symbol that is not there yet can be added if there is room. -/
theorem allocate (h : Holds a s) {scope : Scope} {name : String}
    (hfresh : a.find? scope name = none) (size : Nat) :
    Placed scope name (a.allocate scope name size) (s.create scope name size) := by
  unfold Arena.allocate Symbols.create
  rw [h.size, h.limit]
  by_cases hfull : a.limit ≤ a.live
  · rw [if_pos hfull, if_pos hfull]
    exact .fault _
  · rw [if_neg hfull, if_neg hfull, ← h.limit]
    exact .holds (h.write hfresh) (h.find?_write hfresh)

/-- Both declare a symbol alike, or refuse alike. -/
theorem define (h : Holds a s) (scope : Scope) (name : String) (size : Option Nat) :
    Placed scope name (a.define scope name size) (s.define scope name size) := by
  unfold Arena.define Symbols.define
  rw [h.isSome_declared?, h.defaultSize]
  cases hi : a.find? scope name with
  | some i => exact .holds h hi
  | none => exact h.allocate hi _

/-! ### operations -/

/-- Both assign alike, or refuse alike. -/
theorem assignScoped (h : Holds a s) (scope : Scope) (name value : String) :
    Agree (a.assignScoped scope name value) (s.assignScoped scope name value) := by
  have hplaced := h.define scope name none
  unfold Arena.assignScoped Symbols.assignScoped
  generalize a.define scope name none = r, s.define scope name none = t at hplaced
  cases hplaced with
  | fault cause => exact .fault cause
  | holds h hi => exact .holds (h.modify hi fun _ => rfl)

/-- A name is given a value in the scope that it is seen in, if there is one,
and for the whole call if not. -/
theorem assign (h : Holds a s) (scope : Scope) (name value : String) :
    Agree (a.assign scope name value) (s.assign scope name value) := by
  have hsame : a.assign scope name value = a.assignScoped (s.owner scope name) name value := by
    unfold Arena.assign Arena.assignScoped Arena.define
    rw [h.position?_eq]
    cases hi : a.find? (s.owner scope name) name with
    | some i => rfl
    | none =>
        have hcall : s.owner scope name = none := by
          unfold Symbols.owner at hi ⊢
          rw [h.isSome_declared?] at hi ⊢
          by_cases hs : (a.find? scope name).isSome
          · rw [if_pos hs] at hi
            rw [hi] at hs
            contradiction
          · exact if_neg hs
        rw [hcall]
        rfl
  rw [hsame]
  exact h.assignScoped (s.owner scope name) name value

/-- Both clear alike. -/
theorem clear (h : Holds a s) (scope : Scope) (name : String) :
    Holds (a.clear scope name) (s.clear scope name) := by
  unfold Arena.clear Symbols.clear
  rw [h.position?_eq, h.modify_eq]
  cases a.find? (s.owner scope name) name with
  | some i => exact h.change (f := fun e => { e with value := "" }) (fun _ => rfl) i
  | none => exact h

end Holds

/-- One operation has the same answer, and leaves the same symbols. -/
theorem Holds.perform {a : Arena} {s : Symbols} (h : Holds a s) (op : Symbols.Operation) :
    Holds (a.perform op).1 (s.perform op).1 ∧ (a.perform op).2 = (s.perform op).2 := by
  have hchanged {r : Except Fault Arena} {t : Except Fault Symbols} (hagree : Agree r t) :
      Holds (perform.changed a r).1 (Symbols.perform.changed s t).1 ∧
        (perform.changed a r).2 = (Symbols.perform.changed s t).2 := by
    cases hagree with
    | fault cause => exact ⟨h, rfl⟩
    | holds h => exact ⟨h, rfl⟩
  cases op with
  | lookup scope name => exact ⟨h, congrArg Except.ok (h.lookup?_eq scope name)⟩
  | define scope name size =>
      have hplaced := h.define scope name size
      unfold Arena.perform Symbols.perform
      dsimp only
      generalize a.define scope name size = r, s.define scope name size = t at hplaced
      cases hplaced with
      | fault cause => exact ⟨h, rfl⟩
      | @holds i b t h hi =>
          refine ⟨h, ?_⟩
          dsimp only
          rw [h.declared?_eq, hi]
          rfl
  | assign scope name value => exact hchanged (h.assign scope name value)
  | assignScoped scope name value => exact hchanged (h.assignScoped scope name value)
  | clear scope name => exact ⟨h.clear scope name, rfl⟩
  | reset => exact ⟨h.reset, rfl⟩

/-- The arena follows the symbols through any operations. -/
theorem Holds.performAll {a : Arena} {s : Symbols} (h : Holds a s) (ops : List Symbols.Operation) :
    Holds (a.performAll ops) (s.performAll ops) := by
  induction ops generalizing a s with
  | nil => exact h
  | cons op rest ih => exact ih (h.perform op).1

/-- An arena answers what its live symbols do. -/
theorem Holds.answers {a : Arena} {s : Symbols} (h : Holds a s) (ops : List Symbols.Operation) :
    a.answers ops = s.answers ops := by
  induction ops generalizing a s with
  | nil => rfl
  | cons op rest ih =>
      obtain ⟨hafter, hsame⟩ := h.perform op
      rw [Arena.answers, Symbols.answers, hsame, hafter.size, ih hafter]

/-- Whatever an arena was used for, after a reset it answers as one that was never
used. -/
theorem answers_reset (limit defaultSize : Nat) (past ops : List Symbols.Operation) :
    ((Arena.new limit defaultSize).performAll past).reset.answers ops =
      (Arena.new limit defaultSize).answers ops := by
  have h := ((Holds.new limit defaultSize).performAll past).reset
  rw [h.answers, Symbols.reset_performAll, (Holds.new limit defaultSize).answers]
  rfl

end Arena

end Switchboard
