import Mathlib.Data.Finmap
import Switchboard.Proofs.Symbols.Arena

/-!
# Switchboard.Proofs.Symbols.Table

The symbols of a call as a finite map with limits.

1. A table maps a scope and a name to a size and a text. It has no order, no
   places and no second index.
2. A name is seen in the scope that it is asked from if the table has it there,
   and else for the whole call. Giving a value to a name that is seen nowhere
   adds it for the whole call.
3. A table with `limit` entries takes no further one, and stays as it is.
4. An arena answers as the table does, whatever it is asked: `answers_eq_table`.
   The bridge is the list of symbols of a call, which `Arena.Holds` relates to
   the arena and `Table.Shows` to the table.
-/

namespace Switchboard

namespace Symbols

/-! ## tables -/

/-- What a table has for a scope and a name. -/
structure Cell where
  size : Nat
  value : String

/-- A finite map from scopes and names, with limits. -/
structure Table where
  limit : Nat
  defaultSize : Nat
  cells : Finmap fun _ : Scope × String => Cell

namespace Table

/-- The table without entries. -/
def new (limit defaultSize : Nat) : Table := ⟨limit, defaultSize, ∅⟩

/-- The number of entries. -/
def card (t : Table) : Nat := t.cells.keys.card

/-- The entry for a key, as a symbol. -/
def symbol? (t : Table) (key : Scope × String) : Option Symbol :=
  (t.cells.lookup key).map fun cell => ⟨key.2, key.1, cell.size, cell.value⟩

/-- The key that a name stands for in a scope. -/
def seen (t : Table) (scope : Scope) (name : String) : Scope × String :=
  if (scope, name) ∈ t.cells then (scope, name) else (none, name)

/-- Set one entry. -/
def put (t : Table) (key : Scope × String) (cell : Cell) : Table :=
  { t with cells := t.cells.insert key cell }

/-- Add an entry with the empty text, unless the key has one. -/
def declare (t : Table) (key : Scope × String) (size : Nat) : Except Fault Table :=
  if key ∈ t.cells then .ok t
  else if t.card = t.limit then .error (.symbolSpaceExhausted t.limit)
  else .ok (t.put key ⟨size, ""⟩)

/-- Change the text of an entry, and leave its size. -/
def write (t : Table) (key : Scope × String) (text : Nat → String) : Table :=
  match t.cells.lookup key with
  | some cell => t.put key ⟨cell.size, text cell.size⟩
  | none => t

/-- Give an entry a text, cut to its size, adding the entry if need be. -/
def give (t : Table) (key : Scope × String) (value : String) : Except Fault Table :=
  (t.declare key t.defaultSize).map (·.write key (Text.cutTo · value))

/-- Carry out an operation; the answer is the symbol looked up or declared, or a fault. -/
def perform (t : Table) : Operation → Table × Except Fault (Option Symbol)
  | .lookup scope name => (t, .ok (t.symbol? (t.seen scope name)))
  | .define scope name size =>
    match t.declare (scope, name) (size.getD t.defaultSize) with
    | .ok u => (u, .ok (u.symbol? (scope, name)))
    | .error fault => (t, .error fault)
  | .assign scope name value => changed (t.give (t.seen scope name) value)
  | .assignScoped scope name value => changed (t.give (scope, name) value)
  | .clear scope name => (t.write (t.seen scope name) fun _ => "", .ok none)
  | .reset => (new t.limit t.defaultSize, .ok none)
where
  changed : Except Fault Table → Table × Except Fault (Option Symbol)
    | .ok u => (u, .ok none)
    | .error fault => (t, .error fault)

/-- The answers to operations, each with the number of entries after it. -/
def answers (t : Table) : List Operation → List (Except Fault (Option Symbol) × Nat)
  | [] => []
  | op :: rest => ((t.perform op).2, (t.perform op).1.card) :: (t.perform op).1.answers rest

/-! ### entries -/

/-- A cell that is put shows under its key, and nowhere else. -/
theorem symbol?_put (t : Table) (key : Scope × String) (cell : Cell) (k : Scope × String) :
    (t.put key cell).symbol? k =
      if k = key then some ⟨key.2, key.1, cell.size, cell.value⟩ else t.symbol? k := by
  unfold symbol? put
  by_cases hk : k = key
  · subst hk
    simp
  · simp [hk]

/-- A symbol shows exactly if it has a cell. -/
theorem isSome_symbol? (t : Table) (key : Scope × String) :
    (t.symbol? key).isSome = true ↔ key ∈ t.cells := by
  rw [symbol?, Option.isSome_map, Finmap.lookup_isSome]

/-- A cell more is a key more. -/
theorem keys_insert (cells : Finmap fun _ : Scope × String => Cell) (key : Scope × String)
    (cell : Cell) : (cells.insert key cell).keys = insert key cells.keys := by
  ext k
  rw [Finset.mem_insert, Finmap.mem_keys, Finmap.mem_insert, Finmap.mem_keys]

/-- A new key is one entry more. -/
theorem card_put_of_notMem {t : Table} {key : Scope × String} (hfresh : key ∉ t.cells)
    (cell : Cell) : (t.put key cell).card = t.card + 1 := by
  rw [card, put, keys_insert, Finset.card_insert_of_notMem (by rwa [Finmap.mem_keys])]
  rfl

/-- Setting the entry of a key that has one adds none. -/
theorem card_put_of_mem {t : Table} {key : Scope × String} (hthere : key ∈ t.cells)
    (cell : Cell) : (t.put key cell).card = t.card := by
  rw [card, put, keys_insert, Finset.insert_eq_of_mem (by rwa [Finmap.mem_keys])]
  rfl

/-- What is written adds no cell. -/
theorem card_write (t : Table) (key : Scope × String) (text : Nat → String) :
    (t.write key text).card = t.card := by
  unfold write
  split
  · next cell h => exact card_put_of_mem (Finmap.mem_of_lookup_eq_some h) _
  · rfl

/-- It shows under its key, cut to the size of the cell, and nowhere else. -/
theorem symbol?_write (t : Table) (key : Scope × String) (text : Nat → String)
    (k : Scope × String) :
    (t.write key text).symbol? k =
      if k = key then (t.symbol? k).map fun e => { e with value := text e.size }
      else t.symbol? k := by
  unfold write
  split
  · next cell h =>
      rw [symbol?_put]
      by_cases hk : k = key
      · subst hk
        simp [symbol?, h]
      · simp [hk]
  · next h =>
      by_cases hk : k = key
      · subst hk
        simp [symbol?, h]
      · simp [hk]

end Table

/-! ## the list of symbols -/

/-- A symbol is declared under its own key. -/
theorem key_of_declared? {s : Symbols} {scope : Scope} {name : String} {e : Symbol}
    (h : s.declared? scope name = some e) : Arena.key e = (scope, name) := by
  have hfound := List.find?_some h
  simp only [Bool.and_eq_true, beq_iff_eq] at hfound
  exact Prod.ext hfound.1 hfound.2

/-- A change that leaves scope and name shows where it is made, and nowhere else. -/
theorem declared?_modify (s : Symbols) (scope : Scope) (name : String) {f : Symbol → Symbol}
    (hf : ∀ e, Arena.key (f e) = Arena.key e) (k : Scope × String) :
    (s.modify scope name f).declared? k.1 k.2 =
      if k = (scope, name) then (s.declared? k.1 k.2).map f else s.declared? k.1 k.2 := by
  have hkept (e : Symbol) :
      Arena.key (if e.scope == scope && e.name == name then f e else e) = Arena.key e := by
    split
    · exact hf e
    · rfl
  have hchanged : (s.modify scope name f).declared? k.1 k.2 = (s.declared? k.1 k.2).map
      fun e => if e.scope == scope && e.name == name then f e else e := by
    unfold declared? modify
    rw [List.find?_map]
    congr 2
    funext e
    have hsame := hkept e
    simp only [Arena.key, Prod.mk.injEq] at hsame
    simp only [Function.comp_apply, hsame.1, hsame.2]
  rw [hchanged]
  cases h : s.declared? k.1 k.2 with
  | none => simp
  | some e =>
      have hnamed := key_of_declared? h
      simp only [Arena.key] at hnamed
      by_cases hk : k = (scope, name)
      · obtain ⟨rfl, rfl⟩ := Prod.mk.inj (hnamed.trans hk)
        simp [hk]
      · have hother : ¬ (e.scope = scope ∧ e.name = name) := by
          rintro ⟨rfl, rfl⟩
          exact hk hnamed.symm
        simp [hk, hother]

/-- A symbol that comes last shows if none does before it. -/
theorem declared?_append (s : Symbols) (e : Symbol) (k : Scope × String) :
    ({ s with entries := s.entries ++ [e] } : Symbols).declared? k.1 k.2 =
      (s.declared? k.1 k.2).or (if k = Arena.key e then some e else none) := by
  unfold declared?
  rw [List.find?_append]
  congr 1
  by_cases hk : k = Arena.key e
  · simp [hk, Arena.key]
  · have hother : ¬ (e.scope = k.1 ∧ e.name = k.2) := fun ⟨hs, hn⟩ => hk (Prod.ext hs.symm hn.symm)
    simp [hk, hother]

/-- A table and the symbols of a call show the same. -/
structure Table.Shows (t : Table) (s : Symbols) : Prop where
  limit : t.limit = s.limit
  defaultSize : t.defaultSize = s.defaultSize
  symbol? : ∀ key, t.symbol? key = s.declared? key.1 key.2
  card : t.card = s.size
  room : s.size ≤ s.limit

/-- Both fail alike, or both go on and show the same. -/
inductive Table.Agree : Except Fault Table → Except Fault Symbols → Prop where
  | fault (cause : Fault) : Agree (.error cause) (.error cause)
  | shows {t : Table} {s : Symbols} (h : t.Shows s) : Agree (.ok t) (.ok s)

namespace Table.Shows

variable {t : Table} {s : Symbols}

/-- A new table shows new symbols. -/
theorem new (limit defaultSize : Nat) :
    (Table.new limit defaultSize).Shows (.empty limit defaultSize) :=
  ⟨rfl, rfl, fun _ => rfl, rfl, Nat.zero_le _⟩

/-- There is a cell for exactly the symbols that are declared. -/
theorem mem_iff (h : t.Shows s) (scope : Scope) (name : String) :
    (scope, name) ∈ t.cells ↔ (s.declared? scope name).isSome = true := by
  rw [← isSome_symbol?, h.symbol?]

/-- Both see a name at the same place. -/
theorem seen (h : t.Shows s) (scope : Scope) (name : String) :
    t.seen scope name = (s.owner scope name, name) := by
  unfold Table.seen owner
  by_cases hthere : (s.declared? scope name).isSome = true
  · rw [if_pos ((h.mem_iff scope name).2 hthere), if_pos hthere]
  · rw [if_neg fun hm => hthere ((h.mem_iff scope name).1 hm), if_neg hthere]

/-- A change of a value is the same in both. -/
theorem write (h : t.Shows s) (scope : Scope) (name : String) (text : Nat → String) :
    (t.write (scope, name) text).Shows
      (s.modify scope name fun e => { e with value := text e.size }) where
  limit := by
    unfold Table.write
    split <;> exact h.limit
  defaultSize := by
    unfold Table.write
    split <;> exact h.defaultSize
  symbol? key := by
    rw [symbol?_write, h.symbol?]
    exact (declared?_modify s scope name (f := fun e => { e with value := text e.size })
      (fun _ => rfl) key).symm
  card := by
    rw [card_write, h.card, size, size, modify, List.length_map]
  room := by
    rw [size, modify, List.length_map]
    exact h.room

/-- A table is full when the symbols have reached their limit. -/
theorem full_iff (h : t.Shows s) : t.card = t.limit ↔ s.limit ≤ s.size := by
  rw [h.card, h.limit]
  have := h.room
  omega

/-- So is a declaration, or its refusal. -/
theorem declare (h : t.Shows s) (scope : Scope) (name : String) (size : Option Nat) :
    Agree (t.declare (scope, name) (size.getD t.defaultSize)) (s.define scope name size) := by
  unfold Table.declare define create
  by_cases hthere : (s.declared? scope name).isSome = true
  · rw [if_pos ((h.mem_iff scope name).2 hthere), if_pos hthere]
    exact .shows h
  · have hfresh : (scope, name) ∉ t.cells := fun hm => hthere ((h.mem_iff scope name).1 hm)
    rw [if_neg hfresh, if_neg hthere]
    by_cases hfull : s.limit ≤ s.size
    · rw [if_pos (h.full_iff.2 hfull), if_pos hfull, h.limit]
      exact .fault _
    · rw [if_neg fun hf => hfull (h.full_iff.1 hf), if_neg hfull]
      refine .shows ⟨h.limit, h.defaultSize, fun key => ?_, ?_, ?_⟩
      · rw [symbol?_put, declared?_append, h.defaultSize, h.symbol?]
        by_cases hk : key = (scope, name)
        · obtain rfl := hk
          simp [Arena.key, Option.not_isSome_iff_eq_none.1 hthere]
        · simp [Arena.key, hk]
      · rw [card_put_of_notMem hfresh, h.card, Symbols.size, Symbols.size, List.length_append]
        rfl
      · rw [Symbols.size, List.length_append]
        exact Nat.lt_of_not_le hfull

/-- So is an assignment, or its refusal. -/
theorem give (h : t.Shows s) (scope : Scope) (name value : String) :
    Agree (t.give (scope, name) value) (s.assignScoped scope name value) := by
  have hdeclared := h.declare scope name none
  unfold Table.give assignScoped
  rw [Option.getD_none] at hdeclared
  generalize t.declare (scope, name) t.defaultSize = r, s.define scope name none = u at hdeclared
  cases hdeclared with
  | fault cause => exact .fault cause
  | shows h => exact .shows (h.write scope name (Text.cutTo · value))

/-- One operation has the same answer, and shows the same afterwards. -/
theorem perform (h : t.Shows s) (op : Operation) :
    (t.perform op).1.Shows (s.perform op).1 ∧ (t.perform op).2 = (s.perform op).2 := by
  have hchanged {r : Except Fault Table} {u : Except Fault Symbols} (hagree : Agree r u) :
      (perform.changed t r).1.Shows (Symbols.perform.changed s u).1 ∧
        (perform.changed t r).2 = (Symbols.perform.changed s u).2 := by
    cases hagree with
    | fault cause => exact ⟨h, rfl⟩
    | shows h => exact ⟨h, rfl⟩
  cases op with
  | lookup scope name =>
      refine ⟨h, ?_⟩
      change Except.ok (t.symbol? (t.seen scope name)) = Except.ok (s.lookup? scope name)
      rw [h.seen, h.symbol?]
      rfl
  | define scope name size =>
      have hdeclared := h.declare scope name size
      unfold Table.perform Symbols.perform
      dsimp only
      generalize t.declare (scope, name) (size.getD t.defaultSize) = r,
        s.define scope name size = u at hdeclared
      cases hdeclared with
      | fault cause => exact ⟨h, rfl⟩
      | shows h => exact ⟨h, congrArg Except.ok (h.symbol? (scope, name))⟩
  | assign scope name value =>
      have hgiven := h.give (s.owner scope name) name value
      rw [← h.seen] at hgiven
      exact hchanged hgiven
  | assignScoped scope name value => exact hchanged (h.give scope name value)
  | clear scope name =>
      refine ⟨?_, rfl⟩
      have hcleared := h.write (s.owner scope name) name fun _ => ""
      rw [← h.seen] at hcleared
      exact hcleared
  | reset =>
      refine ⟨?_, rfl⟩
      change (Table.new t.limit t.defaultSize).Shows (.empty s.limit s.defaultSize)
      rw [h.limit, h.defaultSize]
      exact .new _ _

/-- The symbols of a call answer what a table does that shows the same. -/
theorem answers (h : t.Shows s) (ops : List Operation) : t.answers ops = s.answers ops := by
  induction ops generalizing t s with
  | nil => rfl
  | cons op rest ih =>
      obtain ⟨hafter, hsame⟩ := h.perform op
      rw [Table.answers, Symbols.answers, hsame, hafter.card, ih hafter]

end Table.Shows

end Symbols

/-- Whatever an arena is asked, the answers and the numbers of symbols are those of a
finite map with the same limits. What it stores is the longest part of a text
that fits, and after a reset nothing is left of what was done before. -/
theorem Arena.answers_eq_table (limit defaultSize : Nat) (past ops : List Symbols.Operation) :
    (new limit defaultSize).answers ops = (Symbols.Table.new limit defaultSize).answers ops ∧
      (Symbols.empty limit defaultSize).answers ops =
        (Symbols.Table.new limit defaultSize).answers ops ∧
      (∀ room text, Text.LongestFitting room text (Text.cutTo room text)) ∧
      ((new limit defaultSize).performAll past).reset.answers ops =
        (new limit defaultSize).answers ops := by
  have htable := (Symbols.Table.Shows.new limit defaultSize).answers ops
  have hsymbols := (Holds.new limit defaultSize).answers ops
  exact ⟨hsymbols.trans htable.symm, htable.symm, Text.cutTo_longest,
    answers_reset limit defaultSize past ops⟩

end Switchboard
