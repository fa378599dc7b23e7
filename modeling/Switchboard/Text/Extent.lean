/-!
# Switchboard.Text.Extent

Cutting a text at a number of bytes. A character takes one to four bytes in
UTF-8, and a cut never falls inside one.

1. `cutTo` keeps the longest beginning that fits into a room.
2. `splitAt?` cuts at an exact place, and not at all where that would divide a
   character; `between?` is the part from one such place to another.
-/

namespace Switchboard.Text

/-- Bytes that a list of characters takes in UTF-8. -/
def extent : List Char → Nat
  | [] => 0
  | c :: cs => c.utf8Size + extent cs

/-- The characters from the front that fit into `room` bytes. -/
def fitting : Nat → List Char → List Char
  | _, [] => []
  | room, c :: cs => if c.utf8Size ≤ room then c :: fitting (room - c.utf8Size) cs else []

/-- What fits takes no more than the room. -/
theorem extent_fitting_le (room : Nat) (cs : List Char) : extent (fitting room cs) ≤ room := by
  induction cs generalizing room with
  | nil => simp [fitting, extent]
  | cons c cs ih =>
      rw [fitting]
      split
      · next h =>
        have := ih (room - c.utf8Size)
        simp only [extent]
        omega
      · simp [extent]

/-- What fits is a beginning. -/
theorem fitting_prefix (room : Nat) (cs : List Char) : fitting room cs <+: cs := by
  induction cs generalizing room with
  | nil => exact List.nil_prefix
  | cons c cs ih =>
      rw [fitting]
      split
      · exact List.cons_prefix_cons.2 ⟨rfl, ih _⟩
      · exact List.nil_prefix

/-- A beginning that takes no more than the room is within what fits. -/
theorem prefix_fitting {room : Nat} {cs beginning : List Char} (h : beginning <+: cs)
    (hsmall : extent beginning ≤ room) : beginning <+: fitting room cs := by
  induction cs generalizing room beginning with
  | nil => exact h
  | cons c cs ih =>
      cases beginning with
      | nil => exact List.nil_prefix
      | cons d rest =>
          obtain ⟨rfl, hwithin⟩ := List.cons_prefix_cons.1 h
          rw [extent] at hsmall
          rw [fitting, if_pos (by omega)]
          exact List.cons_prefix_cons.2 ⟨rfl, ih hwithin (by omega)⟩

/-- A text cut to `room` bytes. -/
def cutTo (room : Nat) (s : String) : String := String.ofList (fitting room s.toList)

/-- The longest beginning of a text that takes at most `room` bytes. -/
structure LongestFitting (room : Nat) (text part : String) : Prop where
  beginning : part.toList <+: text.toList
  fits : part.utf8ByteSize ≤ room
  longest : ∀ other : String, other.toList <+: text.toList → other.utf8ByteSize ≤ room →
    other.toList <+: part.toList

theorem utf8ByteSize_ofList (cs : List Char) : (String.ofList cs).utf8ByteSize = extent cs := by
  induction cs with
  | nil => rfl
  | cons c cs ih =>
      rw [String.ofList_cons, String.utf8ByteSize_append, String.utf8ByteSize_singleton, ih, extent]

theorem cutTo_longest (room : Nat) (text : String) :
    LongestFitting room text (cutTo room text) where
  beginning := by
    rw [cutTo, String.toList_ofList]
    exact fitting_prefix room text.toList
  fits := by
    rw [cutTo, utf8ByteSize_ofList]
    exact extent_fitting_le room text.toList
  longest other h hsmall := by
    rw [← String.ofList_toList (s := other), utf8ByteSize_ofList] at hsmall
    rw [cutTo, String.toList_ofList]
    exact prefix_fitting h hsmall

example : cutTo 3 "héllo" = "hé" ∧ cutTo 2 "héllo" = "h" := by decide

/-! ## exact places -/

/-- The text before a place and the text from there on. -/
def splitAt? : Nat → List Char → Option (List Char × List Char)
  | 0, cs => some ([], cs)
  | _ + 1, [] => none
  | place + 1, c :: cs =>
    if c.utf8Size ≤ place + 1 then
      (splitAt? (place + 1 - c.utf8Size) cs).map fun (before, rest) => (c :: before, rest)
    else none

/-- A text is cut where its beginning has the wanted size. -/
theorem splitAt?_eq_some_iff {place : Nat} {cs before rest : List Char} :
    splitAt? place cs = some (before, rest) ↔ cs = before ++ rest ∧ extent before = place := by
  fun_induction splitAt? place cs generalizing before with
  | case1 cs =>
      cases before with
      | nil => simp [extent, eq_comm]
      | cons c before =>
          have := c.utf8Size_pos
          simp only [extent]
          constructor
          · simp
          · omega
  | case2 place =>
      cases before with
      | nil => simp [extent]
      | cons c before => simp
  | case3 place c cs hfits ih =>
      cases before with
      | nil => simp [extent]
      | cons d before =>
          simp only [Option.map_eq_some_iff, Prod.mk.injEq, Prod.exists, List.cons.injEq,
            List.cons_append, extent]
          constructor
          · rintro ⟨a, b, hsplit, ⟨rfl, rfl⟩, rfl⟩
            obtain ⟨rfl, hsize⟩ := ih.1 hsplit
            exact ⟨⟨rfl, rfl⟩, by omega⟩
          · rintro ⟨⟨rfl, rfl⟩, hsize⟩
            exact ⟨before, rest, ih.2 ⟨rfl, by omega⟩, ⟨rfl, rfl⟩, rfl⟩
  | case4 place c cs hfits =>
      cases before with
      | nil => simp [extent]
      | cons d before =>
          simp only [List.cons_append, List.cons.injEq, extent]
          constructor
          · simp
          · rintro ⟨⟨rfl, -⟩, hsize⟩
            omega

/-- The text from a place on. -/
def from? (place : Nat) (cs : List Char) : Option (List Char) :=
  (splitAt? place cs).map fun (_, rest) => rest

/-- The text from one place to another. -/
def between? (first last : Nat) (cs : List Char) : Option (List Char) :=
  (from? first cs).bind fun rest => (splitAt? (last - first) rest).map fun (part, _) => part

end Switchboard.Text
