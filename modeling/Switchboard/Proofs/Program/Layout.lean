import Switchboard.Proofs.Program.Basic

/-!
# Switchboard.Proofs.Program.Layout

Searching over the lines of structured programs.

1. `Placed lines k shapes` says that the lines from line `k` on have the given
   commands and depths.
2. A search for the end of a chain steps over whole programs (`Program.span`).
   So it finds the next arm right after a body, and the end of a chain right
   after its last body: `next_of_placed`, `closer_of_placed`.
3. All lines of a program are at least as deep as it is, so that a search for
   the end of a loop stops right after its last line (`pastLoop_eq`).
-/

namespace Switchboard

/-! ## places -/

/-- The command of a line, and its depth. -/
def Line.shape (l : Line) : Command × Nat := (l.command, l.depth)

/-- The lines from a place on have these commands and depths. -/
def Placed (lines : List Line) (k : Nat) (shapes : List (Command × Nat)) : Prop :=
  shapes <+: (lines.drop k).map Line.shape

namespace Placed

variable {lines : List Line} {k : Nat} {shape : Command × Nat}
  {shapes others : List (Command × Nat)}

/-- The first line is there, and the others follow it. -/
theorem cons (h : Placed lines k (shape :: shapes)) :
    (∃ l, lines[k]? = some l ∧ l.command = shape.1 ∧ l.depth = shape.2) ∧
      Placed lines (k + 1) shapes := by
  obtain ⟨rest, h⟩ := h
  rw [List.cons_append] at h
  obtain ⟨l, ls, hd, hl, hs⟩ := List.map_eq_cons_iff.mp h.symm
  have hk : lines[k]? = some l := by
    rw [← List.head?_drop, hd]
    rfl
  refine ⟨⟨l, hk, congrArg Prod.fst hl, congrArg Prod.snd hl⟩, rest, ?_⟩
  rw [← List.drop_drop, hd, ← hs]
  rfl

/-- One part is there, and the other follows it. -/
theorem append (h : Placed lines k (shapes ++ others)) :
    Placed lines k shapes ∧ Placed lines (k + shapes.length) others := by
  obtain ⟨rest, h⟩ := h
  rw [List.append_assoc] at h
  refine ⟨⟨others ++ rest, h⟩, rest, ?_⟩
  rw [← List.drop_drop, List.map_drop, ← h, List.drop_left]

/-- Every line of a part that is there. -/
theorem getElem? (h : Placed lines k shapes) {i : Nat} (hi : i < shapes.length) :
    ∃ l, lines[k + i]? = some l ∧ l.shape ∈ shapes := by
  obtain ⟨rest, h⟩ := h
  have hget : ((lines.drop k).map Line.shape)[i]? = some shapes[i] := by
    rw [← h, List.getElem?_append_left hi, List.getElem?_eq_getElem hi]
  rw [List.getElem?_map, List.getElem?_drop] at hget
  obtain ⟨l, hl, hs⟩ := Option.map_eq_some_iff.mp hget
  exact ⟨l, hl, hs ▸ List.getElem_mem hi⟩

/-- The commands from a place on. -/
theorem commands (h : Placed lines k shapes) :
    ∃ rest, (lines.drop k).map (·.command) = shapes.map Prod.fst ++ rest := by
  obtain ⟨rest, h⟩ := h
  refine ⟨rest.map Prod.fst, ?_⟩
  rw [← List.map_append, h, List.map_map]
  rfl

end Placed

mutual

/-- The shapes of a program are its commands, with depths. -/
theorem Program.map_shapes (depth : Nat) :
    (p : Program) → (p.shapes depth).map Prod.fst = p.commands
  | .nil => rfl
  | .cons phrase rest => by
      simp [Program.shapes, Program.commands, phrase.map_shapes depth, rest.map_shapes depth]

/-- The shapes of a phrase are those of its commands. -/
theorem Phrase.map_shapes (depth : Nat) :
    (p : Phrase) → (p.shapes depth).map Prod.fst = p.commands
  | .plain _ _ => rfl
  | .chain kind _ body arms => by
      simp [Phrase.shapes, Phrase.commands, body.map_shapes depth, arms.map_shapes kind depth]
  | .loop _ body _ => by
      simp [Phrase.shapes, Phrase.commands, body.map_shapes (depth + 1)]
  | .breakLoop => rfl
  | .continueLoop => rfl

/-- So are the shapes of arms. -/
theorem Arms.map_shapes (kind : Chain) (depth : Nat) :
    (a : Arms) → (a.shapes kind depth).map Prod.fst = a.commands kind
  | .done => rfl
  | .other body => by
      simp [Arms.shapes, Arms.commands, body.map_shapes depth]
  | .more _ body arms => by
      simp [Arms.shapes, Arms.commands, body.map_shapes depth, arms.map_shapes kind depth]

end

mutual

/-- No line of a program is less deep than it. -/
theorem Program.le_depth {depth : Nat} {shape : Command × Nat} :
    (p : Program) → shape ∈ p.shapes depth → depth ≤ shape.2
  | .nil, h => by simp [Program.shapes] at h
  | .cons phrase rest, h => by
      rcases List.mem_append.mp h with h | h
      · exact phrase.le_depth h
      · exact rest.le_depth h

/-- No line of a phrase is less deep than the phrase. -/
theorem Phrase.le_depth {depth : Nat} {shape : Command × Nat} :
    (p : Phrase) → shape ∈ p.shapes depth → depth ≤ shape.2
  | .plain _ _, h => by simp_all [Phrase.shapes]
  | .chain kind _ body arms, h => by
      rcases List.mem_cons.mp h with rfl | h
      · exact Nat.le_refl _
      · rcases List.mem_append.mp h with h | h
        · exact body.le_depth h
        · exact arms.le_depth kind h
  | .loop _ body _, h => by
      rcases List.mem_cons.mp h with rfl | h
      · exact Nat.le_refl _
      · rcases List.mem_append.mp h with h | h
        · exact Nat.le_of_succ_le (body.le_depth h)
        · simp_all
  | .breakLoop, h => by simp_all [Phrase.shapes]
  | .continueLoop, h => by simp_all [Phrase.shapes]

/-- No line of the arms is less deep than they are. -/
theorem Arms.le_depth {depth : Nat} {shape : Command × Nat} (kind : Chain) :
    (a : Arms) → shape ∈ a.shapes kind depth → depth ≤ shape.2
  | .done, h => by simp_all [Arms.shapes]
  | .other body, h => by
      rcases List.mem_cons.mp h with rfl | h
      · exact Nat.le_refl _
      · rcases List.mem_append.mp h with h | h
        · exact body.le_depth h
        · simp_all
  | .more _ body arms, h => by
      rcases List.mem_cons.mp h with rfl | h
      · exact Nat.le_refl _
      · rcases List.mem_append.mp h with h | h
        · exact body.le_depth h
        · exact arms.le_depth kind h

end

/-! ## stepping over programs -/

/-- How many commands come before the one that divides or closes the block in
which `nesting` more are open. -/
def span (role : Command → Scan.Role) : Nat → List Command → Nat
  | _, [] => 0
  | nesting, c :: rest =>
    match role c with
    | .opens => span role (nesting + 1) rest + 1
    | .closes => if nesting = 0 then 0 else span role (nesting - 1) rest + 1
    | .divides => if nesting = 0 then 0 else span role nesting rest + 1
    | .other => span role nesting rest + 1

/-- A search looks at commands only. -/
theorem distance_eq_span (role : Command → Scan.Role) (nesting : Nat) (lines : List Line) :
    Scan.distance role nesting lines = span role nesting (lines.map (·.command)) := by
  induction lines generalizing nesting with
  | nil => rfl
  | cons l rest ih =>
      rw [List.map_cons, Scan.distance, span]
      cases role l.command <;> simp only [ih]

/-- Commands that have nothing to do with chains of a kind. -/
theorem span_other {role : Command → Scan.Role} {c : Command} (h : role c = .other)
    (nesting : Nat) (rest : List Command) :
    span role nesting (c :: rest) = span role nesting rest + 1 := by
  simp only [span, h]

/-- A plain command plays no role in a chain. -/
theorem Chain.role_plain (kind : Chain) {c : Command} (h : c.isPlain = true) :
    kind.role c = .other := by
  cases kind <;> cases c <;> first | rfl | contradiction

/-- Nor does the opener of a loop. -/
theorem Chain.role_loopOpener (kind : Chain) (opener : Opener) :
    kind.role opener.command = .other := by
  cases kind <;> cases opener <;> rfl

/-- Nor does its closer. -/
theorem Chain.role_loopCloser (kind : Chain) (closer : Closer) :
    kind.role closer.command = .other := by
  cases kind <;> cases closer <;> rfl

/-- One more block is open inside a chain of the kind that is looked for. -/
def Chain.inside (kind inner : Chain) (nesting : Nat) : Nat :=
  if kind = inner then nesting + 1 else nesting

/-- The scan goes over an opener, into its chain if it is of the same kind. -/
theorem Chain.span_opener (kind inner : Chain) (cond : Condition) (nesting : Nat)
    (rest : List Command) :
    span kind.role nesting (inner.opener cond :: rest) =
      span kind.role (kind.inside inner nesting) rest + 1 := by
  cases kind <;> cases inner <;> rfl

/-- Inside it goes over the dividers. -/
theorem Chain.span_divider (kind inner : Chain) (cond : Condition) (nesting : Nat)
    (rest : List Command) :
    span kind.role (kind.inside inner nesting) (inner.divider cond :: rest) =
      span kind.role (kind.inside inner nesting) rest + 1 := by
  cases kind <;> cases inner <;> rfl

/-- Inside it goes over the last arm. -/
theorem Chain.span_otherArm (kind inner : Chain) (nesting : Nat) (rest : List Command) :
    span kind.role (kind.inside inner nesting) (inner.other :: rest) =
      span kind.role (kind.inside inner nesting) rest + 1 := by
  cases kind <;> cases inner <;> rfl

/-- At the closer it comes out again. -/
theorem Chain.span_closer (kind inner : Chain) (nesting : Nat) (rest : List Command) :
    span kind.role (kind.inside inner nesting) (inner.closer :: rest) =
      span kind.role nesting rest + 1 := by
  cases kind <;> cases inner <;> rfl

mutual

/-- A search steps over a program. -/
theorem Program.span_append (kind : Chain) (nesting : Nat) (rest : List Command) :
    (p : Program) → span kind.role nesting (p.commands ++ rest) =
      p.commands.length + span kind.role nesting rest
  | .nil => by simp [Program.commands]
  | .cons phrase others => by
      rw [Program.commands, List.append_assoc, phrase.span_append kind, others.span_append kind,
        List.length_append, Nat.add_assoc]

/-- The scan goes over a whole phrase. -/
theorem Phrase.span_append (kind : Chain) (nesting : Nat) (rest : List Command) :
    (p : Phrase) → span kind.role nesting (p.commands ++ rest) =
      p.commands.length + span kind.role nesting rest
  | .plain command h => by
      rw [Phrase.commands, List.singleton_append, span_other (kind.role_plain h)]
      exact Nat.add_comm _ _
  | .chain inner cond body arms => by
      rw [Phrase.commands, List.cons_append, List.append_assoc, kind.span_opener,
        body.span_append kind, arms.span_append kind, List.length_cons, List.length_append]
      omega
  | .loop opener body closer => by
      rw [Phrase.commands, List.cons_append, List.append_assoc, span_other (kind.role_loopOpener _),
        body.span_append kind, List.singleton_append, span_other (kind.role_loopCloser _),
        List.length_cons, List.length_append, List.length_singleton]
      omega
  | .breakLoop => by
      rw [Phrase.commands, List.singleton_append, span_other (by cases kind <;> rfl)]
      exact Nat.add_comm _ _
  | .continueLoop => by
      rw [Phrase.commands, List.singleton_append, span_other (by cases kind <;> rfl)]
      exact Nat.add_comm _ _

/-- It goes over whole arms. -/
theorem Arms.span_append (kind : Chain) {inner : Chain} (nesting : Nat) (rest : List Command) :
    (a : Arms) → span kind.role (kind.inside inner nesting) (a.commands inner ++ rest) =
      (a.commands inner).length + span kind.role nesting rest
  | .done => by
      rw [Arms.commands, List.singleton_append, kind.span_closer]
      exact Nat.add_comm _ _
  | .other body => by
      rw [Arms.commands, List.cons_append, List.append_assoc, kind.span_otherArm,
        body.span_append kind, List.singleton_append, kind.span_closer, List.length_cons,
        List.length_append, List.length_singleton]
      omega
  | .more cond body arms => by
      rw [Arms.commands, List.cons_append, List.append_assoc, kind.span_divider,
        body.span_append kind, arms.span_append kind, List.length_cons, List.length_append]
      omega

end

/-- A search ends where the arms begin. -/
theorem Arms.span_zero (kind : Chain) (rest : List Command) (a : Arms) :
    span kind.role 0 (a.commands kind ++ rest) = 0 := by
  cases a <;> simp [Arms.commands, span]

/-! ## searches for the end of a chain -/

@[simp] theorem Program.length_shapes (depth : Nat) (p : Program) :
    (p.shapes depth).length = p.commands.length := by
  rw [← p.map_shapes depth, List.length_map]

@[simp] theorem Phrase.length_shapes (depth : Nat) (p : Phrase) :
    (p.shapes depth).length = p.commands.length := by
  rw [← p.map_shapes depth, List.length_map]

@[simp] theorem Arms.length_shapes (kind : Chain) (depth : Nat) (a : Arms) :
    (a.shapes kind depth).length = (a.commands kind).length := by
  rw [← a.map_shapes kind depth, List.length_map]

/-- The next arm of a chain comes right after a body. -/
theorem next_of_placed {lines : List Line} {kind : Chain} {body : Program} {arms : Arms}
    {k depth : Nat} (h : Placed lines (k + 1) (body.shapes depth ++ arms.shapes kind depth)) :
    Scan.next kind.role lines k = k + 1 + body.commands.length := by
  obtain ⟨rest, hc⟩ := h.commands
  rw [List.map_append, body.map_shapes, arms.map_shapes, List.append_assoc] at hc
  rw [Scan.next, distance_eq_span, hc, body.span_append kind, arms.span_zero kind]
  rfl

/-- A search for the end looks at the next dividing or closing line first. -/
theorem closer_eq {role : Command → Scan.Role} {lines : List Line} {k : Nat} {l : Line}
    (h : lines[Scan.next role lines k]? = some l) :
    Scan.closer role lines k =
      if role l.command = .closes then Scan.next role lines k
      else Scan.closer role lines (Scan.next role lines k) := by
  obtain ⟨hlt, rfl⟩ := List.getElem?_eq_some_iff.mp h
  rw [Scan.closer]
  simp only [hlt, dif_pos]

/-- A search for the arm to be taken looks at the guard of the line first. -/
theorem taken_eq {role : Command → Scan.Role} {guard : Command → Option Condition}
    {holds : Condition → Except Fault Bool} {lines : List Line} {k : Nat} {l : Line}
    (h : lines[k]? = some l) :
    Scan.taken role guard holds lines k = (match guard l.command with
      | none => .ok (k + 1)
      | some cond => match holds cond with
        | .error cause => .error cause
        | .ok true => .ok (k + 1)
        | .ok false => Scan.taken role guard holds lines (Scan.next role lines k)) := by
  obtain ⟨hlt, rfl⟩ := List.getElem?_eq_some_iff.mp h
  rw [Scan.taken]
  exact dif_pos hlt

/-- The line that closes a chain comes right after its last body. -/
theorem closer_of_placed {lines : List Line} {kind : Chain} {depth : Nat} (arms : Arms)
    {body : Program} {k : Nat}
    (h : Placed lines (k + 1) (body.shapes depth ++ arms.shapes kind depth)) :
    Scan.closer kind.role lines k + 1 =
      k + 1 + body.commands.length + (arms.commands kind).length := by
  have hdone : ∀ {body : Program} {k : Nat},
      Placed lines (k + 1) (body.shapes depth ++ Arms.shapes kind depth .done) →
      Scan.closer kind.role lines k + 1 = k + 1 + body.commands.length + 1 := by
    intro body k h
    obtain ⟨⟨l, hl, hc, -⟩, -⟩ := h.append.2.cons
    rw [Program.length_shapes, ← next_of_placed h] at hl
    rw [closer_eq hl, hc, Chain.role_closer_self, if_pos rfl, next_of_placed h]
  match arms with
  | .done => exact hdone h
  | .other others =>
      obtain ⟨⟨l, hl, hc, -⟩, hrest⟩ := h.append.2.cons
      rw [Program.length_shapes, ← next_of_placed h] at hl
      rw [Program.length_shapes] at hrest
      rw [closer_eq hl, hc, Chain.role_other_self, if_neg (by simp), next_of_placed h, hdone hrest]
      simp only [Arms.commands, List.length_cons, List.length_append, List.length_nil]
      omega
  | .more cond others arms =>
      obtain ⟨⟨l, hl, hc, -⟩, hrest⟩ := h.append.2.cons
      rw [Program.length_shapes, ← next_of_placed h] at hl
      rw [Program.length_shapes] at hrest
      rw [closer_eq hl, hc, Chain.role_divider_self, if_neg (by simp), next_of_placed h,
        closer_of_placed arms hrest]
      simp only [Arms.commands, List.length_cons, List.length_append]
      omega

/-! ## searches for the end of a loop -/

/-- The lines in front that are deeper, if the next one is not. -/
theorem length_takeWhile_deeper {ls : List Line} {n depth : Nat}
    (hdeep : ∀ i, i < n → ∃ l, ls[i]? = some l ∧ depth < l.depth)
    (hstop : ∀ l, ls[n]? = some l → l.depth ≤ depth) :
    (ls.takeWhile fun l => depth < l.depth).length = n := by
  induction n generalizing ls with
  | zero =>
      cases ls with
      | nil => rfl
      | cons l rest =>
          have hl := hstop l rfl
          simp [Nat.not_lt.mpr hl]
  | succ n ih =>
      obtain ⟨l, hl, hd⟩ := hdeep 0 (Nat.succ_pos n)
      cases ls with
      | nil => simp at hl
      | cons first rest =>
          obtain rfl : first = l := by simpa using hl
          rw [List.takeWhile_cons_of_pos (by simpa using hd), List.length_cons]
          refine congrArg (· + 1) (ih (fun i hi => ?_) fun l hl => hstop l (by simpa using hl))
          simpa using hdeep (i + 1) (Nat.succ_lt_succ hi)

/-- The search for the end of a loop stops at the first line that is not deeper. -/
theorem pastLoop_eq {lines : List Line} {start stop depth : Nat} (hlt : start < stop)
    (hdeep : ∀ i, start < i → i < stop → ∃ l, lines[i]? = some l ∧ depth < l.depth)
    (hstop : ∀ l, lines[stop]? = some l → l.depth ≤ depth) :
    Scan.pastLoop lines start depth = stop := by
  obtain ⟨n, rfl⟩ : ∃ n, stop = start + 1 + n := ⟨stop - (start + 1), by omega⟩
  rw [Scan.pastLoop, length_takeWhile_deeper]
  · intro i hi
    rw [List.getElem?_drop]
    exact hdeep _ (by omega) (by omega)
  · intro l hl
    rw [List.getElem?_drop] at hl
    exact hstop l hl

end Switchboard
