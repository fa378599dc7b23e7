import Mathlib.Logic.Relation
import Switchboard.Interpreter.Step
import Switchboard.Proofs.Interpreter.Visible
import Switchboard.Proofs.Script.Enclosing

/-!
# Switchboard.Proofs.Interpreter.Course

What one line can make of a script.

1. A `Move` is one change of the frames: going on inside of a header, entering,
   repeating or leaving a loop, calling, jumping, or returning.  Each says where
   the line stands that makes it, and where it leads.
2. What a line computes can fail in many ways, but never for want of a loop
   (`Tame`).
3. Each family of commands has its lemma (`assigning_along` to `ending_along`), and
   `execute_along` puts them together: whatever a line is, it makes moves and touches
   symbols, and only one that has gone astray is at fault for want of a loop.  Later
   proofs cite it and never open a command again.
-/

namespace Switchboard

/-! ## moves -/

/-- Where a line leads that stays in its header and its loops. -/
inductive Onward (lines : List Line) (line : Nat) (opener? : Option Nat) : Nat → Prop
  /-- The next line. -/
  | next {l : Line} : lines[line]? = some l → l.command.bracket ≠ .opens .loop →
      l.command.bracket ≠ .closes .loop → Onward lines line opener? (line + 1)
  /-- The first line of the body, if the loop has its frame. -/
  | pass {l : Line} : lines[line]? = some l → l.command.bracket = .opens .loop →
      opener? = some line → Onward lines line opener? (line + 1)
  /-- The arm of a chain that is taken. -/
  | taken (kind : Chain) {l : Line} {holds : Condition → Except Fault Bool} {dest : Nat} :
      lines[line]? = some l → l.command.bracket = .opens kind.blockKind →
      Scan.taken kind.role kind.guard holds lines line = .ok dest → Onward lines line opener? dest
  /-- The end of a chain, after one of its arms. -/
  | skipped (kind : Chain) {l : Line} :
      lines[line]? = some l → l.command.bracket = .divides kind.blockKind →
      Onward lines line opener? (Scan.closer kind.role lines line + 1)

/-- Where a line leads that leaves its innermost loop. -/
inductive Leaving (lines : List Line) (line opener : Nat) : Nat → Prop
  /-- The line after the last of the loop. -/
  | done {l : Line} : lines[line]? = some l → l.command.bracket = .closes .loop →
      Leaving lines line opener (line + 1)
  /-- The line that a search for the end of the loop finds. -/
  | broken {l : Line} : lines[line]? = some l →
      l.command = .breakLoop ∨ l.command.bracket = .opens .loop ∧ opener = line →
      Leaving lines line opener
        (Scan.pastLoop lines line (((lines[opener]?).map (·.depth)).getD 0))

/-- Where calls and jumps lead: the first line of a header, or one of its handlers. -/
def Image.Entry (image : Image) (i line : Nat) : Prop :=
  ∃ header, image.headerAt? i = some header ∧ (line = 0 ∨ ∃ event, header.event? event = some line)

namespace Interpreter

/-- One change of the frames, with room for so many. -/
inductive Move (image : Image) (room : Nat) : List Frame → List Frame → Prop
  | onward {f : Frame} {below : List Frame} {header : Header} {dest : Nat} :
      image.headerAt? f.header = some header → Onward header.lines f.line f.opener? dest →
      Move image room (f :: below) ({ f with line := dest } :: below)
  | enter {f : Frame} {below : List Frame} {header : Header} {l : Line} :
      image.headerAt? f.header = some header → header.lines[f.line]? = some l →
      l.command.bracket = .opens .loop → f.opener? ≠ some f.line → (f :: below).length < room →
      Move image room (f :: below)
        ({ f with kind := .loop f.line, index := 0, trapped := false } :: f :: below)
  | again {f : Frame} {below : List Frame} {opener : Nat} : f.opener? = some opener →
      Move image room (f :: below) ({ f with index := f.index + 1, line := opener } :: below)
  | leave {f : Frame} {below : List Frame} {header : Header} {opener dest : Nat} :
      image.headerAt? f.header = some header → f.opener? = some opener →
      Leaving header.lines f.line opener dest →
      Move image room (f :: below) (below.modifyHead fun g => { g with line := dest })
  | call {f : Frame} {below : List Frame} {header : Header} {l : Line} {kind : FrameKind}
      {i line : Nat} :
      image.headerAt? f.header = some header → header.lines[f.line]? = some l →
      l.command.bracket = .none → (∃ place, kind = .gosub place) ∨ kind = .invoke →
      image.Entry i line → (f :: below).length < room →
      Move image room (f :: below)
        (⟨i, line, kind, 0, f.mask ||| image.maskAt i, false⟩ :: f :: below)
  | goTo {frames : List Frame} {f : Frame} {below : List Frame} {i line : Nat} {trapped : Bool} :
      outsideLoops frames = f :: below → image.Entry i line →
      Move image room frames
        ({ f with
            header := i
            line
            mask := ((below[0]?).map (·.mask)).getD 0 ||| image.maskAt i
            trapped } :: below)
  | back {frames : List Frame} {f g : Frame} {below : List Frame} :
      outsideLoops frames = f :: g :: below → f.isCall = true →
      Move image room frames ({ g with line := g.line + 1 } :: below)

/-- `t` runs the script of `s`, some moves further; symbols may differ. -/
structure Course (image : Image) (s t : Interpreter) : Prop where
  moves : Relation.ReflTransGen (Move image s.limits.maxFrames) s.frames t.frames
  image : t.image = s.image
  limits : t.limits = s.limits
  status : t.status = s.status
  lastError : t.lastError = s.lastError

namespace Course

variable {image : Image} {s t u : Interpreter}

theorem refl (image : Image) (s : Interpreter) : Course image s s :=
  ⟨.refl, rfl, rfl, rfl, rfl⟩

theorem trans (h : Course image s t) (k : Course image t u) : Course image s u :=
  ⟨h.moves.trans (by rw [← h.limits]; exact k.moves), k.image.trans h.image,
    k.limits.trans h.limits, k.status.trans h.status, k.lastError.trans h.lastError⟩

/-- Symbols are no part of a course. -/
theorem withSymbols (image : Image) (s : Interpreter) (symbols : Symbols) :
    Course image s { s with symbols } := ⟨.refl, rfl, rfl, rfl, rfl⟩

/-- One move is a course. -/
theorem withFrames {frames : List Frame} (h : Move image s.limits.maxFrames s.frames frames) :
    Course image s { s with frames } := ⟨.single h, rfl, rfl, rfl, rfl⟩

end Course

/-! ## failures -/

/-- A result that does not fail for want of a loop. -/
inductive Tame {α : Type} : Except Fault α → Prop
  | ok (a : α) : Tame (.ok a)
  | error {cause : Fault} : (∀ word, cause ≠ .notInLoop word) → Tame (.error cause)

namespace Tame

variable {α β : Type} {r : Except Fault α}

/-- What does not fail for want of a loop goes on to what does not. -/
theorem bind {f : α → Except Fault β} (h : Tame r) (hf : ∀ a, Tame (f a)) : Tame (r >>= f) := by
  cases h with
  | ok a => exact hf a
  | error h => exact .error h

theorem map {f : α → β} (h : Tame r) : Tame (r.map f) := by
  cases h with
  | ok a => exact .ok (f a)
  | error h => exact .error h

/-- Arithmetic has errors of its own. -/
theorem arithmetic (r : Except Decimal.Error α) : Tame (r.mapError Fault.arithmetic) := by
  cases r with
  | ok a => exact .ok a
  | error e => exact .error (by simp)

end Tame

section
variable (s : Interpreter)

/-- An argument that has no value names a symbol that is missing. -/
theorem tame_value (arg : Argument) : Tame (s.value arg) := by
  induction arg with
  | symbol name =>
      simp only [value]
      split
      · exact .ok _
      · split
        · exact .ok _
        · exact .error (by simp)
  | keyword name arg ih => exact ih.map
  | _ => exact .ok _

theorem tame_values (args : List Argument) : Tame (s.values args) := by
  induction args with
  | nil => exact .ok _
  | cons arg rest ih => exact (tame_value s arg).bind fun _ => ih.bind fun _ => .ok _

theorem tame_concat (args : List Argument) : Tame (s.concat args) := (tame_values s args).map

theorem tame_bound (args : List (String × Argument)) : Tame (s.bound args) := by
  induction args with
  | nil => exact .ok _
  | cons arg rest ih => exact (tame_value s arg.2).bind fun _ => ih.bind fun _ => .ok _

/-- A test fails as its arguments do, or in reading a number. -/
theorem tame_test (t : Test) : Tame (s.test t) := by
  cases t with
  | compare lhs op rhs =>
      refine (tame_value s lhs).bind fun a => (tame_value s rhs).bind fun b => ?_
      cases op with
      | textual same => exact .ok _
      | numeric relation =>
          exact (Tame.arithmetic _).bind fun _ => (Tame.arithmetic _).bind fun _ => .ok _
  | empty arg =>
      simp only [test]
      split
      · exact .ok _
      · exact (tame_value s _).map
  | defined name => exact .ok _
  | value arg => exact (tame_value s arg).map

/-- A condition fails as one of its tests does. -/
theorem tame_condition (cond : Condition) : Tame (s.condition cond) := by
  unfold condition
  generalize true = result
  induction cond generalizing result with
  | nil => exact .ok _
  | cons c rest ih => exact (tame_test s c.test).bind fun _ => ih _

/-- A definition fails if there is no room for it. -/
theorem tame_define (symbols : Symbols) (scope : Scope) (name : String) (size : Option Nat) :
    Tame (symbols.define scope name size) := by
  simp only [Symbols.define, Symbols.create]
  split
  · exact .ok _
  · split
    · exact .error (by simp)
    · exact .ok _

theorem tame_assign (symbols : Symbols) (scope : Scope) (name text : String) :
    Tame (symbols.assign scope name text) := (tame_define ..).map

theorem tame_assignScoped (symbols : Symbols) (scope : Scope) (name text : String) :
    Tame (symbols.assignScoped scope name text) := (tame_define ..).map

/-- An expression fails in its arguments, in its arithmetic, or for want of room. -/
theorem tame_assignExpression (target : String) (op : Decimal.Assignment)
    (expression : List Argument) (decimals : Nat) :
    Tame (s.assignExpression target op expression decimals) := by
  simp only [assignExpression]
  split
  · exact .ok _
  · exact (tame_values s expression).bind fun _ => (Tame.arithmetic _).bind fun _ =>
      (Tame.arithmetic _).bind fun _ => (tame_assign ..).bind fun _ => .ok _

/-- A declaration fails in its arguments, or for want of room. -/
theorem tame_declare (name : String) (size : Option Nat) (args : List Argument) :
    Tame (s.declare name size args) := by
  refine (tame_concat s args).bind fun text => (tame_define ..).bind fun symbols => ?_
  split
  · exact .ok _
  · exact (tame_assignScoped ..).bind fun _ => .ok _

/-- A count fails if it is no number. -/
theorem tame_repeatDue (count : Argument) : Tame (s.repeatDue count) := by
  refine (tame_value s count).bind fun text => ?_
  split
  · exact .ok _
  · exact .error (by simp)

/-- A search for the arm to take fails as its conditions do. -/
theorem tame_taken (role : Command → Scan.Role) (guard : Command → Option Condition)
    (lines : List Line) (start : Nat) :
    Tame (Scan.taken role guard s.condition lines start) := by
  induction start using Scan.taken.induct role guard s.condition lines with
  | case1 start h hg =>
      rw [taken_eq (List.getElem?_eq_getElem h), hg]
      exact .ok _
  | case2 start h cond hg cause hc =>
      have ht := tame_condition s cond
      rw [taken_eq (List.getElem?_eq_getElem h), hg]
      dsimp only
      rw [hc] at ht ⊢
      cases ht with
      | error hw => exact .error hw
  | case3 start h cond hg hc =>
      rw [taken_eq (List.getElem?_eq_getElem h), hg]
      dsimp only
      rw [hc]
      exact .ok _
  | case4 start h cond hg hc ih =>
      rw [taken_eq (List.getElem?_eq_getElem h), hg]
      dsimp only
      rw [hc]
      exact ih
  | case5 start h =>
      rw [Scan.taken, dif_neg h]
      exact .ok _

/-- A jump fails if none of its labels is found. -/
theorem tame_resolve (image : Image) (header : Header) (targets : List Argument) :
    Tame (s.resolve image header targets) := by
  simp only [resolve]
  split
  · exact .ok _
  · exact .error (by simp)

/-- A frame more fails if there is no room for it. -/
theorem tame_push (f : Frame) : Tame (s.push f) := by
  simp only [push]
  split
  · exact .error (by simp)
  · exact .ok _

/-- A loop that is entered may find no room. -/
theorem tame_enterLoop (opener : Nat) : Tame (s.enterLoop opener) := by
  simp only [enterLoop]
  split
  · exact .ok _
  · split
    · exact .ok _
    · exact tame_push s _

end

/-! ## outcomes -/

/-- A frame of no loop stands at a line that needs one. -/
def Astray (image : Image) (frames : List Frame) : Prop :=
  ∃ f below header l, frames = f :: below ∧ f.opener? = none ∧
    image.headerAt? f.header = some header ∧ header.lines[f.line]? = some l ∧
    (l.command = .breakLoop ∨ l.command = .continueLoop ∨ l.command.bracket = .closes .loop)

/-- The innermost frame stands at a command for the host. -/
def Asking (image : Image) (frames : List Frame) (command : String) : Prop :=
  ∃ f below header l args, frames = f :: below ∧
    image.headerAt? f.header = some header ∧ header.lines[f.line]? = some l ∧
    l.command = .application command args

/-- What a line can come to that began with the frames `origin` and goes on from
the state `s`. -/
def Outcome.Along (image : Image) (origin : List Frame) (s : Interpreter) : Outcome → Prop
  | .next t => Course image s t
  | .pause t => ∃ u reason, Course image s u ∧ t = u.finish reason
  | .fault cause t => Course image s t ∧ ∀ word, cause = .notInLoop word → Astray image origin
  | .ask command _ => Asking image origin command

namespace Outcome.Along

variable {image : Image} {origin : List Frame} {s t : Interpreter}

/-- What comes after a course. -/
theorem mono {o : Outcome} (h : Course image s t) (ho : Along image origin t o) :
    Along image origin s o := by
  cases o with
  | next u => exact h.trans ho
  | fault _ u => exact ⟨h.trans ho.1, ho.2⟩
  | pause u =>
      obtain ⟨v, reason, hv, rfl⟩ := ho
      exact ⟨v, reason, h.trans hv, rfl⟩
  | ask _ _ => exact ho

/-- What fails leaves the state as it is. -/
theorem attempt {α : Type} {r : Except Fault α} {k : α → Outcome} (hr : Tame r)
    (h : ∀ a, r = .ok a → Along image origin s (k a)) : Along image origin s (attempt s r k) := by
  cases hr with
  | ok a => exact h a rfl
  | error hw => exact ⟨.refl image s, fun word he => absurd he (hw word)⟩

end Outcome.Along

/-! ## the parts of a line -/

section
variable {image : Image} {origin : List Frame} {s t : Interpreter} {f : Frame}
  {below : List Frame} {header : Header} {l : Line}

/-- Going to a line of the same header. -/
theorem jump_course (hs : s.frames = f :: below) (hf : image.headerAt? f.header = some header)
    {dest : Nat} (h : Onward header.lines f.line f.opener? dest) :
    Course image s (s.jump dest) := by
  have hjump : s.jump dest = { s with frames := { f with line := dest } :: below } := by
    simp [jump, modifyTop, hs]
  rw [hjump]
  exact .withFrames (hs ▸ .onward hf h)

/-- The next line is a jump to it. -/
theorem advance_eq_jump (hs : s.frames = f :: below) : s.advance = s.jump (f.line + 1) := by
  simp [advance, jump, modifyTop, hs]

/-- Going to the next line, in the loops of this one. -/
theorem advance_course (hs : s.frames = f :: below) (hf : image.headerAt? f.header = some header)
    (hl : header.lines[f.line]? = some l) (ho : l.command.bracket ≠ .opens .loop)
    (hc : l.command.bracket ≠ .closes .loop) : Course image s s.advance := by
  rw [advance_eq_jump hs]
  exact jump_course hs hf (.next hl ho hc)

/-- A loop that is entered has its frame. -/
theorem enterLoop_course (hs : s.frames = f :: below)
    (hf : image.headerAt? f.header = some header) (hl : header.lines[f.line]? = some l)
    (he : l.command.bracket = .opens .loop) (ht : s.enterLoop f.line = .ok t) :
    Course image s t ∧ ∃ g above, t.frames = g :: above ∧ g.header = f.header ∧
      g.line = f.line ∧ g.opener? = some f.line := by
  simp only [enterLoop, hs] at ht
  split at ht
  · next ho =>
      obtain rfl := Except.ok.inj ht
      have hjump : s.jump f.line = s := by
        cases s
        simp_all [jump, modifyTop]
      rw [hjump]
      exact ⟨.refl image s, f, below, hs, rfl, rfl, ho⟩
  · next ho =>
      simp only [push] at ht
      split at ht
      · contradiction
      · next hroom =>
          obtain rfl := Except.ok.inj ht
          refine ⟨.withFrames ?_, _, _, rfl, rfl, rfl, rfl⟩
          rw [depth, hs] at hroom
          rw [hs]
          exact .enter hf hl he ho (Nat.lt_of_not_le hroom)

/-- Going on with the body of a loop. -/
theorem pass_course (hs : s.frames = f :: below) (hf : image.headerAt? f.header = some header)
    (hl : header.lines[f.line]? = some l) (ho : f.opener? = some f.line)
    (he : l.command.bracket = .opens .loop) : Course image s s.advance := by
  rw [advance_eq_jump hs]
  exact jump_course hs hf (.pass hl he ho)

/-- Leaving a loop. -/
theorem leave_course (hs : s.frames = f :: below) (hf : image.headerAt? f.header = some header)
    {opener dest : Nat} (ho : f.opener? = some opener)
    (h : Leaving header.lines f.line opener dest) :
    Course image s (s.pop.jump dest) := by
  have hjump : s.pop.jump dest =
      { s with frames := below.modifyHead fun g => { g with line := dest } } := by
    cases below <;> simp [pop, jump, modifyTop, hs]
  rw [hjump]
  exact .withFrames (hs ▸ .leave hf ho h)

/-- The frame of a loop can be left from inside, and when no pass is due. -/
theorem breakLoop_course (hs : s.frames = f :: below)
    (hf : image.headerAt? f.header = some header) (hl : header.lines[f.line]? = some l)
    {opener : Nat} (ho : f.opener? = some opener)
    (hc : l.command = .breakLoop ∨ l.command.bracket = .opens .loop ∧ opener = f.line) :
    (s.breakLoop header).Along image origin s := by
  simp only [breakLoop, top?, hs, List.head?_cons, Option.bind_some, ho, Option.map_some]
  exact leave_course hs hf ho (.broken hl hc)

/-- A pass that is due goes on with the next line; if none is, the loop is left. -/
theorem passIf_course (hs : s.frames = f :: below)
    (hf : image.headerAt? f.header = some header) (hl : header.lines[f.line]? = some l)
    (ho : f.opener? = some f.line) (he : l.command.bracket = .opens .loop) (due : Bool) :
    (s.passIf header due).Along image origin s := by
  cases due with
  | true => exact pass_course hs hf hl ho he
  | false => exact breakLoop_course hs hf hl ho (.inr ⟨he, rfl⟩)

/-- The next pass begins, if there is a loop. -/
theorem continueLoop_course (hs : s.frames = f :: below) (command : String)
    (ha : f.opener? = none → Astray image origin) :
    (s.continueLoop command).Along image origin s := by
  cases ho : f.opener? with
  | none =>
      simp only [continueLoop, top?, hs, List.head?_cons, Option.bind_some, ho]
      exact ⟨.refl image s, fun _ _ => ha ho⟩
  | some opener =>
      simp only [continueLoop, top?, hs, List.head?_cons, Option.bind_some, ho, modifyTop]
      exact .withFrames (hs ▸ .again ho)

/-- Only frames of loops are left, and never the last frame. -/
theorem outsideLoops_spec (frames : List Frame) :
    ∃ loops, frames = loops ++ outsideLoops frames ∧ (∀ f ∈ loops, f.isLoop = true) ∧
      (frames ≠ [] → outsideLoops frames ≠ []) := by
  induction frames using outsideLoops.induct with
  | case1 f g below hl ih =>
      obtain ⟨loops, hloops, hall, hne⟩ := ih
      refine ⟨f :: loops, ?_, by simpa [hl] using hall, fun _ => ?_⟩
      · rw [outsideLoops, if_pos hl, List.cons_append, ← hloops]
      · rw [outsideLoops, if_pos hl]
        exact hne (List.cons_ne_nil _ _)
  | case2 f g below hl =>
      rw [outsideLoops, if_neg hl]
      exact ⟨[], rfl, by simp, id⟩
  | case3 frames hne =>
      have hself : outsideLoops frames = frames := by
        unfold outsideLoops
        split
        · exact absurd rfl (hne _ _ _)
        · rfl
      rw [hself]
      exact ⟨[], rfl, by simp, id⟩

/-- Leaving loops keeps the last frame. -/
theorem drop_outsideLoops (frames : List Frame) :
    (outsideLoops frames).drop ((outsideLoops frames).length - 1) =
      frames.drop (frames.length - 1) := by
  obtain ⟨loops, hloops, -, hne⟩ := outsideLoops_spec frames
  cases hout : outsideLoops frames with
  | nil =>
      have hnil : frames = [] := Decidable.not_not.mp fun h => hne h hout
      simp [hnil]
  | cons f below =>
      rw [hloops, hout]
      simp [List.drop_append]

/-- The end of a script does not depend on the loops it stands in. -/
theorem finish_leaveLoops (s : Interpreter) (reason : ExitReason) :
    s.leaveLoops.finish reason = s.finish reason := by
  simp [finish, leaveLoops, drop_outsideLoops]

/-- A header that has ended returns, or ends the script. -/
theorem returnFrom_course (s : Interpreter) : s.returnFrom.Along image origin s := by
  have hend : (Outcome.pause (s.leaveLoops.finish .exit)).Along image origin s :=
    ⟨s, .exit, .refl image s, finish_leaveLoops s .exit⟩
  unfold returnFrom
  dsimp only
  split
  · next top g below hf =>
      split
      · next hcall =>
          have hnext : s.leaveLoops.pop.advance =
              { s with frames := { g with line := g.line + 1 } :: below } := by
            simp only [advance, modifyTop, pop, hf, List.tail_cons]
            rfl
          rw [hnext]
          exact .withFrames (.back hf hcall)
      · exact hend
  · exact hend

/-- A header that is found is there. -/
theorem entry_of_indexOf? {name : String} {i : Nat} (h : image.indexOf? name = some i) :
    image.Entry i 0 := by
  obtain ⟨hi, -⟩ := List.findIdx?_eq_some_iff_getElem.mp h
  exact ⟨image.headers[i], List.getElem?_eq_getElem hi, .inl rfl⟩

/-- What a text names is there. -/
theorem entry_of_locate? (hs : s.frames = f :: below)
    (hf : image.headerAt? f.header = some header) {text : String} {i line : Nat}
    (h : s.locate? image header text = some (i, line)) : image.Entry i line := by
  unfold locate? at h
  split at h
  · next event _ =>
      obtain ⟨line', he, heq⟩ := Option.map_eq_some_iff.mp h
      obtain ⟨rfl, rfl⟩ := Prod.mk.inj heq
      refine ⟨header, ?_, .inr ⟨_, he⟩⟩
      simpa [scope, top?, hs] using hf
  · obtain ⟨i', hi, heq⟩ := Option.map_eq_some_iff.mp h
    obtain ⟨rfl, rfl⟩ := Prod.mk.inj heq
    exact entry_of_indexOf? hi

/-- A destination that is found is there. -/
theorem entry_of_resolve (hs : s.frames = f :: below)
    (hf : image.headerAt? f.header = some header) {targets : List Argument} {d : Destination}
    (h : s.resolve image header targets = .ok d) : image.Entry d.header d.line := by
  unfold resolve at h
  generalize 0 = place at h
  induction targets generalizing place with
  | nil => simp [firstOf?] at h
  | cons target rest ih =>
      unfold firstOf? at h
      split at h
      · next d' hd =>
          split at hd
          · next i line hfound =>
              obtain rfl := Option.some.inj hd
              obtain rfl := Except.ok.inj h
              obtain ⟨text, -, ht⟩ := Option.bind_eq_some_iff.mp hfound
              exact entry_of_locate? hs hf ht
          · next hnone =>
              refine ih (place + 1) ?_
              rw [hd]
              exact h
      · contradiction

/-- A call adds its frame. -/
theorem call_course (hs : s.frames = f :: below) (hf : image.headerAt? f.header = some header)
    (hl : header.lines[f.line]? = some l) (he : l.command.bracket = .none) {kind : FrameKind}
    (hk : (∃ place, kind = .gosub place) ∨ kind = .invoke) {i line : Nat}
    (hentry : image.Entry i line) (ht : s.call image kind i line = .ok t) : Course image s t := by
  unfold call push at ht
  split at ht
  · contradiction
  · next hroom =>
      obtain rfl := Except.ok.inj ht
      have hmask : s.mask = f.mask := by simp [mask, top?, hs]
      rw [depth, hs] at hroom
      rw [hmask]
      refine .withFrames ?_
      rw [hs]
      exact .call hf hl he hk hentry (Nat.lt_of_not_le hroom)

/-- A jump leaves all loops of this frame. -/
theorem goTo_course (hs : s.frames ≠ []) {d : Destination} (hentry : image.Entry d.header d.line) :
    Course image s (s.goTo image d) := by
  obtain ⟨_, -, -, hne⟩ := outsideLoops_spec s.frames
  replace hne := hne hs
  obtain ⟨g, below, hg⟩ := List.exists_cons_of_ne_nil hne
  simp only [goTo, leaveLoops, modifyTop, hg, inheritedMask]
  exact .withFrames (.goTo hg hentry)

/-- Binding the arguments of a call touches symbols only. -/
theorem bindArguments_course (s : Interpreter) (scope : Scope) (args : List (String × String)) :
    (s.bindArguments scope args).Along image origin s := by
  induction args generalizing s with
  | nil => exact .refl image s
  | cons arg rest ih =>
      obtain ⟨name, text⟩ := arg
      have ht := tame_assignScoped s.symbols scope name text
      unfold bindArguments
      cases ha : s.symbols.assignScoped scope name text with
      | error cause =>
          rw [ha] at ht
          cases ht with
          | error hw => exact ⟨.refl image s, fun word he => absurd he (hw word)⟩
      | ok symbols => exact (ih _).mono (.withSymbols image s symbols)

/-- What comes to new symbols changes nothing else. -/
theorem symbols_of_map {r : Except Fault Symbols}
    (h : (r.map fun symbols => { s with symbols }) = .ok t) :
    ∃ symbols, t = { s with symbols } := by
  cases r with
  | error cause => exact nomatch h
  | ok symbols => exact ⟨symbols, (Except.ok.inj h).symm⟩

/-- An assignment changes symbols only. -/
theorem symbols_of_assignExpression {target : String} {op : Decimal.Assignment}
    {expression : List Argument} {decimals : Nat}
    (h : s.assignExpression target op expression decimals = .ok t) :
    ∃ symbols, t = { s with symbols } :=
  symbols_of_map ((s.assignExpression_eq target op expression decimals).symm.trans h)

/-- A declaration changes symbols only. -/
theorem symbols_of_declare {name : String} {size : Option Nat} {args : List Argument}
    (h : s.declare name size args = .ok t) : ∃ symbols, t = { s with symbols } :=
  symbols_of_map ((s.declare_eq name size args).symm.trans h)

/-! ## a line -/

/-- The families of commands, by what they do to the frames. -/
inductive Family where
  | assigning
  | chaining
  | entering
  | looping
  | calling
  | ending
deriving DecidableEq

/-- The family of a command. -/
def family : Command → Family
  | .set .. | .clear _ | .declare .. | .expr .. | .index .. => .assigning
  | .branch _ | .elseBranch _ | .otherBranch | .endBranch => .chaining
  | .choice .. | .otherChoice | .endChoice => .chaining
  | .doLoop | .whileLoop _ | .repeatLoop _ | .eachLoop .. => .entering
  | .endLoop | .untilLoop _ | .breakLoop | .continueLoop => .looping
  | .goto _ | .gosub _ | .invoke .. => .calling
  | .leave | .exit | .raise _ | .application .. => .ending

section
variable (hs : s.frames = f :: below) (hf : image.headerAt? f.header = some header)
  (hl : header.lines[f.line]? = some l)
include hs hf hl

/-- A line that neither opens nor closes a loop goes on to the next one. -/
theorem next_course (ho : l.command.bracket ≠ .opens .loop) (hc : l.command.bracket ≠ .closes .loop)
    (symbols : Symbols) : Course image s { s with symbols }.advance :=
  (Course.withSymbols image s symbols).trans (advance_course hs hf hl ho hc)

/-- Values are stored, and the next line is due. -/
theorem assigning_along (h : family l.command = .assigning) :
    (s.executeLine image header f.line l.command).Along image s.frames s := by
  generalize hc : l.command = c at h
  have hnext (ho : c.bracket ≠ .opens .loop) (hcloses : c.bracket ≠ .closes .loop) :
      ∀ symbols, Course image s { s with symbols }.advance :=
    next_course hs hf hl (hc ▸ ho) (hc ▸ hcloses)
  cases c with
  | set target args =>
      exact .attempt ((tame_concat s args).bind fun _ => tame_assign ..) fun symbols _ =>
        hnext nofun nofun symbols
  | clear targets => exact hnext nofun nofun _
  | declare name size args =>
      refine .attempt (tame_declare s name size args) fun t ht => ?_
      obtain ⟨symbols, rfl⟩ := symbols_of_declare ht
      exact hnext nofun nofun symbols
  | expr target op expression =>
      refine .attempt (tame_assignExpression s target op expression _) fun t ht => ?_
      obtain ⟨symbols, rfl⟩ := symbols_of_assignExpression ht
      exact hnext nofun nofun symbols
  | index target expression =>
      refine .attempt (tame_assignExpression s target .set expression _) fun t ht => ?_
      obtain ⟨symbols, rfl⟩ := symbols_of_assignExpression ht
      exact hnext nofun nofun symbols
  | _ => contradiction

/-- A branch or a choice goes on in the same frame. -/
theorem chaining_along (h : family l.command = .chaining) :
    (s.executeLine image header f.line l.command).Along image s.frames s := by
  generalize hc : l.command = c at h
  cases c with
  | branch cond =>
      exact .attempt (tame_taken s ..) fun dest hdest =>
        jump_course hs hf (.taken .branch hl (by rw [hc]; rfl) hdest)
  | elseBranch cond | otherBranch =>
      exact jump_course hs hf (.skipped .branch hl (by rw [hc]; rfl))
  | choice cond opens =>
      cases opens with
      | true =>
          exact .attempt (tame_taken s ..) fun dest hdest =>
            jump_course hs hf (.taken .choice hl (by rw [hc]; rfl) hdest)
      | false => exact jump_course hs hf (.skipped .choice hl (by rw [hc]; rfl))
  | otherChoice => exact jump_course hs hf (.skipped .choice hl (by rw [hc]; rfl))
  | endBranch | endChoice =>
      exact next_course hs hf hl (by rw [hc]; nofun) (by rw [hc]; nofun) s.symbols
  | _ => contradiction

/-- The first line of a loop makes sure that the loop has its frame, and goes on from
there. -/
theorem enter_along (ho : l.command.bracket = .opens .loop) {k : Interpreter → Outcome}
    (hk : ∀ t g above, t.frames = g :: above → image.headerAt? g.header = some header →
      header.lines[g.line]? = some l → g.opener? = some g.line →
      (k t).Along image s.frames t) :
    (attempt s (s.enterLoop f.line) k).Along image s.frames s := by
  refine .attempt (tame_enterLoop s f.line) fun t ht => ?_
  obtain ⟨hcourse, g, above, hframes, hheader, hline, hopener⟩ := enterLoop_course hs hf hl ho ht
  exact .mono hcourse (hk t g above hframes (hheader ▸ hf) (hline ▸ hl) (hline ▸ hopener))

/-- A loop is entered, and begins a pass or is left. -/
theorem entering_along (h : family l.command = .entering) :
    (s.executeLine image header f.line l.command).Along image s.frames s := by
  generalize hc : l.command = c at h
  cases c with
  | doLoop =>
      refine enter_along hs hf hl (by rw [hc]; rfl) fun t g above ht hg hgl ho => ?_
      exact pass_course ht hg hgl ho (by rw [hc]; rfl)
  | whileLoop cond =>
      refine enter_along hs hf hl (by rw [hc]; rfl) fun t g above ht hg hgl ho => ?_
      exact .attempt (tame_condition t cond) fun due _ =>
        passIf_course ht hg hgl ho (by rw [hc]; rfl) due
  | repeatLoop count =>
      refine enter_along hs hf hl (by rw [hc]; rfl) fun t g above ht hg hgl ho => ?_
      exact .attempt (tame_repeatDue t count) fun due _ =>
        passIf_course ht hg hgl ho (by rw [hc]; rfl) due
  | eachLoop target items delimiter =>
      refine enter_along hs hf hl (by rw [hc]; rfl) fun t g above ht hg hgl ho => ?_
      refine .attempt (tame_value t items) fun text _ => ?_
      split
      · exact breakLoop_course ht hg hgl ho (.inr ⟨by rw [hc]; rfl, rfl⟩)
      · refine .attempt (tame_assign ..) fun symbols _ => ?_
        exact (Course.withSymbols image t symbols).trans
          (pass_course ht hg hgl ho (by rw [hc]; rfl))
  | _ => contradiction

/-- A line that needs a loop begins its next pass or leaves it; a frame of no loop is
astray. -/
theorem looping_along (h : family l.command = .looping) :
    (s.executeLine image header f.line l.command).Along image s.frames s := by
  generalize hc : l.command = c at h
  have hastray : c = .continueLoop ∨ c.bracket = .closes .loop →
      f.opener? = none → Astray image s.frames := fun hcase ho =>
    ⟨f, below, header, l, hs, ho, hf, hl, .inr (hc ▸ hcase)⟩
  cases c with
  | endLoop => exact continueLoop_course hs _ (hastray (.inr rfl))
  | untilLoop cond =>
      refine .attempt (tame_condition s cond) fun holds _ => ?_
      split
      · cases ho : f.opener? with
        | none =>
            simp only [top?, hs, List.head?_cons, Option.map_some, Frame.isLoop, ho]
            exact ⟨.refl image s, fun _ _ => hs ▸ hastray (.inr rfl) ho⟩
        | some opener =>
            simp only [top?, hs, List.head?_cons, Option.map_some, Frame.isLoop, ho]
            exact leave_course hs hf ho (.done hl (by rw [hc]; rfl))
      · exact continueLoop_course hs _ (hastray (.inr rfl))
  | breakLoop =>
      cases ho : f.opener? with
      | none =>
          simp only [executeLine, breakLoop, top?, hs, List.head?_cons, Option.bind_some, ho]
          exact ⟨.refl image s, fun _ _ => ⟨f, below, header, l, rfl, ho, hf, hl, .inl hc⟩⟩
      | some opener => exact breakLoop_course hs hf hl ho (.inl hc)
  | continueLoop => exact continueLoop_course hs _ (hastray (.inl rfl))
  | _ => contradiction

/-- A jump or a call goes on at the entry of a header, or at a place that it marks. -/
theorem calling_along (h : family l.command = .calling) :
    (s.executeLine image header f.line l.command).Along image s.frames s := by
  generalize hc : l.command = c at h
  cases c with
  | goto targets =>
      exact .attempt (tame_resolve s image header targets) fun d hd =>
        goTo_course (by simp [hs]) (entry_of_resolve hs hf hd)
  | gosub targets =>
      exact .attempt (tame_resolve s image header targets) fun d hd =>
        .attempt (tame_push s _) fun t ht =>
          call_course hs hf hl (by rw [hc]; rfl) (.inl ⟨_, rfl⟩) (entry_of_resolve hs hf hd) ht
  | invoke target args =>
      simp only [executeLine]
      split
      · exact ⟨.refl image s, by simp⟩
      · next i hi =>
          exact .attempt (tame_bound s args) fun bound _ => .attempt (tame_push s _) fun t ht =>
            .mono (call_course hs hf hl (by rw [hc]; rfl) (.inr rfl) (entry_of_indexOf? hi) ht)
              (bindArguments_course t _ _)
  | _ => contradiction

/-- A call or the script ends, or the host is asked. -/
theorem ending_along (h : family l.command = .ending) :
    (s.executeLine image header f.line l.command).Along image s.frames s := by
  generalize hc : l.command = c at h
  cases c with
  | leave => exact returnFrom_course s
  | exit => exact ⟨s, _, .refl image s, rfl⟩
  | raise args => exact .attempt (tame_concat s args) fun _ _ => ⟨.refl image s, by simp⟩
  | application name args =>
      exact .attempt (tame_values s args) fun _ _ => ⟨f, below, header, l, args, hs, hf, hl, hc⟩
  | _ => contradiction

/-- Whatever its command is, a line makes moves and touches symbols. -/
theorem executeLine_along :
    (s.executeLine image header f.line l.command).Along image s.frames s := by
  cases h : family l.command with
  | assigning => exact assigning_along hs hf hl h
  | chaining => exact chaining_along hs hf hl h
  | entering => exact entering_along hs hf hl h
  | looping => exact looping_along hs hf hl h
  | calling => exact calling_along hs hf hl h
  | ending => exact ending_along hs hf hl h

end

/-- The line that a script with frames stands at, if there is one, makes moves and
touches symbols. -/
theorem execute_along (image : Image) (hs : s.frames ≠ []) :
    (s.execute image).Along image s.frames s := by
  obtain ⟨f, below, hs⟩ := List.exists_cons_of_ne_nil hs
  simp only [execute, top?, hs, List.head?_cons]
  split
  · exact ⟨.refl image s, by simp⟩
  · next header hf =>
      split
      · exact returnFrom_course s
      · next l hl => exact hs ▸ executeLine_along hs hf hl

end

end Interpreter

end Switchboard
