import Switchboard.Proofs.Interpreter.Reachable

/-!
# Switchboard.Proofs.Interpreter.Mirror

The frames of loops mirror the loops around a line.

1. An activation is the frame of the script or of a call with the frames of its
   loops on top.  Where it stands at a line, its loops are those around the line; at
   the first line of a loop it may have the frame of that loop already (`Mirrors`).
2. The innermost activation mirrors its line, and every other one waits at a call,
   which stands in the same loops as the line after it (`Mirrored`).  In an image
   whose headers are well nested, moves and handlers keep this.
3. So a script that was compiled without problems never looks for a loop that is
   not there.
-/

namespace Switchboard.Interpreter

/-! ## activations -/

/-- The frames of each activation, the innermost activation first. -/
def activations : List Frame → List (List Frame)
  | [] => []
  | f :: below =>
    if f.isLoop then
      match activations below with
      | [] => [[f]]
      | a :: rest => (f :: a) :: rest
    else [f] :: activations below

/-- Nothing is left out. -/
theorem flatten_activations (frames : List Frame) : (activations frames).flatten = frames := by
  induction frames with
  | nil => rfl
  | cons f below ih =>
      unfold activations
      split
      · split
        · next h => simp [h] at ih; simp [← ih]
        · next a rest h => simp [h] at ih; simp [ih]
      · simp [ih]

/-- The loops of the innermost activation, by their first lines. -/
def innerLoops : List Frame → List Nat
  | [] => []
  | f :: below =>
    match f.opener? with
    | some opener => opener :: innerLoops below
    | none => []

theorem innerLoops_of_isLoop {f : Frame} (h : f.isLoop = false) (below : List Frame) :
    innerLoops (f :: below) = [] := by
  have ho : f.opener? = none := by simpa [Frame.isLoop] using h
  simp [innerLoops, ho]

theorem innerLoops_cons {f : Frame} {opener : Nat} (h : f.opener? = some opener)
    (below : List Frame) : innerLoops (f :: below) = opener :: innerLoops below := by
  simp [innerLoops, h]

/-- Only the kinds of frames matter. -/
theorem innerLoops_replace {f g : Frame} (h : g.kind = f.kind) (below : List Frame) :
    innerLoops (g :: below) = innerLoops (f :: below) := by
  have ho : g.opener? = f.opener? := by simp [Frame.opener?, h]
  simp [innerLoops, ho]

/-! ## the mirror -/

/-- Some loops are those around a line, or also the one that begins with it. -/
def Mirrors (lines : List Line) (n : Nat) (loops : List Nat) : Prop :=
  loops = openLoops lines n ∨
    (∃ l, lines[n]? = some l ∧ l.command.bracket = .opens .loop) ∧
      loops = n :: openLoops lines n

namespace Mirrors

variable {lines : List Line} {n : Nat} {loops : List Nat}

/-- A line that begins no loop stands in its loops. -/
theorem eq (h : Mirrors lines n loops) {l : Line} (hl : lines[n]? = some l)
    (hb : l.command.bracket ≠ .opens .loop) : loops = openLoops lines n := by
  obtain h | ⟨⟨l', hl', hb'⟩, -⟩ := h
  · exact h
  · obtain rfl : l = l' := Option.some.inj (hl.symm.trans hl')
    exact absurd hb' hb

/-- A line that begins the innermost loop stands in the loops around that one. -/
theorem eq_cons (h : Mirrors lines n (n :: loops)) : loops = openLoops lines n := by
  obtain h | ⟨-, h⟩ := h
  · exact absurd (openLoops_opener h.symm).1 (Nat.lt_irrefl n)
  · exact (List.cons.inj h).2

/-- A loop that is not entered yet can be. -/
theorem enter (h : Mirrors lines n loops) {l : Line} (hl : lines[n]? = some l)
    (hb : l.command.bracket = .opens .loop) (hne : loops.head? ≠ some n) :
    Mirrors lines n (n :: loops) := by
  obtain rfl | ⟨-, rfl⟩ := h
  · exact .inr ⟨⟨l, hl, hb⟩, rfl⟩
  · simp at hne

/-- The first line of the innermost loop mirrors it as well. -/
theorem again {opener : Nat} (h : Mirrors lines n (opener :: loops)) :
    Mirrors lines opener (opener :: loops) := by
  obtain h | ⟨hl, h⟩ := h
  · obtain ⟨-, hl, ho⟩ := openLoops_opener h.symm
    exact .inr ⟨hl, by rw [ho]⟩
  · obtain ⟨rfl, hloops⟩ := List.cons.inj h
    exact .inr ⟨hl, h⟩

end Mirrors

section
variable {header : Header} (w : header.WellNested) {n dest : Nat} {loops : List Nat}
include w

/-- Going on leads to the same loops. -/
theorem Mirrors.onward {opener? : Option Nat} (h : Mirrors header.lines n loops)
    (ho : opener? = loops.head?) (m : Onward header.lines n opener? dest) :
    Mirrors header.lines dest loops := by
  refine .inl ?_
  cases m with
  | next hl hopens hcloses =>
      rw [h.eq hl hopens, w.openLoops_succ hl]
      split
      · contradiction
      · contradiction
      · rfl
  | pass hl hb hn =>
      obtain ⟨rest, rfl⟩ := List.head?_eq_some_iff.mp (ho.symm.trans hn)
      rw [w.openLoops_succ hl, hb, ← h.eq_cons]
  | @taken kind l holds _ hl hb ht =>
      have hne : l.command.bracket ≠ .opens .loop := by
        rw [hb]
        exact fun he => kind.blockKind_ne_loop (Bracket.opens.inj he)
      have hsucc : openBlocks header.lines (n + 1) =
          (kind.blockKind, n) :: openBlocks header.lines n := by
        rw [openBlocks_succ hl, hb]
        rfl
      rw [h.eq hl hne]
      refine (w.openLoops_taken kind hl ?_ (fun _ _ => hsucc) ht).symm
      rw [openLoops, hsucc, loopsOf_cons_of_ne kind.blockKind_ne_loop]
  | @skipped kind l hl hb =>
      obtain ⟨o, outer, hblocks⟩ := (w.fits n l hl).finds kind.blockKind (.inl hb)
      have hsucc : openBlocks header.lines (n + 1) = (kind.blockKind, o) :: outer := by
        rw [openBlocks_succ hl, hb, ← hblocks]
        rfl
      have hlt := (List.getElem?_eq_some_iff.mp hl).1
      rw [h.eq hl (by simp [hb]), openLoops, openLoops, w.openBlocks_closer kind hlt hsucc,
        hblocks, loopsOf_cons_of_ne kind.blockKind_ne_loop]

/-- Leaving a loop leads to the loops around it. -/
theorem Mirrors.leave {opener : Nat} (h : Mirrors header.lines n (opener :: loops))
    (m : Leaving header.lines n opener dest) : Mirrors header.lines dest loops := by
  refine .inl ?_
  cases m with
  | done hl hb =>
      rw [w.openLoops_succ hl, hb, ← h.eq hl (by simp [hb])]
      rfl
  | @broken l hl hc =>
      -- behind the line that leaves it, the loop is still open
      have hsucc : openLoops header.lines (n + 1) = opener :: loops := by
        obtain hbreak | ⟨hb, rfl⟩ := hc
        · have hnone : l.command.bracket = .none := by rw [hbreak]; rfl
          rw [w.openLoops_succ hl, hnone, ← h.eq hl (by simp [hnone])]
        · rw [w.openLoops_succ hl, hb, ← h.eq_cons]
      obtain ⟨-, ⟨first, hopener, -⟩, hloops⟩ := openLoops_opener hsucc
      have hdepth : (((header.lines[opener]?).map (·.depth)).getD 0) = loops.length := by
        rw [hopener, Option.map_some, Option.getD_some, w.depth opener first hopener, hloops]
      rw [hdepth]
      exact (w.openLoops_pastLoop (List.getElem?_eq_some_iff.mp hl).1
        ⟨[opener], by rw [hsucc]; rfl⟩).symm

end

/-! ## mirrored stacks -/

/-- The innermost frame stands at a call, in the loops of its activation. -/
def Waits (image : Image) (frames : List Frame) : Prop :=
  ∃ f below header l, frames = f :: below ∧ image.headerAt? f.header = some header ∧
    header.lines[f.line]? = some l ∧ l.command.bracket = .none ∧
    innerLoops frames = openLoops header.lines f.line

/-- The innermost frame stands at a line whose loops its activation mirrors. -/
def Stands (image : Image) (frames : List Frame) : Prop :=
  ∃ f below header, frames = f :: below ∧ image.headerAt? f.header = some header ∧
    Mirrors header.lines f.line (innerLoops frames)

/-- Below every call there is an activation that waits for it. -/
def Awaited (image : Image) (frames : List Frame) : Prop :=
  ∀ f below, f :: below <:+ frames → f.isCall = true → Waits image below

/-- Every activation mirrors its line. -/
structure Mirrored (image : Image) (frames : List Frame) : Prop where
  stacked : Stacked image frames
  stands : Stands image frames
  awaited : Awaited image frames

namespace Awaited

variable {image : Image} {frames outer below : List Frame} {f g : Frame}

theorem suffix (h : Awaited image frames) (hs : outer <:+ frames) : Awaited image outer :=
  fun f below hf hc => h f below (hf.trans hs) hc

/-- The innermost frame may change, but not become a call. -/
theorem replace (h : Awaited image (f :: below)) (hk : g.isCall = true → f.isCall = true) :
    Awaited image (g :: below) := by
  intro c rest hs hc
  rcases List.suffix_cons_iff.mp hs with heq | hs
  · obtain ⟨rfl, rfl⟩ := List.cons.inj heq
    exact h f rest (List.suffix_refl _) (hk hc)
  · exact h c rest (hs.trans (List.suffix_cons _ _)) hc

/-- A frame may be added, if what lies below waits for a call. -/
theorem cons (h : Awaited image below) (hw : f.isCall = true → Waits image below) :
    Awaited image (f :: below) := by
  intro c rest hs hc
  rcases List.suffix_cons_iff.mp hs with heq | hs
  · obtain ⟨rfl, rfl⟩ := List.cons.inj heq
    exact hw hc
  · exact h c rest hs hc

end Awaited

/-- The headers of an image are well nested. -/
def Tidy (image : Image) : Prop := ∀ h ∈ image.headers, h.WellNested

theorem Tidy.at {image : Image} (w : Tidy image) {i : Nat} {header : Header}
    (h : image.headerAt? i = some header) : header.WellNested := w header (List.mem_of_getElem? h)

section
variable {image : Image} (w : Tidy image) {frames after below : List Frame} {f : Frame}
include w

/-- No loop is open where calls and jumps lead. -/
theorem stands_of_entry {i line : Nat} (he : image.Entry i line) (hf : f.header = i)
    (hl : f.line = line) (hloop : f.isLoop = false) : Stands image (f :: below) := by
  obtain ⟨header, hi, hline⟩ := he
  refine ⟨f, below, header, rfl, hf ▸ hi, ?_⟩
  rw [innerLoops_of_isLoop hloop, hl]
  refine .inl ?_
  obtain rfl | ⟨event, he⟩ := hline
  · rfl
  · rw [openLoops, (w.at hi).handlers event line he]
    rfl

/-- Every move leads to a line that the innermost activation mirrors. -/
theorem Mirrored.stands_move {room : Nat} (h : Mirrored image frames)
    (m : Move image room frames after) : Stands image after := by
  obtain ⟨f, below, header, rfl, hf, hm⟩ := h.stands
  cases m with
  | onward hf' ho =>
      obtain rfl := Option.some.inj (hf.symm.trans hf')
      refine ⟨_, _, header, rfl, hf, ?_⟩
      rw [innerLoops_replace (f := f) (by rfl)]
      refine hm.onward (w.at hf) ?_ ho
      cases hopener : f.opener? <;> simp [innerLoops, hopener]
  | enter hf' hl hb hne _ =>
      obtain rfl := Option.some.inj (hf.symm.trans hf')
      refine ⟨_, _, header, rfl, hf, ?_⟩
      rw [innerLoops_cons (by rfl)]
      refine hm.enter hl hb ?_
      cases hopener : f.opener? with
      | none => simp [innerLoops, hopener]
      | some opener => simpa [innerLoops, hopener] using hne
  | again hopener =>
      refine ⟨_, _, header, rfl, hf, ?_⟩
      rw [innerLoops_replace (f := f) (by rfl)]
      rw [innerLoops_cons hopener] at hm ⊢
      exact hm.again
  | leave hf' hopener hleave =>
      obtain rfl := Option.some.inj (hf.symm.trans hf')
      have hloop : f.isLoop = true := by simp [Frame.isLoop, hopener]
      obtain ⟨g, rest, rfl⟩ := h.stacked.below_loop hloop
      rw [List.modifyHead_cons]
      refine ⟨_, _, header, rfl, h.stacked.header_loop hloop ▸ hf, ?_⟩
      rw [innerLoops_replace (f := g) (by rfl)]
      rw [innerLoops_cons hopener] at hm
      exact hm.leave (w.at hf) hleave
  | call _ _ _ hk he _ =>
      refine stands_of_entry w he (by rfl) (by rfl) ?_
      obtain ⟨place, rfl⟩ | rfl := hk <;> rfl
  | goTo hout he =>
      obtain ⟨g, rest, hout', hloop, -⟩ := h.stacked.outsideLoops
      obtain ⟨rfl, rfl⟩ := List.cons.inj (hout.symm.trans hout')
      exact stands_of_entry w he (by rfl) (by rfl) hloop
  | @back _ c g rest hout hc =>
      obtain ⟨c', rest', hout', -, hs⟩ := h.stacked.outsideLoops
      obtain ⟨rfl, rfl⟩ := List.cons.inj (hout.symm.trans hout')
      obtain ⟨g', rest', header', l, heq, hf', hl, hb, hloops⟩ := h.awaited _ _ hs hc
      obtain ⟨rfl, rfl⟩ := List.cons.inj heq
      refine ⟨_, _, header', rfl, hf', .inl ?_⟩
      rw [innerLoops_replace (f := g) (by rfl), hloops, (w.at hf').openLoops_succ hl, hb]

omit w in
/-- Every move leaves the other activations waiting, and a call leaves its own. -/
theorem Mirrored.awaited_move {room : Nat} (h : Mirrored image frames)
    (m : Move image room frames after) : Awaited image after := by
  cases m with
  | onward _ _ => exact h.awaited.replace id
  | enter _ _ _ _ _ => exact h.awaited.cons fun hc => by simp [Frame.isCall] at hc
  | again _ => exact h.awaited.replace id
  | leave _ hopener _ =>
      obtain ⟨g, rest, rfl⟩ := h.stacked.below_loop (by simp [Frame.isLoop, hopener])
      exact (h.awaited.suffix (List.suffix_cons _ _)).replace id
  | @call f below header l _ _ _ hf hl hb _ _ _ =>
      refine h.awaited.cons fun _ => ⟨f, below, header, l, rfl, hf, hl, hb, ?_⟩
      obtain ⟨g, rest, header', heq, hf', hm⟩ := h.stands
      obtain ⟨rfl, rfl⟩ := List.cons.inj heq
      obtain rfl := Option.some.inj (hf.symm.trans hf')
      exact hm.eq hl (by simp [hb])
  | goTo hout _ =>
      obtain ⟨g, rest, hout', -, hs⟩ := h.stacked.outsideLoops
      obtain ⟨rfl, rfl⟩ := List.cons.inj (hout.symm.trans hout')
      exact (h.awaited.suffix hs).replace id
  | back hout _ =>
      obtain ⟨c, rest, hout', -, hs⟩ := h.stacked.outsideLoops
      obtain ⟨rfl, rfl⟩ := List.cons.inj (hout.symm.trans hout')
      exact ((h.awaited.suffix hs).suffix (List.suffix_cons _ _)).replace id

/-- Every move keeps the mirror. -/
theorem Mirrored.move {room : Nat} (h : Mirrored image frames) (m : Move image room frames after) :
    Mirrored image after := ⟨h.stacked.move m, h.stands_move w m, h.awaited_move m⟩

theorem Mirrored.moves {room : Nat} (h : Mirrored image frames)
    (m : Relation.ReflTransGen (Move image room) frames after) : Mirrored image after := by
  induction m with
  | refl => exact h
  | tail _ m ih => exact ih.move w m

/-- Handlers keep the mirror: they begin outside of all loops. -/
theorem Mirrored.handled (h : Mirrored image frames) {g : Frame} {event : String} {line : Nat}
    (hs : f :: below <:+ frames) (hloop : f.isLoop = false)
    (hline : handlerOf? image event f = some line) (hk : g.kind = f.kind)
    (hh : g.header = f.header) (hm : g.mask = f.mask) (hg : g.line = line) :
    Mirrored image (g :: below) := by
  obtain ⟨header, hf, he⟩ := Option.bind_eq_some_iff.mp hline
  refine ⟨(h.stacked.suffix hs).replace hk hh hm, ?_, (h.awaited.suffix hs).replace ?_⟩
  · refine stands_of_entry w ⟨header, hf, .inr ⟨event, he⟩⟩ hh hg ?_
    simpa [Frame.isLoop, Frame.opener?, hk] using hloop
  · simp [Frame.isCall, hk]

theorem Mirrored.dispatched? (h : Mirrored image frames) {event : String}
    (ha : Interpreter.dispatched? image event frames = some after) : Mirrored image after := by
  obtain ⟨f, below, line, hs, hloop, hline, rfl⟩ := dispatched?_spec ha
  exact h.handled w hs hloop hline (by rfl) (by rfl) (by rfl) (by rfl)

theorem Mirrored.trapped? (h : Mirrored image frames)
    (ha : Interpreter.trapped? image frames = some after) : Mirrored image after := by
  obtain ⟨f, below, line, hs, hloop, hline, rfl⟩ := trapped?_spec ha
  exact h.handled w hs hloop hline (by rfl) (by rfl) (by rfl) (by rfl)

/-- A script that begins is at the first line of its header, outside of all loops. -/
theorem Mirrored.entry {label : String} {i : Nat} (hi : image.indexOf? label = some i) :
    Mirrored image [.base i (image.maskAt i)] := by
  refine ⟨.entry hi, stands_of_entry w (entry_of_indexOf? hi) rfl rfl rfl, ?_⟩
  intro f below hsuffix hc
  obtain ⟨rfl, rfl⟩ := List.cons.inj ((List.suffix_cons_iff.mp hsuffix).resolve_right (by simp))
  simp [Frame.base, Frame.isCall] at hc

/-- A script that goes on keeps the mirror. -/
theorem Successor.mirrored {s t : Interpreter} (ht : Successor image s t)
    (h : Mirrored image s.frames) (hr : t.isRunning = true) : Mirrored image t.frames := by
  obtain ⟨frames, hmoves, hc⟩ := ht.course
  have hframes := h.moves w hmoves
  cases hc with
  | onward _ he => exact he ▸ hframes
  | trapped _ he => exact hframes.trapped? w he
  | ended _ hstatus _ => simp [isRunning, hstatus] at hr

/-- Whatever operations lead to, a script that runs mirrors its source. -/
theorem Reachable.mirrored {s : Interpreter} (h : s.Reachable) (hi : s.image = some image)
    (hr : s.isRunning = true) : Mirrored image s.frames := by
  induction h with
  | new limits => simp [Interpreter.new] at hi
  | @attach s image' entry hs ih =>
      cases hentry : image'.indexOf? (entry.getD defaultEntry) with
      | none =>
          have hself : (s.attach image' entry).1 = s := by simp [Interpreter.attach, hentry]
          rw [hself] at hi hr ⊢
          exact ih hi hr
      | some i =>
          have himage : image' = image := by simpa [Interpreter.attach, hentry] using hi
          subst himage
          rw [hs.sound.frames_attach hentry]
          exact .entry w hentry
  | detach _ _ => simp [Interpreter.detach] at hi
  | @setSymbol s t name value hs ht ih =>
      obtain ⟨symbols, rfl⟩ := symbols_of_setSymbol ht
      exact ih hi hr
  | @step σ s host world hs ih =>
      cases hrun : s.isRunning with
      | false => simp [step_of_not_running host world hrun, hrun] at hr
      | true =>
          obtain ⟨image', hi'⟩ := Option.isSome_iff_exists.mp (hs.sound.attached hrun)
          have ht := step_successor host world hrun hi' (hs.sound.stacked image' hi').ne_nil
          obtain rfl : image' = image := Option.some.inj ((ht.image.trans hi').symm.trans hi)
          exact ht.mirrored w (ih hi' hrun) hr
  | @trigger s event hs ih =>
      unfold Interpreter.trigger at hi hr ⊢
      split at hi
      · next hrun =>
          rw [if_pos hrun] at hr ⊢
          split at hi
          · next frames hf =>
              obtain ⟨image', hi', hf⟩ := Option.bind_eq_some_iff.mp hf
              obtain rfl : image' = image := Option.some.inj (hi'.symm.trans hi)
              exact (ih hi hrun).dispatched? w hf
          · exact ih hi hrun
      · next hrun =>
          rw [if_neg hrun] at hr ⊢
          exact ih hi hr
  | @error s text hs ih =>
      cases hrun : s.isRunning with
      | false => simp [Interpreter.error, hrun] at hr
      | true =>
          have hstatus : s.status = .running := by simpa [isRunning] using hrun
          obtain ⟨image', hi'⟩ := Option.isSome_iff_exists.mp (hs.sound.attached hrun)
          have ht := Successor.error (.refl image' s) hstatus hi' text
          obtain rfl : image' = image := Option.some.inj ((ht.image.trans hi').symm.trans hi)
          exact ht.mirrored w (ih hi' hrun) hr

end

/-! ## scripts that run -/

/-- The frame of the script or of a call, with those of loops on top. -/
def IsActivation (a : List Frame) : Prop :=
  ∃ loops root, a = loops ++ [root] ∧ (∀ f ∈ loops, f.isLoop = true) ∧ root.isLoop = false

/-- `a` are the frames of the innermost activation of `frames`. -/
structure Innermost (a frames : List Frame) : Prop where
  shape : IsActivation a
  head : a.head? = frames.head?
  loops : a.filterMap Frame.opener? = innerLoops frames
  header : ∀ f ∈ a, ∀ g ∈ frames.head?, f.header = g.header

/-- The first activation is the innermost; every other one is so below a call. -/
theorem Stacked.activations {image : Image} {frames : List Frame} (h : Stacked image frames) :
    ∃ a rest, activations frames = a :: rest ∧ Innermost a frames ∧
      ∀ b ∈ rest, ∃ c below, c :: below <:+ frames ∧ c.isCall = true ∧ Innermost b below := by
  have hsingle : ∀ {f : Frame} (below : List Frame), f.isLoop = false →
      Innermost [f] (f :: below) := by
    intro f below hl
    have ho : f.opener? = none := by simpa [Frame.isLoop] using hl
    exact ⟨⟨[], f, rfl, by simp, hl⟩, rfl, by simp [innerLoops, ho], by simp⟩
  induction h with
  | @base f hb _ _ =>
      have hl := isLoop_of_base hb
      exact ⟨[f], [], by simp [Interpreter.activations, hl], hsingle [] hl, by simp⟩
  | @call f g below hc _ _ _ ih =>
      have hl := isLoop_of_isCall hc
      obtain ⟨a, rest, ha, hinner, hrest⟩ := ih
      refine ⟨[f], a :: rest, by rw [Interpreter.activations, if_neg (by simp [hl]), ha],
        hsingle _ hl, ?_⟩
      intro b hb
      rcases List.mem_cons.mp hb with rfl | hb
      · exact ⟨f, g :: below, List.suffix_refl _, hc, hinner⟩
      · obtain ⟨c, outer, hs, hcall, hb⟩ := hrest b hb
        exact ⟨c, outer, hs.trans (List.suffix_cons _ _), hcall, hb⟩
  | @loop f g below hl hh _ _ ih =>
      obtain ⟨a, rest, ha, hinner, hrest⟩ := ih
      obtain ⟨opener, ho⟩ := Option.isSome_iff_exists.mp hl
      obtain ⟨loops, root, hshape, hloops, hroot⟩ := hinner.shape
      refine ⟨f :: a, rest, by rw [Interpreter.activations, if_pos hl, ha],
        ⟨⟨f :: loops, root, by rw [hshape]; rfl, ?_, hroot⟩, rfl, ?_, ?_⟩, ?_⟩
      · simpa [hl] using hloops
      · rw [List.filterMap_cons_some ho, hinner.loops, innerLoops_cons ho]
      · intro c hc
        have hfg : ∀ c ∈ f :: a, c.header = f.header := by
          simpa [hh] using fun c hc => hinner.header c hc
        simpa using hfg c hc
      · intro b hb
        obtain ⟨c, outer, hs, hb⟩ := hrest b hb
        exact ⟨c, outer, hs.trans (List.suffix_cons _ _), hb⟩

/-- The frames of an activation execute one header; their loops, innermost first,
are those around the line where the activation stands, or also the one that begins
with it. -/
def Reflects (image : Image) (a : List Frame) : Prop :=
  IsActivation a ∧ ∃ top header, a.head? = some top ∧ image.headerAt? top.header = some header ∧
    (∀ f ∈ a, f.header = top.header) ∧
    Mirrors header.lines top.line (a.filterMap Frame.opener?)

theorem Innermost.reflects {image : Image} {a frames : List Frame} (h : Innermost a frames)
    (hs : Stands image frames) : Reflects image a := by
  obtain ⟨f, below, header, rfl, hf, hm⟩ := hs
  exact ⟨h.shape, f, header, h.head, hf, fun g hg => h.header g hg f rfl, h.loops ▸ hm⟩

theorem Waits.stands {image : Image} {frames : List Frame} (h : Waits image frames) :
    Stands image frames := by
  obtain ⟨f, below, header, l, hframes, hf, -, -, hloops⟩ := h
  exact ⟨f, below, header, hframes, hf, .inl hloops⟩

/-- Every activation of a mirrored stack reflects its source. -/
theorem Mirrored.reflects {image : Image} {frames : List Frame} (h : Mirrored image frames) :
    ∀ a ∈ activations frames, Reflects image a := by
  obtain ⟨a, rest, ha, hinner, hrest⟩ := h.stacked.activations
  intro b hb
  rw [ha] at hb
  rcases List.mem_cons.mp hb with rfl | hb
  · exact hinner.reflects h.stands
  · obtain ⟨c, below, hs, hc, hb⟩ := hrest b hb
    exact hb.reflects (h.awaited c below hs hc).stands

/-- No frame goes astray in a mirrored stack. -/
theorem Mirrored.not_astray {image : Image} (w : Tidy image) {frames : List Frame}
    (h : Mirrored image frames) : ¬ Astray image frames := by
  rintro ⟨f, below, header, l, rfl, ho, hf, hl, hc⟩
  obtain ⟨g, rest, header', heq, hf', hm⟩ := h.stands
  obtain ⟨rfl, rfl⟩ := List.cons.inj heq
  obtain rfl := Option.some.inj (hf.symm.trans hf')
  have hfits := (w.at hf).fits f.line l hl
  have hnone : innerLoops (f :: below) = [] := innerLoops_of_isLoop (by simp [Frame.isLoop, ho]) _
  have hopens : l.command.bracket ≠ .opens .loop := by
    rintro hb
    rcases hc with hc | hc | hc
    · simp [hc, Command.bracket] at hb
    · simp [hc, Command.bracket] at hb
    · simp [hc] at hb
  have hempty := hm.eq hl hopens
  rw [hnone] at hempty
  rcases hc with hc | hc | hc
  · exact hfits.leaves (.inl hc) hempty.symm
  · exact hfits.leaves (.inr hc) hempty.symm
  · obtain ⟨o, outer, hb⟩ := hfits.finds .loop (.inr hc)
    simp [openLoops, hb] at hempty

/-- The frames of loops mirror the source.  Take a script that was compiled without
problems, its loops not standing in more of each other than the compiler counts.
Whatever operations lead to, while it runs, the frames of every activation execute
one header, and their loops are those around the line where it stands, or also the
one that begins there, if its next pass is about to begin.  So no line is ever at
fault for want of a loop. -/
theorem loops_mirror_source {commands : Commands} {sources : List (String × String)}
    (hc : (compile commands sources).isClean = true)
    (hb : ∀ h ∈ (compile commands sources).image.headers, ∀ n,
      (openLoops h.lines n).length < Nest.depthBound)
    {s : Interpreter} (hs : s.Reachable) (hi : s.image = some (compile commands sources).image)
    (hr : s.isRunning = true) :
    (activations s.frames).flatten = s.frames ∧
    (∀ a ∈ activations s.frames, Reflects (compile commands sources).image a) ∧
    ∀ (σ : Type) (host : Host σ) (world : σ) (word : String) (t : Interpreter),
      (s.outcomeWith (compile commands sources).image host world).1 ≠
        .fault (.notInLoop word) t := by
  have w : Tidy (compile commands sources).image :=
    fun h hh => wellNested_of_isClean hc hh (hb h hh)
  have hm := hs.mirrored w hi hr
  refine ⟨flatten_activations _, hm.reflects, fun σ host world word t he => ?_⟩
  rcases outcomeWith_along (compile commands sources).image host world hm.stacked.ne_nil with
    ⟨h, -⟩ | ⟨_, _, _, _, h, -⟩
  · rw [he] at h
    exact hm.not_astray w (h.2 word rfl)
  · rw [he] at h
    contradiction

/-- A script whose loops stand in each other, and call another header. -/
def nestScript : List (String × String) :=
  [("main",
    "@main\n repeat 2\n gosub @inner\n loop\n@inner\n while 1\n repeat 3\n set x a\n loop\n loop\n")]

/-- The image of it. -/
def nestImage : Image :=
  ⟨[⟨"main", "main",
      [⟨.repeatLoop (.literal "2"), 0, 0, 2⟩, ⟨.gosub [.label "inner"], 1, 0, 3⟩,
        ⟨.endLoop, 1, 0, 4⟩], [], 0⟩,
    ⟨"inner", "main",
      [⟨.whileLoop [⟨.first, false, .value (.literal "1")⟩], 0, 0, 6⟩,
        ⟨.repeatLoop (.literal "3"), 1, 0, 7⟩, ⟨.set "x" [.literal "a"], 2, 0, 8⟩,
        ⟨.endLoop, 2, 0, 9⟩, ⟨.endLoop, 1, 0, 10⟩], [], 0⟩]⟩

/-- The script, about to begin the second pass of its innermost loop. -/
def nestAgain : Interpreter :=
  let next (s : Interpreter) := (s.step (.silent Unit) ()).state
  next (next (next (next (next (next
    ((Interpreter.new .default).attach (compile [] nestScript).image none).1)))))

theorem loops_mirror_source_nest :
    (activations nestAgain.frames).map (·.map fun f => (f.line, f.opener?)) =
        [[(1, some 1), (1, some 0), (0, none)], [(1, some 0), (0, none)]] ∧
      (∀ a ∈ activations nestAgain.frames, Reflects (compile [] nestScript).image a) ∧
      ∀ word t, (nestAgain.outcomeWith (compile [] nestScript).image (.silent Unit) ()).1 ≠
        .fault (.notInLoop word) t := by
  obtain ⟨hclean, himage⟩ : (compile [] nestScript).isClean = true ∧
      (compile [] nestScript).image = nestImage := by decide +kernel
  have hdepths : ∀ h ∈ (compile [] nestScript).image.headers, ∀ n,
      (openLoops h.lines n).length < Nest.depthBound := by
    rw [himage]
    intro h hh n
    have hshort : ∀ h ∈ nestImage.headers, h.lines.length < Nest.depthBound := by decide
    exact Nat.lt_of_le_of_lt (length_openLoops_le h.lines n) (hshort h hh)
  have hreach : nestAgain.Reachable :=
    .step _ _ (.step _ _ (.step _ _ (.step _ _ (.step _ _ (.step _ _
      (.attach _ _ (.new .default)))))))
  have hstate : nestAgain.image = some nestImage ∧ nestAgain.isRunning = true ∧
      (activations nestAgain.frames).map (·.map fun f => (f.line, f.opener?)) =
        [[(1, some 1), (1, some 0), (0, none)], [(1, some 0), (0, none)]] := by
    unfold nestAgain
    rw [himage]
    decide +kernel
  obtain ⟨-, hreflects, hfault⟩ :=
    loops_mirror_source hclean hdepths hreach (himage ▸ hstate.1) hstate.2.1
  exact ⟨hstate.2.2, hreflects, hfault Unit _ _⟩

end Switchboard.Interpreter
