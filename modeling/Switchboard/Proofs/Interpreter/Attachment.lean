import Switchboard.Proofs.Interpreter.Course

/-!
# Switchboard.Proofs.Interpreter.Attachment

How the frames of a script are stacked, and what becomes of them.

1. A stack begins with the frame of the script itself.  A call and a loop each
   put a frame on top of another one; a call needs what its caller needs and what
   its own header needs, a loop what the frame below it needs (`Stacked`).
2. Moves keep this, and so do handlers and the end of the script, since they cut
   the stack and change nothing but lines.
3. A script that takes a step, or meets an error, goes on with frames that moves
   lead to, with those of a handler, or ends with its first frame (`Successor`).
-/

namespace Switchboard.Interpreter

/-! ## stacks -/

/-- Frames as calls and loops stack them. -/
inductive Stacked (image : Image) : List Frame → Prop
  | base {f : Frame} : f.kind = .base → (image.headerAt? f.header).isSome →
      f.mask = image.maskAt f.header → Stacked image [f]
  | call {f g : Frame} {below : List Frame} : f.isCall = true →
      (image.headerAt? f.header).isSome → f.mask = g.mask ||| image.maskAt f.header →
      Stacked image (g :: below) → Stacked image (f :: g :: below)
  | loop {f g : Frame} {below : List Frame} : f.isLoop = true → f.header = g.header →
      f.mask = g.mask → Stacked image (g :: below) → Stacked image (f :: g :: below)

/-- A frame of a call belongs to no loop. -/
theorem isLoop_of_isCall {f : Frame} (h : f.isCall = true) : f.isLoop = false := by
  unfold Frame.isCall at h
  unfold Frame.isLoop Frame.opener?
  cases hk : f.kind <;> simp_all

/-- The first frame belongs to no loop. -/
theorem isLoop_of_base {f : Frame} (h : f.kind = .base) : f.isLoop = false := by
  simp [Frame.isLoop, Frame.opener?, h]

namespace Stacked

variable {image : Image} {frames after : List Frame} {f g : Frame} {below : List Frame}

theorem ne_nil (h : Stacked image frames) : frames ≠ [] := by
  cases h <;> exact List.cons_ne_nil _ _

/-- Every frame executes a header of the image. -/
theorem header (h : Stacked image frames) (hf : f ∈ frames) :
    (image.headerAt? f.header).isSome := by
  induction h generalizing f with
  | base _ hh _ => exact List.mem_singleton.mp hf ▸ hh
  | call _ hh _ _ ih =>
      rcases List.mem_cons.mp hf with rfl | hf
      · exact hh
      · exact ih hf
  | loop _ he _ _ ih =>
      rcases List.mem_cons.mp hf with rfl | hf
      · rw [he]
        exact ih List.mem_cons_self
      · exact ih hf

/-- A frame may change in what does not tie it to the others. -/
theorem replace (h : Stacked image (f :: below)) (hk : g.kind = f.kind)
    (hh : g.header = f.header) (hm : g.mask = f.mask) : Stacked image (g :: below) := by
  cases h with
  | base hb hv he => exact .base (hk.trans hb) (hh ▸ hv) (by rw [hm, hh, he])
  | call hc hv he hs =>
      exact .call (by simpa [Frame.isCall, hk] using hc) (hh ▸ hv) (by rw [hm, hh, he]) hs
  | loop hl hv he hs =>
      exact .loop (by simpa [Frame.isLoop, Frame.opener?, hk] using hl) (hh.trans hv)
        (hm.trans he) hs

/-- What lies below a frame is stacked, if anything does. -/
theorem tail (h : Stacked image (f :: g :: below)) : Stacked image (g :: below) := by
  cases h <;> assumption

/-- Some frame lies below that of a loop. -/
theorem below_loop (h : Stacked image (f :: below)) (hl : f.isLoop = true) :
    ∃ g rest, below = g :: rest := by
  cases h with
  | base hb _ _ => simp [isLoop_of_base hb] at hl
  | call _ _ _ _ => exact ⟨_, _, rfl⟩
  | loop _ _ _ _ => exact ⟨_, _, rfl⟩

/-- A loop runs in the header of the frame below it. -/
theorem header_loop (h : Stacked image (f :: g :: below)) (hl : f.isLoop = true) :
    f.header = g.header := by
  cases h with
  | call hc _ _ _ => simp [isLoop_of_isCall hc] at hl
  | loop _ he _ _ => exact he

/-- The outer frames of a stack are stacked. -/
theorem suffix (h : Stacked image frames) (hs : f :: below <:+ frames) :
    Stacked image (f :: below) := by
  induction h with
  | base hb hv he =>
      rcases List.suffix_cons_iff.mp hs with heq | hs
      · exact heq ▸ .base hb hv he
      · simp at hs
  | call hc hv he hrest ih =>
      rcases List.suffix_cons_iff.mp hs with heq | hs
      · exact heq ▸ .call hc hv he hrest
      · exact ih hs
  | loop hl hv he hrest ih =>
      rcases List.suffix_cons_iff.mp hs with heq | hs
      · exact heq ▸ .loop hl hv he hrest
      · exact ih hs

/-- Below the loops there is a frame that belongs to none. -/
theorem outsideLoops (h : Stacked image frames) :
    ∃ f below, outsideLoops frames = f :: below ∧ f.isLoop = false ∧ f :: below <:+ frames := by
  induction h with
  | base hb _ _ => exact ⟨_, _, rfl, isLoop_of_base hb, List.suffix_refl _⟩
  | call hc _ _ _ _ =>
      have hl := isLoop_of_isCall hc
      exact ⟨_, _, by rw [Interpreter.outsideLoops, if_neg (by simp [hl])], hl,
        List.suffix_refl _⟩
  | loop hl _ _ _ ih =>
      obtain ⟨f, below, ho, hf, hs⟩ := ih
      exact ⟨f, below, by rw [Interpreter.outsideLoops, if_pos hl, ho], hf,
        hs.trans (List.suffix_cons _ _)⟩

/-- The frame below the loops may go to another header with the needs of that one. -/
theorem replace_header (h : Stacked image (f :: below)) (hl : f.isLoop = false)
    (hk : g.kind = f.kind) (hv : (image.headerAt? g.header).isSome)
    (hm : g.mask = ((below[0]?).map (·.mask)).getD 0 ||| image.maskAt g.header) :
    Stacked image (g :: below) := by
  cases h with
  | base hb _ _ => exact .base (hk.trans hb) hv (by simpa using hm)
  | call hc _ _ hs => exact .call (by simpa [Frame.isCall, hk] using hc) hv (by simpa using hm) hs
  | loop hl' _ _ _ => simp [hl] at hl'

/-- Every move keeps a stack. -/
theorem move {room : Nat} (h : Stacked image frames) (m : Move image room frames after) :
    Stacked image after := by
  cases m with
  | onward _ _ => exact h.replace (by rfl) (by rfl) (by rfl)
  | enter _ _ _ _ _ => exact .loop (by rfl) (by rfl) (by rfl) h
  | again _ => exact h.replace (by rfl) (by rfl) (by rfl)
  | leave _ ho _ =>
      obtain ⟨g, below, rfl⟩ := h.below_loop (by simp [Frame.isLoop, ho])
      exact h.tail.replace (by rfl) (by rfl) (by rfl)
  | call _ _ _ hk he _ =>
      obtain ⟨header, hv, -⟩ := he
      refine .call ?_ (by simp [hv]) (by rfl) h
      obtain ⟨place, rfl⟩ | rfl := hk <;> rfl
  | goTo hf he =>
      obtain ⟨header, hv, -⟩ := he
      obtain ⟨f, below, ho, hl, hs⟩ := h.outsideLoops
      obtain ⟨rfl, rfl⟩ := List.cons.inj (hf.symm.trans ho)
      exact (h.suffix hs).replace_header hl (by rfl) (by simp [hv]) (by rfl)
  | back hf _ =>
      obtain ⟨f, below, ho, -, hs⟩ := h.outsideLoops
      obtain ⟨rfl, rfl⟩ := List.cons.inj (hf.symm.trans ho)
      exact (h.suffix hs).tail.replace (by rfl) (by rfl) (by rfl)

theorem moves {room : Nat} (h : Stacked image frames)
    (m : Relation.ReflTransGen (Move image room) frames after) : Stacked image after := by
  induction m with
  | refl => exact h
  | tail _ m ih => exact ih.move m

/-- The first frame of a stack. -/
theorem drop (h : Stacked image frames) :
    Stacked image (frames.drop (frames.length - 1)) ∧
      (frames.drop (frames.length - 1)).length = 1 := by
  have hpos := List.length_pos_iff.mpr h.ne_nil
  have hlen : (frames.drop (frames.length - 1)).length = 1 := by
    rw [List.length_drop]
    omega
  obtain ⟨f, hf⟩ := List.length_eq_one_iff.mp hlen
  exact ⟨hf ▸ h.suffix (hf ▸ List.drop_suffix _ _), hlen⟩

end Stacked

/-- A move makes a stack higher only if there is room. -/
theorem Move.length_le {image : Image} {room : Nat} {frames after : List Frame}
    (m : Move image room frames after) : after.length ≤ max frames.length room := by
  have hout : (outsideLoops frames).length ≤ frames.length := by
    obtain ⟨loops, hloops, -⟩ := outsideLoops_spec frames
    have hlen := congrArg List.length hloops
    rw [List.length_append] at hlen
    omega
  cases m with
  | onward _ _ | again _ => exact Nat.le_max_left _ _
  | enter _ _ _ _ hroom | call _ _ _ _ _ hroom =>
      simp only [List.length_cons] at hroom ⊢
      omega
  | leave _ _ _ =>
      simp only [List.length_modifyHead, List.length_cons]
      omega
  | goTo hf _ | back hf _ =>
      simp only [hf, List.length_cons] at hout ⊢
      omega

theorem length_le_of_moves {image : Image} {room : Nat} {frames after : List Frame}
    (m : Relation.ReflTransGen (Move image room) frames after) :
    after.length ≤ max frames.length room := by
  induction m with
  | refl => exact Nat.le_max_left _ _
  | tail _ m ih =>
      have := m.length_le
      omega

/-! ## handlers -/

/-- An event goes to a frame of no loop whose header handles it. -/
theorem dispatched?_spec {image : Image} {event : String} {frames after : List Frame}
    (h : dispatched? image event frames = some after) :
    ∃ f below line, f :: below <:+ frames ∧ f.isLoop = false ∧
      handlerOf? image event f = some line ∧ after = { f with line } :: below := by
  induction frames with
  | nil => simp [dispatched?] at h
  | cons f below ih =>
      unfold dispatched? at h
      split at h
      · obtain ⟨g, rest, line, hs, hg⟩ := ih h
        exact ⟨g, rest, line, hs.trans (List.suffix_cons _ _), hg⟩
      · next hl =>
          split at h
          · next line hh =>
              exact ⟨f, below, line, List.suffix_refl _, by simpa using hl, hh,
                (Option.some.inj h).symm⟩
          · obtain ⟨g, rest, line, hs, hg⟩ := ih h
            exact ⟨g, rest, line, hs.trans (List.suffix_cons _ _), hg⟩

/-- An error goes to a frame of no loop whose header handles errors. -/
theorem trapped?_spec {image : Image} {frames after : List Frame}
    (h : trapped? image frames = some after) :
    ∃ f below line, f :: below <:+ frames ∧ f.isLoop = false ∧
      handlerOf? image "error" f = some line ∧
      after = { f with line, trapped := true } :: below := by
  induction frames with
  | nil => simp [trapped?] at h
  | cons f below ih =>
      unfold trapped? at h
      split at h
      · obtain ⟨g, rest, line, hs, hg⟩ := ih h
        exact ⟨g, rest, line, hs.trans (List.suffix_cons _ _), hg⟩
      · next hl =>
          split at h
          · contradiction
          · split at h
            · next line hh =>
                exact ⟨f, below, line, List.suffix_refl _, by simpa using hl, hh,
                  (Option.some.inj h).symm⟩
            · obtain ⟨g, rest, line, hs, hg⟩ := ih h
              exact ⟨g, rest, line, hs.trans (List.suffix_cons _ _), hg⟩

/-- The frame that a script begins with is a stack. -/
theorem Stacked.entry {image : Image} {label : String} {i : Nat}
    (hi : image.indexOf? label = some i) : Stacked image [.base i (image.maskAt i)] := by
  obtain ⟨header, hh, -⟩ := entry_of_indexOf? hi
  exact .base rfl (by simp [Frame.base, hh]) rfl

/-- Handlers keep a stack. -/
theorem Stacked.dispatched? {image : Image} {event : String} {frames after : List Frame}
    (h : Stacked image frames) (ha : dispatched? image event frames = some after) :
    Stacked image after := by
  obtain ⟨f, below, line, hs, -, -, rfl⟩ := dispatched?_spec ha
  exact (h.suffix hs).replace (by rfl) (by rfl) (by rfl)

theorem Stacked.trapped? {image : Image} {frames after : List Frame}
    (h : Stacked image frames) (ha : trapped? image frames = some after) :
    Stacked image after := by
  obtain ⟨f, below, line, hs, -, -, rfl⟩ := trapped?_spec ha
  exact (h.suffix hs).replace (by rfl) (by rfl) (by rfl)

/-! ## what becomes of a script -/

/-- `t` goes on with some frames, or with those of an error handler, or has ended. -/
inductive Continues (image : Image) (frames : List Frame) (t : Interpreter) : Prop
  | onward : t.status = .running → t.frames = frames → Continues image frames t
  | trapped : t.status = .running → trapped? image frames = some t.frames →
      Continues image frames t
  | ended (reason : ExitReason) : t.status = .exited reason →
      t.frames = frames.drop (frames.length - 1) → Continues image frames t

/-- What becomes of the running script `s`. -/
structure Successor (image : Image) (s t : Interpreter) : Prop where
  course : ∃ frames, Relation.ReflTransGen (Move image s.limits.maxFrames) s.frames frames ∧
    Continues image frames t
  image : t.image = s.image
  limits : t.limits = s.limits

namespace Successor

variable {image : Image} {s t : Interpreter}

/-- A course goes on. -/
theorem of_course (h : Course image s t) (hr : s.status = .running) : Successor image s t :=
  ⟨⟨t.frames, h.moves, .onward (h.status.trans hr) rfl⟩, h.image, h.limits⟩

/-- The end of a script after a course. -/
theorem finish (h : Course image s t) (reason : ExitReason) :
    Successor image s (t.finish reason) :=
  ⟨⟨t.frames, h.moves, .ended reason rfl rfl⟩, h.image, h.limits⟩

/-- An error after a course. -/
theorem error (h : Course image s t) (hr : s.status = .running) (hi : s.image = some image)
    (text : String) : Successor image s (t.error text).state := by
  have hrun : t.isRunning = true := by simp [isRunning, h.status, hr]
  have himage : t.image = some image := h.image.trans hi
  unfold Interpreter.error
  simp only [hrun, if_true, himage, Option.bind_some]
  split
  · next frames hf =>
      exact ⟨⟨t.frames, h.moves, .trapped (h.status.trans hr) hf⟩, hi.symm, h.limits⟩
  · exact ⟨⟨t.frames, h.moves, .ended _ rfl rfl⟩, hi.symm, h.limits⟩

/-- Moves, handlers and the end of the script keep a stack. -/
theorem stacked (h : Successor image s t) (hs : Stacked image s.frames) :
    Stacked image t.frames := by
  obtain ⟨frames, hmoves, hc⟩ := h.course
  have hframes : Stacked image frames := hs.moves hmoves
  cases hc with
  | onward _ he => exact he ▸ hframes
  | trapped _ he => exact hframes.trapped? he
  | ended _ _ he => exact he ▸ hframes.drop.1

/-- The stack of a script that goes on grows only as far as there is room. -/
theorem length_le (h : Successor image s t) (hs : Stacked image s.frames) :
    t.frames.length ≤ max s.frames.length s.limits.maxFrames := by
  obtain ⟨frames, hmoves, hc⟩ := h.course
  have hframes := length_le_of_moves hmoves
  cases hc with
  | onward _ he => exact he ▸ hframes
  | trapped _ he =>
      obtain ⟨f, below, line, hsuffix, -, -, ht⟩ := trapped?_spec he
      have hlen := hsuffix.length_le
      rw [ht]
      exact Nat.le_trans hlen hframes
  | ended _ _ he =>
      have hone := (hs.moves hmoves).drop.2
      have hpos := List.length_pos_iff.mpr hs.ne_nil
      rw [he, hone]
      omega

end Successor

/-- An error that no handler takes ends the script. -/
theorem isRunning_error (s : Interpreter) (text : String) :
    (s.error text).state.isRunning = (s.error text).handled := by
  unfold error
  split
  · next h =>
      dsimp only
      split
      · exact h
      · rfl
  · next h => simpa using h

@[simp] theorem status_trigger (s : Interpreter) (event : String) :
    (s.trigger event).1.status = s.status := by
  unfold trigger
  split
  · split <;> rfl
  · rfl

variable {image : Image} {origin : List Frame} {s : Interpreter}

/-- Settling an outcome leaves a successor. -/
theorem settled_successor {o : Outcome} (h : o.Along image origin s) (hr : s.status = .running)
    (hi : s.image = some image) : Successor image s (s.settled o).1 := by
  cases o with
  | next t => exact .of_course h hr
  | pause t =>
      obtain ⟨u, reason, hu, rfl⟩ := h
      exact .finish hu reason
  | ask _ _ => exact .of_course (.refl image s) hr
  | fault cause t =>
      simp only [settled]
      split
      · exact .of_course h.1 hr
      · exact .error h.1 hr hi cause.message

/-- Settling an outcome calls for a pause only if the script has ended. -/
theorem isRunning_settled {o : Outcome} (h : o.Along image origin s)
    (ha : ∀ c args, o ≠ .ask c args) (hp : (s.settled o).2.1 = .pause) :
    (s.settled o).1.isRunning = false := by
  cases o with
  | next t => simp [settled] at hp
  | pause t =>
      obtain ⟨u, reason, _, rfl⟩ := h
      rfl
  | ask c args => exact absurd rfl (ha c args)
  | fault cause t =>
      simp only [settled] at hp ⊢
      split at hp
      · contradiction
      · next hf =>
          rw [if_neg hf]
          rw [isRunning_error]
          simpa using hp

/-- A fault that no script can handle leaves a script that runs. -/
theorem isRunning_settled_of_broke {o : Outcome} (h : o.Along image origin s)
    (hr : s.isRunning = true) (hb : (s.settled o).2.1 = .broke) :
    (s.settled o).1.isRunning = true := by
  cases o with
  | next t | pause t | ask _ _ => simp [settled] at hb
  | fault cause t =>
      simp only [settled] at hb ⊢
      split at hb
      · next hf =>
          rw [if_pos hf]
          simpa [isRunning, h.1.status] using hr
      · split at hb <;> contradiction

end Switchboard.Interpreter
