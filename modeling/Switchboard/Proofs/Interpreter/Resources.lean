import Switchboard.Proofs.Interpreter.Reachable

/-!
# Switchboard.Proofs.Interpreter.Resources

What a script needs while it runs.

1. A header needs what its lines need, and a line with a command for the host needs
   what that command was registered with: `Compiler.inherited_summed`.
2. A frame needs what the chain of calls below it needs, and what its own header
   needs (`Frame.Needs`); so whatever is asked of the host is provided for.
-/

namespace Switchboard

/-! ## masks -/

/-- All resources of one mask are in another. -/
def Mask.Within (m n : Mask) : Prop := m &&& n = m

namespace Mask.Within

variable {l m n : Mask}

theorem refl (m : Mask) : Within m m := UInt64.and_self

theorem trans (h : Within l m) (k : Within m n) : Within l n := by
  unfold Within at *
  rw [← h, UInt64.and_assoc, k]

theorem right (m n : Mask) : Within n (m ||| n) := by
  apply UInt64.toBitVec_inj.mp
  ext i
  simp
  grind

theorem left (m n : Mask) : Within m (m ||| n) := UInt64.or_comm n m ▸ right n m

end Mask.Within

/-! ## compiled masks -/

namespace Statement

variable {keyword : String} {rest : List Token} {nest after : Nest} {line : UInt32}
  {name : String} {args : List Argument}

theorem not_application_of_simple : simple keyword rest ≠ .ok (some (.application name args)) :=
  fun h => nomatch simple_of_some h

theorem not_application_of_branching :
    branching keyword rest nest line ≠ .ok (some (.application name args, after)) :=
  fun h => nomatch branches_of_some h

theorem not_application_of_looping :
    looping keyword rest nest line ≠ .ok (some (.application name args, after)) :=
  fun h => nomatch loops_of_some h

/-- A command for the host is accepted with the mask it was registered with. -/
theorem mask_of_read {commands : Commands} {tokens : List Token} {a : Accepted}
    (h : read commands nest line tokens = .ok a) (ha : a.command = .application name args) :
    commands.mask? name = some a.mask := by
  obtain ⟨word, rest, -, hreads⟩ := reads_of_read h
  cases hreads with
  | simple hs =>
      cases ha
      exact absurd hs not_application_of_simple
  | branching _ hb =>
      cases ha
      exact absurd hb not_application_of_branching
  | looping _ _ hl =>
      cases ha
      exact absurd hl not_application_of_looping
  | application _ _ _ hmask =>
      obtain ⟨rfl, -⟩ := Command.application.inj ha
      exact hmask

end Statement

namespace Compiler

/-- The mask of a header is made of those of its lines. -/
structure Section.Summed (commands : Commands) (s : Section) : Prop where
  within : ∀ l ∈ s.header.lines, Mask.Within l.mask s.header.mask
  registered : ∀ l ∈ s.header.lines, ∀ name args, l.command = .application name args →
    commands.mask? name = some l.mask

theorem inherited_summed (commands : Commands) :
    Inherited commands (Section.Summed commands) where
  begins name file := ⟨by simp [Header.empty], by simp [Header.empty]⟩
  event s name h _ := ⟨h.within, h.registered⟩
  statement s line tokens accepted h hread := by
    refine ⟨fun l hl => ?_, fun l hl name args hc => ?_⟩ <;>
      rcases List.mem_append.mp hl with hl | hl
    · exact (h.within l hl).trans (.left _ _)
    · obtain rfl := List.mem_singleton.mp hl
      exact .right _ _
    · exact h.registered l hl name args hc
    · obtain rfl := List.mem_singleton.mp hl
      exact Statement.mask_of_read hread hc

end Compiler

/-! ## masks of frames -/

/-- A frame needs what the frame below it needs, and a call and the script itself
what their header needs as well. -/
def Frame.Needs (image : Image) (f : Frame) (below : Option Frame) : Prop :=
  match f.kind with
  | .base => f.mask = image.maskAt f.header
  | .gosub _ | .invoke => ∃ g, below = some g ∧ f.mask = g.mask ||| image.maskAt f.header
  | .loop _ => ∃ g, below = some g ∧ f.mask = g.mask

namespace Interpreter

namespace Stacked

variable {image : Image} {frames below : List Frame} {f : Frame}

/-- Every frame of a stack needs what the frames below it add up to. -/
theorem needs (h : Stacked image frames) {i : Nat} (hf : frames[i]? = some f) :
    f.Needs image frames[i + 1]? := by
  induction h generalizing i with
  | @base b hb _ hm =>
      cases i with
      | zero =>
          obtain rfl : b = f := by simpa using hf
          rw [Frame.Needs, hb]
          exact hm
      | succ i => simp at hf
  | @call c g below hc _ hm _ ih =>
      cases i with
      | zero =>
          obtain rfl : c = f := by simpa using hf
          unfold Frame.isCall at hc
          unfold Frame.Needs
          split at hc
          · next hk => rw [hk]; exact ⟨g, rfl, hm⟩
          · next hk => rw [hk]; exact ⟨g, rfl, hm⟩
          · contradiction
      | succ i => exact ih hf
  | @loop c g below hl _ hm _ ih =>
      cases i with
      | zero =>
          obtain rfl : c = f := by simpa using hf
          unfold Frame.isLoop Frame.opener? at hl
          unfold Frame.Needs
          split at hl
          · next hk => rw [hk]; exact ⟨g, rfl, hm⟩
          · contradiction
      | succ i => exact ih hf

/-- What a header needs is provided while it is executed. -/
theorem maskAt_within (h : Stacked image (f :: below)) :
    Mask.Within (image.maskAt f.header) f.mask := by
  generalize hframes : f :: below = frames at h
  induction h generalizing f below with
  | base _ _ hm =>
      obtain ⟨rfl, -⟩ := List.cons.inj hframes
      exact hm ▸ .refl _
  | call _ _ hm _ _ =>
      obtain ⟨rfl, -⟩ := List.cons.inj hframes
      exact hm ▸ .right _ _
  | loop _ hh hm _ ih =>
      obtain ⟨rfl, -⟩ := List.cons.inj hframes
      rw [hh, hm]
      exact ih rfl

end Stacked

/-- The line that asks the host for a command. -/
theorem asking_of_asked {s : Interpreter} {image : Image} (hs : s.frames ≠ [])
    (hi : s.image = some image) {command : String} {args : List String}
    (h : s.asked? = some (command, args)) : Asking image s.frames command := by
  obtain ⟨-, image', hi', he⟩ := execute_of_asked h
  obtain rfl : image = image' := Option.some.inj (hi.symm.trans hi')
  have halong := execute_along image hs
  rwa [he] at halong

/-- What a command for the host was registered with is provided when the host is
asked. -/
theorem mask_of_asked {commands : Commands} {sources : List (String × String)}
    {s : Interpreter} (hs : Stacked (compile commands sources).image s.frames)
    (hi : s.image = some (compile commands sources).image) {command : String}
    {args : List String} (h : s.asked? = some (command, args)) :
    ∃ mask, commands.mask? command = some mask ∧ mask.Within s.mask := by
  obtain ⟨f, below, header, l, args, hf, hheader, hl, hc⟩ := asking_of_asked hs.ne_nil hi h
  obtain ⟨nest, hsummed, -⟩ :=
    (Compiler.inherited_summed commands).of_mem (List.mem_of_getElem? hheader)
  have hmem := List.mem_of_getElem? hl
  have hmask : s.mask = f.mask := by simp [mask, top?, hf]
  have hat : (compile commands sources).image.maskAt f.header = header.mask := by
    simp [Image.maskAt, hheader]
  refine ⟨l.mask, hsummed.registered l hmem command _ hc, ?_⟩
  rw [hmask]
  exact (hsummed.within l hmem).trans (hat ▸ (hf ▸ hs).maskAt_within)

/-- Resources add up down the chain of calls: every frame of a script that runs
needs what the frame below it needs, and its own header if that is another one.  A
step after which to go on leaves a script that runs and needs what it needed before;
and what a command of a compiled script was registered with is provided when the
host executes it. -/
theorem resources_add_up {σ : Type} {s : Interpreter} (h : s.Reachable) (host : Host σ)
    (world : σ) :
    (s.isRunning = true → ∃ image, s.image = some image ∧
      ∀ (i : Nat) (f : Frame), s.frames[i]? = some f → f.Needs image s.frames[i + 1]?) ∧
    ((s.step host world).more = true →
      (s.step host world).state.isRunning = true ∧ (s.step host world).state.mask = s.mask) ∧
    ∀ commands sources, s.image = some (compile commands sources).image →
      ∀ command args, s.asked? = some (command, args) →
        ∃ mask, commands.mask? command = some mask ∧ mask.Within s.mask := by
  refine ⟨fun hr => ?_, fun hm => ?_, ?_⟩
  · obtain ⟨image, hi⟩ := Option.isSome_iff_exists.mp (h.sound.attached hr)
    exact ⟨image, hi, fun i f => (h.sound.stacked image hi).needs⟩
  · exact running_of_proceed (by simpa [Stepped.more] using hm)
  · intro commands sources hi command args hasked
    exact mask_of_asked (h.sound.stacked _ hi) hi hasked

/-- A script that calls another header, which records in a loop. -/
def tapeScript : List (String × String) :=
  [("main", "@main\n play a\n gosub @tape\n exit\n@tape\n repeat 2\n record b\n loop\n")]

/-- What its commands need. -/
def tapeCommands : Commands := [("play", 1), ("record", 2)]

/-- The image of it. -/
def tapeImage : Image :=
  ⟨[⟨"main", "main",
      [⟨.application "play" [.literal "a"], 0, 1, 2⟩, ⟨.gosub [.label "tape"], 0, 0, 3⟩,
        ⟨.exit, 0, 0, 4⟩], [], 1⟩,
    ⟨"tape", "main",
      [⟨.repeatLoop (.literal "2"), 0, 0, 6⟩, ⟨.application "record" [.literal "b"], 1, 2, 7⟩,
        ⟨.endLoop, 1, 0, 8⟩], [], 2⟩]⟩

/-- A host that does what it is told. -/
def obedient : Host Unit := ⟨fun _ _ world => (some .proceed, world)⟩

/-- The script, at the line that records. -/
def tapeRecording : Interpreter :=
  let begun := ((Interpreter.new .default).attach (compile tapeCommands tapeScript).image none).1
  (((begun.step obedient ()).state.step obedient ()).state.step obedient ()).state

theorem resources_add_up_tape :
    tapeRecording.isRunning = true ∧ tapeRecording.asked? = some ("record", ["b"]) ∧
      tapeRecording.frames.map (·.mask) = [3, 3, 1] ∧
      (∃ image, tapeRecording.image = some image ∧ ∀ (i : Nat) (f : Frame),
        tapeRecording.frames[i]? = some f → f.Needs image tapeRecording.frames[i + 1]?) ∧
      (tapeRecording.step obedient ()).state.mask = tapeRecording.mask ∧
      ∃ mask, tapeCommands.mask? "record" = some mask ∧ mask.Within tapeRecording.mask := by
  have himage : (compile tapeCommands tapeScript).image = tapeImage := by decide +kernel
  have hreach : tapeRecording.Reachable :=
    .step _ _ (.step _ _ (.step _ _ (.attach _ _ (.new .default))))
  obtain ⟨hneeds, hmore, hasked⟩ := resources_add_up hreach obedient ()
  have hstate : tapeRecording.isRunning = true ∧
      tapeRecording.asked? = some ("record", ["b"]) ∧
      tapeRecording.frames.map (·.mask) = [3, 3, 1] ∧
      tapeRecording.image = some tapeImage ∧ (tapeRecording.step obedient ()).more = true := by
    unfold tapeRecording
    rw [himage]
    decide +kernel
  obtain ⟨hr, ha, hmasks, hi, hm⟩ := hstate
  exact ⟨hr, ha, hmasks, hneeds hr, (hmore hm).2, hasked _ _ (himage ▸ hi) _ _ ha⟩

end Interpreter

end Switchboard
