import Switchboard.Proofs.Interpreter.Places

/-!
# Switchboard.Proofs.Interpreter.Balance

Calls and returns balance.

1. A call puts its frame on the stack.  As long as the stack is higher than it was, that
   frame is there, and the frames of its callers are as they were
   (`stays_performAll`).
2. A step takes the frame of a call from the stack in three ways only: the call returns,
   an error goes to a handler of one of the callers, or the script ends
   (`leaves_step`).  To return leaves the callers as they were, the innermost at its
   next line (`step_of_returns`).
-/

namespace Switchboard.Interpreter

/-! ## returning -/

section
variable {σ : Type} {s : Interpreter} {image : Image} {f g : Frame} {below : List Frame}

/-- A line that returns, and a header that has ended, do the same. -/
theorem execute_of_returns (h : Stacked image s.frames) (hi : s.image = some image)
    (hr : s.returns = true) : s.execute image = s.returnFrom := by
  obtain ⟨f, below, hs⟩ := List.exists_cons_of_ne_nil h.ne_nil
  obtain ⟨header, hf⟩ := Option.isSome_iff_exists.mp (h.header (f := f) (by simp [hs]))
  cases hl : header.lines[f.line]? with
  | none => simp [execute, top?, hs, hf, hl]
  | some l =>
      have hleave : l.command = .leave := by
        simpa [returns, command?_eq hi hs hf hl] using (Bool.and_eq_true_iff.mp hr).2
      rw [execute_eq hs hf hl, hleave]
      rfl

/-- A call returns out of all of its loops to the line after it. -/
theorem step_of_returns (h : s.Sound) (host : Host σ) (world : σ) (hr : s.returns = true)
    (ho : outsideLoops s.frames = f :: g :: below) (hf : f.isCall = true) :
    (s.step host world).state = { s with frames := { g with line := g.line + 1 } :: below } := by
  have hrun : s.isRunning = true := (Bool.and_eq_true_iff.mp hr).1
  obtain ⟨image, hi⟩ := Option.isSome_iff_exists.mp (h.attached hrun)
  have he : s.execute image =
      .next { s with frames := { g with line := g.line + 1 } :: below } := by
    rw [execute_of_returns (h.stacked image hi) hi hr]
    simp [returnFrom, leaveLoops, ho, hf, pop, advance, modifyTop]
  rw [step_of_running host world hrun hi]
  simp [outcomeWith, he, settled]

end

/-! ## keeping the callers -/

section
variable {σ : Type} {t : Interpreter} {image : Image} {c : Frame} {callers : List Frame}

/-- The frame of a call stays as long as the stack is higher than its callers. -/
theorem stays_performAll (h : t.Reachable) (world : σ) (ops : List (Operation σ))
    (hf : c :: callers <:+ t.frames) (hc : c.isCall = true) (hne : callers ≠ [])
    (hd : ∀ earlier, earlier <+: ops → callers.length < (t.performAll world earlier).1.depth) :
    ∃ g, g :: callers <:+ (t.performAll world ops).1.frames ∧ g.kind = c.kind := by
  induction ops generalizing t world c with
  | nil => exact ⟨c, hf, rfl⟩
  | cons op rest ih =>
      have hfirst : callers.length < (t.perform world op).1.depth := hd [op] ⟨rest, rfl⟩
      obtain ⟨g, hg, hk, -⟩ :=
        stays_perform h.sound world op hf (isLoop_of_isCall hc) hfirst (.inl hne)
      have hgc : g.isCall = true := by simpa [Frame.isCall, hk] using hc
      obtain ⟨e, he, hk'⟩ := ih (h.perform world op) _ hg hgc fun earlier hp =>
        hd (op :: earlier) (List.cons_prefix_cons.mpr ⟨rfl, hp⟩)
      exact ⟨e, he, hk'.trans hk⟩

/-- A handler found below some frames is found without them. -/
theorem trapped?_of_append {above tail after : List Frame}
    (h : trapped? image (above ++ tail) = some after) (hd : after.length ≤ tail.length) :
    trapped? image tail = some after := by
  induction above with
  | nil => exact h
  | cons f above ih =>
      rw [List.cons_append, trapped?] at h
      split at h
      · exact ih h
      · split at h
        · contradiction
        · split at h
          · obtain rfl := Option.some.inj h
            rw [List.length_cons, List.length_append] at hd
            omega
          · exact ih h

/-- How a step from `t` to `after` takes the frame of a call from the stack: the call
returns out of its loops, a handler of its callers gets an error, or the script ends. -/
inductive Leaves (callers : List Frame) (t after : Interpreter) : Prop
  | returned : t.returns = true → (outsideLoops t.frames).length = callers.length + 1 →
      after.isRunning = true →
      after.frames = callers.modifyHead (fun f => { f with line := f.line + 1 }) →
      Leaves callers t after
  | trapped {image : Image} : t.image = some image → after.isRunning = true →
      trapped? image callers = some after.frames → Leaves callers t after
  | ended (reason : ExitReason) : after.exitReason? = some reason → after.depth = 1 →
      Leaves callers t after

theorem leaves_of_continues {frames : List Frame} {after : Interpreter}
    (hi : t.image = some image) (h : Continues image frames after) (hf : c :: callers <:+ frames)
    (hd : after.depth ≤ callers.length) : Leaves callers t after := by
  cases h with
  | onward _ he =>
      have hlen := hf.length_le
      rw [depth, he] at hd
      simp at hlen
      omega
  | trapped hr ht =>
      obtain ⟨above, rfl⟩ := hf
      refine .trapped hi (by simp [isRunning, hr]) ?_
      have htrapped : trapped? image ((above ++ [c]) ++ callers) = some after.frames := by
        simpa using ht
      exact trapped?_of_append htrapped hd
  | ended reason hr he =>
      have hpos := hf.length_le
      refine .ended reason (by simp [exitReason?, hr]) ?_
      rw [depth, he, List.length_drop]
      simp at hpos
      omega

/-- A frame of no loop lies outside of the innermost loops. -/
theorem suffix_outsideLoops {frames : List Frame} (hf : c :: callers <:+ frames)
    (hl : c.isLoop = false) : c :: callers <:+ outsideLoops frames := by
  induction frames using outsideLoops.induct with
  | case1 f g below hloop ih =>
      rw [outsideLoops, if_pos hloop]
      rcases List.suffix_cons_iff.mp hf with heq | hf
      · obtain ⟨rfl, -⟩ := List.cons.inj heq
        simp [hl] at hloop
      · exact ih hf
  | case2 f g below hloop => rwa [outsideLoops, if_neg hloop]
  | case3 frames hne =>
      cases frames with
      | nil => exact hf
      | cons f below =>
          cases below with
          | nil => exact hf
          | cons g rest => exact absurd rfl (hne f g rest)

/-- There are no other ways. -/
theorem leaves_step (h : t.Sound) (host : Host σ) (world : σ)
    (hf : c :: callers <:+ t.frames) (hc : c.isCall = true)
    (hd : (t.step host world).state.depth ≤ callers.length) :
    Leaves callers t (t.step host world).state := by
  have hlen : callers.length < t.depth := by simpa [depth, Nat.succ_le_iff] using hf.length_le
  cases hr : t.isRunning with
  | false =>
      rw [step_of_not_running host world hr] at hd
      exact absurd hlen (Nat.not_lt.mpr hd)
  | true =>
      obtain ⟨image, hi⟩ := Option.isSome_iff_exists.mp (h.attached hr)
      have hstacked := h.stacked image hi
      obtain ⟨frames, hstride, hcontinues, -⟩ := step_strides host world hr hi hstacked
      by_cases hmid : callers.length < frames.length
      · obtain ⟨g, hg, -, -⟩ := (hstride.reshaped hstacked).stays hf (isLoop_of_isCall hc) hmid
        exact leaves_of_continues hi hcontinues hg hd
      · -- only a return cuts the stack before an error is raised
        have hout := suffix_outsideLoops hf (isLoop_of_isCall hc)
        have hroom := hout.length_le
        simp only [List.length_cons] at hroom
        cases hstride with
        | still => exact absurd hlen hmid
        | inside _ _ hin =>
            obtain ⟨f, below, line, ho, -, ha⟩ := hin
            obtain ⟨loops, hsplit, -, -⟩ := outsideLoops_spec frames
            rw [ho, List.length_cons] at hroom
            rw [hsplit, ha, List.length_append, List.length_cons] at hmid
            omega
        | call _ _ _ =>
            rw [List.length_cons] at hmid
            exact absurd (Nat.lt_succ_of_lt hlen) hmid
        | jump _ ho _ =>
            rw [ho, List.length_cons] at hroom
            rw [List.length_cons] at hmid
            omega
        | @back f g below hreturns ho hcall =>
            rw [ho] at hout hroom
            simp only [List.length_cons] at hroom hmid
            obtain ⟨rfl, rfl⟩ : c = f ∧ callers = g :: below :=
              List.cons.inj (hout.eq_of_length (by simp only [List.length_cons]; omega))
            rw [step_of_returns h host world hreturns ho hcall]
            exact .returned hreturns (by rw [ho]; rfl) hr rfl

/-- A call whose step leaves a higher stack has put its frame on the others. -/
theorem pushed_of_step {s : Interpreter} (h : s.Sound) (host : Host σ) (world : σ)
    (hcall : s.command?.any Command.isCall = true)
    (hd : s.depth < (s.step host world).state.depth) :
    ∃ c, (s.step host world).state.frames = c :: s.frames ∧ c.isCall = true := by
  cases hr : s.isRunning with
  | false =>
      rw [step_of_not_running host world hr] at hd
      exact absurd hd (Nat.lt_irrefl _)
  | true =>
      obtain ⟨image, hi⟩ := Option.isSome_iff_exists.mp (h.attached hr)
      have hstacked := h.stacked image hi
      obtain ⟨frames, hstride, hcontinues, -⟩ := step_strides host world hr hi hstacked
      have hlen : s.frames.length < frames.length := Nat.lt_of_lt_of_le hd hcontinues.length_le
      have hout : (outsideLoops s.frames).length ≤ s.frames.length := by
        obtain ⟨f, below, ho, -, hs⟩ := hstacked.outsideLoops
        exact ho ▸ hs.length_le
      cases hstride with
      | still => exact absurd hlen (Nat.lt_irrefl _)
      | inside hc hlocal _ =>
          simp only [hc, Option.any_some] at hcall
          unfold Command.isCall at hcall
          split at hcall <;> contradiction
      | jump _ ho _ | back _ ho _ =>
          rw [ho] at hout
          simp only [List.length_cons] at hout hlen
          omega
      | @call f _ hf _ =>
          obtain ⟨c, hc, hk, -⟩ := (hcontinues.reshaped (List.cons_ne_nil _ _)).stays
            (List.suffix_refl (f :: s.frames)) (isLoop_of_isCall hf) hd
          have hle := hcontinues.length_le
          refine ⟨c, (hc.eq_of_length_le hle).symm, ?_⟩
          simpa [Frame.isCall, hk] using hf

end

/-! ## the balance -/

/-- A call that puts its frame on the stack puts it on the frames that there were.

After any operations, as long as the stack has been higher than it was, that frame is
there, and those below it are as they were.  If the script then stands at a line that
returns, or has run off its header, with nothing but loops above that frame, the next
step leaves the frames that there were, the innermost at its next line.  Whenever a step
takes the frame from the stack, this is what has happened, or a handler of its callers
got an error, or the script has ended.

A script that has ended, for whatever reason, has its first frame only. -/
theorem calls_balance {s : Interpreter} (h : s.Reachable) :
    (∀ {σ : Type} (host : Host σ) (world : σ), s.command?.any Command.isCall = true →
      s.depth < (s.step host world).state.depth →
      ∃ c, (s.step host world).state.frames = c :: s.frames ∧ c.isCall = true ∧
        ∀ {τ : Type} (world' : τ) (ops : List (Operation τ)),
          (∀ earlier, earlier <+: ops →
            s.depth < ((s.step host world).state.performAll world' earlier).1.depth) →
          let t := ((s.step host world).state.performAll world' ops).1
          (∃ g, g :: s.frames <:+ t.frames ∧ g.kind = c.kind) ∧
          ∀ (host : Host τ) (world : τ),
            (t.returns = true → (outsideLoops t.frames).length = s.depth + 1 →
              (t.step host world).state.isRunning = true ∧
              (t.step host world).state.frames =
                s.frames.modifyHead fun f => { f with line := f.line + 1 }) ∧
            ((t.step host world).state.depth ≤ s.depth →
              Leaves s.frames t (t.step host world).state)) ∧
    ∀ reason, s.exitReason? = some reason → s.depth = 1 := by
  refine ⟨fun host world hcall hd => ?_, fun reason he => ?_⟩
  · obtain ⟨c, hc, hcalls⟩ := pushed_of_step h.sound host world hcall hd
    refine ⟨c, hc, hcalls, fun world' ops hhigh => ?_⟩
    have hne : s.frames ≠ [] := fun hnil => by simp [command?, top?, hnil] at hcall
    have hreach := h.step host world
    obtain ⟨g, hg, hk⟩ := stays_performAll hreach world' ops (hc ▸ List.suffix_refl _) hcalls hne
      hhigh
    have hgc : g.isCall = true := by simpa [Frame.isCall, hk] using hcalls
    have hsound := (hreach.performAll world' ops).sound
    refine ⟨⟨g, hg, hk⟩, fun host world =>
      ⟨fun hreturns hout => ?_, leaves_step hsound host world hg hgc⟩⟩
    obtain ⟨f, below, hframes⟩ := List.exists_cons_of_ne_nil hne
    have ho := (suffix_outsideLoops hg (isLoop_of_isCall hgc)).eq_of_length
      (by simpa [depth] using hout.symm)
    rw [hframes] at ho ⊢
    rw [step_of_returns hsound host world hreturns ho.symm hgc]
    exact ⟨(Bool.and_eq_true_iff.mp hreturns).1, rfl⟩
  · unfold exitReason? at he
    split at he
    · next hstatus => exact h.sound.ended _ hstatus
    · contradiction

/-- A header calls another one from its loop.  That one calls a third from a loop of its
own, handles an error, jumps out of a loop of its handler, and returns out of one more. -/
def deepImage : Image :=
  ⟨[⟨"main", "main",
      [⟨.doLoop, 0, 0, 2⟩, ⟨.gosub [.label "work"], 1, 0, 3⟩, ⟨.endLoop, 1, 0, 4⟩], [], 0⟩,
    ⟨"work", "main",
      [⟨.doLoop, 0, 0, 6⟩, ⟨.invoke "part" [("n", .literal "3")], 1, 0, 7⟩,
        ⟨.raise [.literal "oops"], 1, 0, 8⟩, ⟨.endLoop, 1, 0, 9⟩,
        ⟨.repeatLoop (.literal "2"), 0, 0, 11⟩, ⟨.goto [.label "rest"], 1, 0, 12⟩,
        ⟨.endLoop, 1, 0, 13⟩], [("error", 4)], 0⟩,
    ⟨"rest", "main",
      [⟨.whileLoop [⟨.first, false, .value (.literal "1")⟩], 0, 0, 15⟩, ⟨.leave, 1, 0, 16⟩,
        ⟨.endLoop, 1, 0, 17⟩], [], 0⟩,
    ⟨"part", "main", [⟨.set "x" [.symbol "n"], 0, 0, 19⟩, ⟨.leave, 0, 0, 20⟩], [], 0⟩]⟩

/-- The script, about to call from its loop. -/
def deepCall : Interpreter :=
  (((Interpreter.new .default).attach deepImage none).1.step (.silent Unit) ()).state

/-- Eight steps, at the end of which the call stands at its own return. -/
def deepSteps : List (Operation Unit) := List.replicate 8 (.step (.silent Unit))

theorem calls_balance_deep :
    deepCall.command? = some (.gosub [.label "work"]) ∧
      let t := ((deepCall.step (.silent Unit) ()).state.performAll () deepSteps).1
      t.frames.map (fun f => (f.header, f.line)) = [(2, 1), (2, 0), (0, 1), (0, 0)] ∧
      t.returns = true ∧ (t.step (.silent Unit) ()).state.isRunning = true ∧
      deepCall.frames.map (fun f => (f.header, f.line)) = [(0, 1), (0, 0)] ∧
      (t.step (.silent Unit) ()).state.frames =
        deepCall.frames.modifyHead fun f => { f with line := f.line + 1 } := by
  have hreach : deepCall.Reachable := .step _ _ (.attach _ _ (.new _))
  obtain ⟨c, -, -, hcall⟩ := (calls_balance hreach).1 (.silent Unit) () (by decide +kernel)
    (by decide +kernel)
  have hhigh : ∀ n ≤ 8, deepCall.depth <
      ((deepCall.step (.silent Unit) ()).state.performAll () (deepSteps.take n)).1.depth := by
    decide +kernel
  obtain ⟨-, hstep⟩ := hcall () deepSteps fun earlier hp => by
    rw [List.prefix_iff_eq_take.mp hp]
    exact hhigh _ hp.length_le
  obtain ⟨hrun, hframes⟩ := (hstep (.silent Unit) ()).1 (by decide +kernel) (by decide +kernel)
  exact ⟨by decide +kernel, by decide +kernel, by decide +kernel, hrun, by decide +kernel,
    hframes⟩

end Switchboard.Interpreter
