import Switchboard.Proofs.Interpreter.Failure
import Switchboard.Proofs.Interpreter.Stride
import Switchboard.Proofs.Symbols.Given

/-!
# Switchboard.Proofs.Interpreter.Invocation

Calls with arguments.

1. A header that is called gets all of its arguments if they fit, and else those before
   the first that finds no room (`bindArguments_spec`).
2. Whatever else can go wrong does so before the call has its frame.  So a call without
   enough room is the only one that fails half way: its error comes up in the header
   that was called, which has some of its arguments by then
   (`call_all_or_nothing_iff`).
-/

namespace Switchboard

namespace Interpreter

/-! ## arguments -/

/-- What becomes of arguments: the header gets all of them, or those before the first
that finds no room. -/
theorem bindArguments_spec (s : Interpreter) (scope : Scope) (args : List (String × String)) :
    (s.symbols.Fits scope args ∧ ∃ symbols,
        s.bindArguments scope args = .next { s with symbols } ∧
        ∀ key, symbols.declared? key.1 key.2 = s.symbols.given scope args key) ∨
      (¬ s.symbols.Fits scope args ∧ ∃ before name text after symbols,
        args = before ++ (name, text) :: after ∧
        s.bindArguments scope args =
          .fault (.symbolSpaceExhausted s.symbols.limit) { s with symbols } ∧
        ∀ key, symbols.declared? key.1 key.2 = s.symbols.given scope before key) := by
  induction args generalizing s with
  | nil =>
      exact .inl ⟨.inl rfl, s.symbols, rfl, fun key => (Symbols.given_nil _ scope key).symm⟩
  | cons arg rest ih =>
      obtain ⟨name, text⟩ := arg
      by_cases hroom : s.symbols.declared? scope name ≠ none ∨ s.symbols.size < s.symbols.limit
      · obtain ⟨next, hnext, hlimit, hdefault, hsize, hgiven⟩ :=
          Symbols.assignScoped_ok text hroom
        have hbind : s.bindArguments scope ((name, text) :: rest) =
            ({ s with symbols := next } : Interpreter).bindArguments scope rest := by
          simp [bindArguments, hnext]
        obtain ⟨hfresh, hmissing⟩ := Symbols.missing_cons rest hgiven
        -- a symbol that was added is missing no more, so that the sum stays
        have hfits : s.symbols.Fits scope ((name, text) :: rest) ↔ next.Fits scope rest := by
          unfold Symbols.Fits
          by_cases hnone : s.symbols.declared? scope name = none
          · have hlt : s.symbols.size < s.symbols.limit := hroom.resolve_left (· hnone)
            rw [if_pos hnone] at hmissing hsize
            rw [hmissing, hlimit, hsize, Finset.card_insert_of_notMem hfresh,
              ← Finset.card_eq_zero (s := next.missing scope rest)]
            simp only [Finset.insert_ne_empty, false_or]
            omega
          · rw [if_neg hnone] at hmissing hsize
            rw [hmissing, hlimit, hsize]
        rw [hbind, hfits, ← hlimit]
        rcases ih { s with symbols := next } with
          ⟨hfit, symbols, hall, hgot⟩ |
          ⟨hunfit, before, name', text', after, symbols, hargs, hall, hgot⟩
        · exact .inl ⟨hfit, symbols, hall, fun key =>
            (hgot key).trans (Symbols.given_cons hdefault hgiven key)⟩
        · exact .inr ⟨hunfit, (name, text) :: before, name', text', after, symbols,
            by rw [hargs]; rfl, hall, fun key =>
              (hgot key).trans (Symbols.given_cons hdefault hgiven key)⟩
      · obtain ⟨hnone, hfull⟩ := not_or.mp hroom
        rw [not_not] at hnone
        rw [not_lt] at hfull
        -- the first argument finds no room, and nothing has been given yet
        refine .inr ⟨?_, [], name, text, rest, s.symbols, rfl, ?_,
          fun key => (Symbols.given_nil _ scope key).symm⟩
        · have hin : name ∈ s.symbols.missing scope ((name, text) :: rest) := by
            simp [Symbols.missing, hnone]
          have hpos := Finset.card_pos.mpr ⟨name, hin⟩
          rintro (hempty | hle)
          · simp [hempty] at hin
          · omega
        · simp [bindArguments, Symbols.assignScoped_full hnone hfull]

/-! ## calls -/

/-- The frame of a call with arguments. -/
def calleeFrame (s : Interpreter) (image : Image) (callee : Nat) : Frame :=
  ⟨callee, 0, .invoke, 0, s.mask ||| image.maskAt callee, false⟩

/-- In a header that was called, with these symbols. -/
def entered (s : Interpreter) (image : Image) (callee : Nat) (symbols : Symbols) : Interpreter :=
  { s with frames := s.calleeFrame image callee :: s.frames, symbols }

/-- From `s`, a call with arguments was made: the header that was called is entered, with
all of its arguments. -/
def Called (s : Interpreter) (image : Image) (target : String) (args : List (String × Argument))
    (t : Interpreter) : Prop :=
  ∃ callee bound symbols, image.indexOf? target = some callee ∧ s.bound args = .ok bound ∧
    t = s.entered image callee symbols ∧
    ∀ key, symbols.declared? key.1 key.2 = s.symbols.given (some callee) bound key

/-- A call gets its frame, and then its arguments do not fit. -/
def Overfills (s : Interpreter) (image : Image) (target : String)
    (args : List (String × Argument)) : Prop :=
  ∃ callee bound, image.indexOf? target = some callee ∧ s.bound args = .ok bound ∧
    s.depth < s.limits.maxFrames ∧ ¬ s.symbols.Fits (some callee) bound

/-- In `t`, a call has its frame and the arguments before the first that finds no room. -/
def HalfCalled (s : Interpreter) (image : Image) (target : String)
    (args : List (String × Argument)) (t : Interpreter) : Prop :=
  ∃ callee before name text after symbols, image.indexOf? target = some callee ∧
    s.bound args = .ok (before ++ (name, text) :: after) ∧
    t = s.entered image callee symbols ∧
    ∀ key, symbols.declared? key.1 key.2 = s.symbols.given (some callee) before key

/-- What the line of a call comes to. -/
inductive Invoked (s : Interpreter) (image : Image) (target : String)
    (args : List (String × Argument)) : Outcome → Prop
  | made {t : Interpreter} : ¬ s.Overfills image target args → s.Called image target args t →
      Invoked s image target args (.next t)
  | refused (cause : Fault) : ¬ s.Overfills image target args →
      Invoked s image target args (.fault cause s)
  | halfway {t : Interpreter} : s.Overfills image target args →
      s.HalfCalled image target args t →
      Invoked s image target args (.fault (.symbolSpaceExhausted s.symbols.limit) t)

/-- A step makes a call, or it fails: then no symbol has changed, and the error comes up
in the frames of the caller. -/
def AllOrNothing {σ : Type} (s : Interpreter) (host : Host σ) (world : σ) (image : Image)
    (target : String) (args : List (String × Argument)) : Prop :=
  (s.raised? host world = none ∧ s.Called image target args (s.step host world).state) ∨
    ∃ cause t, s.raised? host world = some (cause, t) ∧ t.frames = s.frames ∧
      (s.step host world).state.symbols = s.symbols

section
variable {s : Interpreter} {image : Image} {target : String} {args : List (String × Argument)}

/-- The line of a call finds the header, then the arguments, then room for its frame. -/
theorem execute_invoke (hi : s.image = some image)
    (hc : s.command? = some (.invoke target args)) :
    s.execute image = (match image.indexOf? target with
      | none => .fault (.labelNotFound ("@" ++ target)) s
      | some callee =>
        attempt s (s.bound args) fun bound =>
          attempt s (s.call image .invoke callee 0) fun t =>
            t.bindArguments (some callee) bound) := by
  obtain ⟨header, line, he⟩ := execute_of_command? hi hc
  exact he

/-- Nothing is done before the frame of a call is there, and nothing but the room for
symbols can fail after that. -/
theorem execute_invoked (hi : s.image = some image)
    (hc : s.command? = some (.invoke target args)) :
    Invoked s image target args (s.execute image) := by
  rw [execute_invoke hi hc]
  cases hcallee : image.indexOf? target with
  | none =>
      refine .refused _ ?_
      rintro ⟨callee, -, h, -⟩
      simp [hcallee] at h
  | some callee =>
      cases hbound : s.bound args with
      | error cause =>
          refine .refused cause ?_
          rintro ⟨-, bound, -, h, -⟩
          simp [hbound] at h
      | ok bound =>
          by_cases hfull : s.limits.maxFrames ≤ s.depth
          · have hcall : s.call image .invoke callee 0 = .error (.stackOverflow (s.depth + 1)) :=
              if_pos hfull
            simp only [attempt, hcall]
            refine .refused _ ?_
            rintro ⟨-, -, -, -, h, -⟩
            exact absurd hfull (Nat.not_le.mpr h)
          · have hcall : s.call image .invoke callee 0 =
                .ok (s.entered image callee s.symbols) := if_neg hfull
            have hoverfills : s.Overfills image target args ↔
                ¬ s.symbols.Fits (some callee) bound := by
              simp [Overfills, hcallee, hbound, Nat.not_le.mp hfull]
            simp only [attempt, hcall]
            rcases (s.entered image callee s.symbols).bindArguments_spec (some callee) bound with
              ⟨hfit, symbols, hall, hgot⟩ |
              ⟨hunfit, before, name, text, after, symbols, rfl, hall, hgot⟩
            · rw [hall]
              exact .made (hoverfills.not.mpr (not_not.mpr hfit))
                ⟨callee, bound, symbols, hcallee, hbound, rfl, hgot⟩
            · rw [hall]
              exact .halfway (hoverfills.mpr hunfit)
                ⟨callee, before, name, text, after, symbols, hcallee, hbound, rfl, hgot⟩

/-- An error that comes up outside of loops, in a header that handles errors, goes there. -/
theorem frames_error_of_handler {f : Frame} {below : List Frame} {line : Nat} {text : String}
    (hr : s.isRunning = true) (hi : s.image = some image) (hs : s.frames = f :: below)
    (hl : f.isLoop = false) (ht : f.trapped = false)
    (h : handlerOf? image "error" f = some line) :
    (s.error text).state.frames = { f with line, trapped := true } :: below := by
  have htrapped : trapped? image s.frames = some ({ f with line, trapped := true } :: below) := by
    rw [hs, trapped?, if_neg (by simp [hl]), if_neg (by simp [ht]), h]
  simp [error, hr, hi, htrapped]

end

/-- A call is all or nothing, unless its arguments do not fit after it got its frame.  If
they do not, the arguments before the first that finds no room stay where they are, and
the error comes up in the header that was called: its handler gets it, if there is one. -/
theorem call_all_or_nothing_iff {σ : Type} {s : Interpreter} (host : Host σ) (world : σ)
    {image : Image} {target : String} {args : List (String × Argument)}
    (hr : s.isRunning = true) (hi : s.image = some image)
    (hc : s.command? = some (.invoke target args)) :
    (s.AllOrNothing host world image target args ↔ ¬ s.Overfills image target args) ∧
      (s.Overfills image target args → ∃ t,
        s.raised? host world = some (.symbolSpaceExhausted s.symbols.limit, t) ∧
        s.HalfCalled image target args t ∧
        (s.step host world).state.symbols = t.symbols ∧
        ∀ f line, t.top? = some f → handlerOf? image "error" f = some line →
          (s.step host world).state.frames = { f with line, trapped := true } :: s.frames) := by
  have hinvoked := execute_invoked hi hc
  generalize ho : s.execute image = o at hinvoked
  cases hinvoked with
  | made hfit hcalled =>
      obtain ⟨hraised, hstep⟩ := step_of_next host world hr hi ho
      refine ⟨iff_of_true (.inl ⟨hraised, ?_⟩) hfit, fun h => absurd h hfit⟩
      rwa [hstep]
  | refused cause hfit =>
      have hraised := raised?_of_fault host world hr hi ho
      exact ⟨iff_of_true (.inr ⟨cause, s, hraised, rfl, symbols_step_of_raised? hraised⟩) hfit,
        fun h => absurd h hfit⟩
  | @halfway t hover hhalf =>
      have hraised := raised?_of_fault host world hr hi ho
      obtain ⟨callee, before, name, text, after, symbols, hcallee, hbound, rfl, hgot⟩ := id hhalf
      refine ⟨iff_of_false ?_ (not_not.mpr hover), fun _ =>
        ⟨_, hraised, hhalf, symbols_step_of_raised? hraised, fun f line hf hline => ?_⟩⟩
      · rintro (⟨hnone, -⟩ | ⟨cause, t, hsome, hframes, -⟩)
        · simp [hraised] at hnone
        · obtain ⟨-, rfl⟩ := Prod.mk.inj (Option.some.inj (hraised.symm.trans hsome))
          simp [entered] at hframes
      · obtain rfl : s.calleeFrame image callee = f := Option.some.inj hf
        have hrun : (s.entered image callee symbols).isRunning = true := hr
        rw [step_of_running host world hr hi]
        dsimp only
        rw [outcomeWith_of_execute ho (by simp)]
        exact frames_error_of_handler hrun hi rfl rfl rfl hline

/-- A header `main` that calls `sub` with two arguments; both handle errors. -/
def tightImage : Image :=
  ⟨[⟨"main", "main",
      [⟨.invoke "sub" [("a", .literal "1"), ("b", .literal "2")], 0, 0, 2⟩, ⟨.exit, 0, 0, 3⟩,
        ⟨.exit, 0, 0, 5⟩],
      [("error", 2)], 0⟩,
    ⟨"sub", "main", [⟨.leave, 0, 0, 7⟩, ⟨.set "a" [.literal "3"], 0, 0, 9⟩, ⟨.leave, 0, 0, 10⟩],
      [("error", 1)], 0⟩]⟩

/-- The script at its call, with room for a number of symbols. -/
def tightCall (room : Nat) : Interpreter :=
  ((Interpreter.new ⟨32, room, 64, 2⟩).attach tightImage none).1

/-- With room for two symbols the call is made, and with room for one it is left half way. -/
theorem call_all_or_nothing_tight :
    (tightCall 2).AllOrNothing (.silent Unit) () tightImage "sub"
        [("a", .literal "1"), ("b", .literal "2")] ∧
      ¬ (tightCall 1).AllOrNothing (.silent Unit) () tightImage "sub"
        [("a", .literal "1"), ("b", .literal "2")] := by
  have hfound : tightImage.indexOf? "sub" = some 1 := by decide +kernel
  have hcommand (room : Nat) : (tightCall room).command? =
      some (.invoke "sub" [("a", .literal "1"), ("b", .literal "2")]) := rfl
  have himage (room : Nat) : (tightCall room).image = some tightImage := rfl
  have hiff (room : Nat) :=
    (call_all_or_nothing_iff (.silent Unit) () rfl (himage room) (hcommand room)).1
  have hoverfills (room : Nat) : (tightCall room).Overfills tightImage "sub"
      [("a", .literal "1"), ("b", .literal "2")] ↔ room < 2 := by
    have hbound : (tightCall room).bound [("a", .literal "1"), ("b", .literal "2")] =
        .ok [("a", "1"), ("b", "2")] := rfl
    have hsymbols : (tightCall room).symbols = .empty room 64 := rfl
    have hmissing : (Symbols.empty room 64).missing (some 1) [("a", "1"), ("b", "2")] =
        {"a", "b"} := by
      simp [Symbols.missing, Symbols.empty, Symbols.declared?]
    have hdepth : (tightCall room).depth < (tightCall room).limits.maxFrames := by
      change 1 < 32
      decide
    simp only [Overfills, hfound, hbound, hsymbols, hdepth, Option.some.injEq, Except.ok.injEq,
      exists_and_left, exists_eq_left', true_and, Symbols.Fits, hmissing]
    simp [Symbols.size, Symbols.empty]
  rw [hiff, hiff, hoverfills, hoverfills]
  decide

/-- With room for one symbol, the first argument stays and the handler of the header that was
called gets the error. -/
theorem call_left_half_way :
    Reachable (tightCall 1) ∧
      (tightCall 1).command? =
        some (.invoke "sub" [("a", .literal "1"), ("b", .literal "2")]) ∧
      ¬ (tightCall 1).AllOrNothing (.silent Unit) () tightImage "sub"
        [("a", .literal "1"), ("b", .literal "2")] ∧
      ((tightCall 1).step (.silent Unit) ()).state.frames.map (fun f => (f.header, f.line)) =
        [(1, 1), (0, 0)] ∧
      ((tightCall 1).step (.silent Unit) ()).state.symbols.entries =
        [⟨"a", some 1, 64, "1"⟩] := by
  have hraised : ((tightCall 1).raised? (.silent Unit) ()).map (fun r => r.2.frames.length) =
      some 2 := by
    decide +kernel
  refine ⟨.attach _ _ (.new _), rfl, ?_, by decide +kernel, by decide +kernel⟩
  rintro (⟨hnone, -⟩ | ⟨cause, t, hsome, hframes, -⟩)
  · simp [hnone] at hraised
  · have hlength : (tightCall 1).frames.length = 1 := rfl
    simp [hsome, hframes, hlength] at hraised

end Interpreter

end Switchboard
