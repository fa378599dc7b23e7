import Switchboard.Proofs.Program.Track

/-!
# Switchboard.Proofs.Program.Run

An interpreter that runs the lines of a structured program does what the program
means.

1. `Arrives` says that some number of steps lead from a place to where a program
   ends: to the line after it, to a line that leaves the loop, that is at fault
   or that leads away, or on for at least as many steps as there was fuel.
2. There is one lemma for each way in which a line leads on.  A chain picks the
   arm whose guard holds (`arrives_chain`), and a loop goes from pass to pass
   with the frame that its first line has pushed (`arrives_rounds`).
3. From these, by induction over the tree, every program arrives at its meaning
   (`Program.arrives`).
-/

namespace Switchboard

variable {σ : Type}

namespace Track

/-! ## where a program ends -/

/-- After `m` steps a script is where its program ended.  The program has the
lines from `first` up to `stop`, inside `loops`. -/
def Lands (t : Track σ) (fuel first stop : Nat) (loops : List (Nat × Nat))
    (r : Scene σ × Ending) (m : Nat) (q : Progress σ) : Prop :=
  match r.2 with
  | .done => q = t.at_ stop loops r.1
  | .broke => ∃ j, first ≤ j ∧ j < stop ∧ t.Has j .breakLoop ∧ q = t.at_ j loops r.1
  | .continued => ∃ j, first ≤ j ∧ j < stop ∧ t.Has j .continueLoop ∧ q = t.at_ j loops r.1
  | .fault cause => ∃ j inner s, q = t.at_ j inner r.1 ∧
      (t.spot j inner r.1.symbols).execute t.image = .fault cause s
  | .jump command => ∃ j inner, q = t.at_ j inner r.1 ∧ t.Has j command
  | .unfinished => fuel ≤ m ∧ ∃ j inner, q = t.at_ j inner r.1

/-- Some number of steps lead to where a program ends. -/
def Arrives (t : Track σ) (fuel first stop : Nat) (loops : List (Nat × Nat))
    (r : Scene σ × Ending) (q : Progress σ) : Prop :=
  ∃ m, t.Lands fuel first stop loops r m (q.walk t.setting.host m)

variable {t : Track σ} {fuel first first' mid stop : Nat} {loops : List (Nat × Nat)}
  {r r' : Scene σ × Ending} {q : Progress σ}

/-- A program that has come to its end arrives where it is. -/
theorem Arrives.here (x : Scene σ) :
    t.Arrives fuel first stop loops (x, .done) (t.at_ stop loops x) :=
  ⟨0, rfl⟩

/-- What is arrived at from the next step is arrived at. -/
theorem Arrives.step (h : t.Arrives fuel first stop loops r (q.step t.setting.host)) :
    t.Arrives fuel first stop loops r q := by
  obtain ⟨m, h⟩ := h
  refine ⟨m + 1, ?_⟩
  rw [Progress.walk]
  unfold Lands at h ⊢
  split at h <;> first | exact h | exact ⟨Nat.le_succ_of_le h.1, h.2⟩

/-- A step counts as one more where fuel is counted. -/
theorem Arrives.step_succ (h : t.Arrives fuel first stop loops r (q.step t.setting.host)) :
    t.Arrives (fuel + 1) first stop loops r q := by
  obtain ⟨m, h⟩ := h
  refine ⟨m + 1, ?_⟩
  rw [Progress.walk]
  unfold Lands at h ⊢
  split at h <;> first | exact h | exact ⟨Nat.succ_le_succ h.1, h.2⟩

/-- What is arrived at from some steps further on is arrived at. -/
theorem Arrives.of_walk {m : Nat} {q' : Progress σ} (hw : q.walk t.setting.host m = q')
    (h : t.Arrives fuel first stop loops r q') : t.Arrives fuel first stop loops r q := by
  induction m generalizing q with
  | zero =>
      obtain rfl : q = q' := hw
      exact h
  | succ m ih =>
      rw [Progress.walk] at hw
      exact (ih hw).step

/-- Where a program ends on the way is where a longer one ends, unless the first
comes to its end. -/
theorem Lands.widen {m : Nat} (h : t.Lands fuel first mid loops r m q) (hr : r.2 ≠ .done)
    (hf : first' ≤ first) (hs : mid ≤ stop) : t.Lands fuel first' stop loops r m q := by
  unfold Lands at h ⊢
  split at h
  · next hd => exact absurd hd hr
  · obtain ⟨j, hj, hj', h⟩ := h
    exact ⟨j, Nat.le_trans hf hj, Nat.lt_of_lt_of_le hj' hs, h⟩
  · obtain ⟨j, hj, hj', h⟩ := h
    exact ⟨j, Nat.le_trans hf hj, Nat.lt_of_lt_of_le hj' hs, h⟩
  · exact h
  · exact h
  · exact h

/-- A program arrives if a first part of it does, and what follows that part does
in case the part comes to its end. -/
theorem Arrives.onward (h : t.Arrives fuel first mid loops r q) (hf : first' ≤ first)
    (hs : mid ≤ stop)
    (hd : r.2 = .done → t.Arrives fuel first' stop loops r' (t.at_ mid loops r.1))
    (hn : r.2 ≠ .done → r' = r) : t.Arrives fuel first' stop loops r' q := by
  obtain ⟨m, h⟩ := h
  by_cases hr : r.2 = .done
  · have hq : q.walk t.setting.host m = t.at_ mid loops r.1 := by
      simpa only [Lands, hr] using h
    exact .of_walk hq (hd hr)
  · rw [hn hr]
    exact ⟨m, h.widen hr hf hs⟩

/-- A program may be said to begin at an earlier line. -/
theorem Arrives.earlier (h : t.Arrives fuel first stop loops r q) (hf : first' ≤ first) :
    t.Arrives fuel first' stop loops r q := by
  refine h.onward hf (Nat.le_refl stop) (fun hd => ?_) fun _ => rfl
  obtain ⟨x, ending⟩ := r
  obtain rfl : ending = .done := hd
  exact .here x

/-! ## plain commands -/

/-- A plain command does what it means. -/
theorem arrives_plain {k : Nat} {command : Command} (hc : t.Has k command)
    (hp : command.isPlain = true) (x : Scene σ) :
    t.Arrives fuel k (k + 1) loops (t.setting.plain (passes loops) x command)
      (t.at_ k loops x) := by
  have hexec := t.execute_spot hc loops x.symbols
  have halike := t.alike k loops x.symbols
  unfold Setting.plain
  rw [← halike.update?]
  cases hu : (t.spot k loops x.symbols).update? command with
  | some result =>
      rw [Interpreter.executeLine_of_update? hu] at hexec
      cases result with
      | error cause => exact ⟨0, k, loops, _, rfl, hexec⟩
      | ok symbols =>
          refine .step ?_
          rw [t.step_next (hexec.trans (congrArg _ (t.advance_spot k loops symbols)))]
          exact .here _
  | none =>
      cases command with
      | application name args =>
          simp only [← halike.values]
          rw [Interpreter.executeLine] at hexec
          cases hv : (t.spot k loops x.symbols).values args with
          | error cause =>
              rw [hv] at hexec
              exact ⟨0, k, loops, _, rfl, hexec⟩
          | ok texts =>
              rw [hv] at hexec
              refine .step ?_
              rw [t.step_ask hexec]
              exact .here _
      | _ => exact ⟨0, k, loops, rfl, hc⟩

/-! ## chains -/

section Chains

variable {kind : Chain} {depth k : Nat} {x : Scene σ}

/-- A script is about to pick an arm of a chain, from line `k` on. -/
def Picks (t : Track σ) (kind : Chain) (k start : Nat) (loops : List (Nat × Nat))
    (symbols : Symbols) : Prop :=
  (t.spot start loops symbols).execute t.image =
    Interpreter.attempt (t.spot start loops symbols)
      (Scan.taken kind.role kind.guard (t.spot start loops symbols).condition t.header.lines k)
      fun line => .next ((t.spot start loops symbols).jump line)

/-- The first line of a chain picks an arm. -/
theorem picks_opener {cond : Condition} (h : t.Has k (kind.opener cond)) (symbols : Symbols) :
    t.Picks kind k k loops symbols := by
  unfold Picks
  rw [t.execute_spot h]
  cases kind <;> rfl

/-- The line after a body leads to the end of the chain. -/
theorem step_after_body {arms : Arms} (h : Placed t.header.lines k (arms.shapes kind depth))
    (x : Scene σ) : (t.at_ k loops x).step t.setting.host =
      t.at_ (k + (arms.commands kind).length) loops x := by
  have hskip : ∀ {command : Command}, t.Has k command →
      (t.spot k loops x.symbols).executeLine t.image t.header k command =
        .next ((t.spot k loops x.symbols).jump (k + (arms.commands kind).length)) →
      (t.at_ k loops x).step t.setting.host = t.at_ (k + (arms.commands kind).length) loops x := by
    intro command hc he
    rw [jump_spot] at he
    rw [t.step_next ((t.execute_spot hc loops x.symbols).trans he), Scene.store_self]
  cases arms with
  | done =>
      refine hskip (t.has_of_placed h) ?_
      rw [jump_spot]
      cases kind <;> exact congrArg _ (t.advance_spot k loops x.symbols)
  | other body =>
      refine hskip (t.has_of_placed h) ?_
      have hlen : k + ((Arms.other body).commands kind).length =
          Scan.closer kind.role t.header.lines k + 1 := by
        rw [closer_of_placed .done h.cons.2]
        simp only [Arms.commands, List.length_cons, List.length_append, List.length_nil]
        omega
      rw [hlen]
      cases kind <;> rfl
  | more cond body arms =>
      refine hskip (t.has_of_placed h) ?_
      have hlen : k + ((Arms.more cond body arms).commands kind).length =
          Scan.closer kind.role t.header.lines k + 1 := by
        rw [closer_of_placed arms h.cons.2]
        simp only [Arms.commands, List.length_cons, List.length_append]
        omega
      rw [hlen]
      cases kind <;> rfl

/-- Where a body ends, the chain around it does. -/
theorem Arrives.body {arms : Arms} (h : t.Arrives fuel first mid loops r q)
    (hp : Placed t.header.lines mid (arms.shapes kind depth)) (hf : first' ≤ first) :
    t.Arrives fuel first' (mid + (arms.commands kind).length) loops r q := by
  refine h.onward hf (Nat.le_add_right _ _) (fun hd => ?_) fun _ => rfl
  refine .step ?_
  rw [step_after_body hp]
  obtain ⟨y, ending⟩ := r
  obtain rfl : ending = .done := hd
  exact .here y

/-- A script that is about to pick an arm goes to the body whose guard holds first, and
from its end to the end of the chain. -/
theorem arrives_guarded {cond : Condition} {body : Program} {arms : Arms} {start : Nat}
    {command : Command} (hpick : t.Picks kind k start loops x.symbols)
    (hc : t.Has k command) (hg : kind.guard command = some cond)
    (h : Placed t.header.lines (k + 1) (body.shapes depth ++ arms.shapes kind depth))
    (hbody : t.Arrives fuel (k + 1) (k + 1 + body.commands.length) loops
      (body.meaning t.setting fuel (passes loops) x) (t.at_ (k + 1) loops x))
    (harms : t.Picks kind (k + 1 + body.commands.length) start loops x.symbols →
      t.Arrives fuel k (k + 1 + body.commands.length + (arms.commands kind).length) loops
        (arms.meaning t.setting fuel (passes loops) x) (t.at_ start loops x)) :
    t.Arrives fuel k (k + 1 + body.commands.length + (arms.commands kind).length) loops
      (match t.setting.condition (passes loops) x cond with
        | .error cause => (x, .fault cause)
        | .ok true => body.meaning t.setting fuel (passes loops) x
        | .ok false => arms.meaning t.setting fuel (passes loops) x)
      (t.at_ start loops x) := by
  obtain ⟨l, hl, rfl⟩ := Option.map_eq_some_iff.mp hc
  unfold Picks at hpick harms
  rw [taken_eq hl, hg] at hpick
  dsimp only at hpick
  rw [(t.alike start loops x.symbols).condition] at hpick
  unfold Setting.condition
  cases hv : (t.setting.view (passes loops) x.symbols).condition cond with
  | error cause =>
      rw [hv] at hpick
      exact ⟨0, start, loops, _, rfl, hpick⟩
  | ok holds =>
      rw [hv] at hpick
      cases holds with
      | true =>
          have hnext : (t.spot start loops x.symbols).execute t.image =
              .next (t.spot (k + 1) loops x.symbols) := by
            rw [hpick, ← t.jump_spot start (k + 1)]
            rfl
          refine .step ?_
          rw [t.step_next hnext, Scene.store_self]
          have hafter := h.append.2
          rw [Program.length_shapes] at hafter
          exact hbody.body hafter (Nat.le_succ k)
      | false =>
          rw [next_of_placed h] at hpick
          exact harms hpick

end Chains

/-! ## loops -/

section Loops

variable {depth k index : Nat} {x : Scene σ}

/-- A pass that has begun differs in its symbols only, and tells so. -/
theorem begin_eq_store {e : Setting σ} {opener : Opener} {passes : List Nat} {y : Scene σ}
    (h : opener.begin e passes x = .ok (some y)) : y = x.store y.symbols := by
  cases opener with
  | doLoop =>
      obtain rfl := Option.some.inj (Except.ok.inj h)
      simp
  | whileLoop cond =>
      unfold Opener.begin at h
      cases hv : e.condition passes x cond with
      | error cause => simp [hv, Except.map] at h
      | ok due => cases due <;> simp_all [Except.map]
  | repeatLoop count =>
      rw [Opener.begin_repeatLoop] at h
      cases hv : (e.view passes x.symbols).repeatDue count with
      | error cause => simp [hv, Except.map] at h
      | ok due => cases due <;> simp_all [Except.map]
  | eachLoop target items delimiter =>
      simp only [Opener.begin, bind, Except.bind] at h
      split at h
      · contradiction
      · split at h
        · simp [pure, Except.pure] at h
        · split at h
          · contradiction
          · next symbols hs =>
              obtain rfl := Option.some.inj (Except.ok.inj h)
              rw [Scene.symbols_store]

/-- The first line of a loop begins the pass that its frame is in, leaves the loop, or
is at fault. -/
theorem executeLine_opener {opener : Opener} {s : Interpreter}
    (h : s.enterLoop k = .ok (t.spot k ((k, index) :: loops) x.symbols)) :
    s.executeLine t.image t.header k opener.command =
      match opener.begin t.setting (index :: passes loops) x with
      | .error cause => .fault cause (t.spot k ((k, index) :: loops) x.symbols)
      | .ok none => (t.spot k ((k, index) :: loops) x.symbols).breakLoop t.header
      | .ok (some y) => .next (t.spot (k + 1) ((k, index) :: loops) y.symbols) := by
  have halike := t.alike k ((k, index) :: loops) x.symbols
  -- a pass that needs no more than a test
  have htest : ∀ {due : Except Fault Bool}, Interpreter.attempt
      (t.spot k ((k, index) :: loops) x.symbols) due
      ((t.spot k ((k, index) :: loops) x.symbols).passIf t.header) =
      match due.map fun due => if due then some x else none with
      | .error cause => .fault cause (t.spot k ((k, index) :: loops) x.symbols)
      | .ok none => (t.spot k ((k, index) :: loops) x.symbols).breakLoop t.header
      | .ok (some y) => .next (t.spot (k + 1) ((k, index) :: loops) y.symbols) := by
    intro due
    cases due with
    | error cause => rfl
    | ok due =>
        cases due with
        | false => rfl
        | true => exact congrArg _ (t.advance_spot k _ _)
  cases opener with
  | doLoop => simp [Opener.command, Interpreter.executeLine, h, Interpreter.attempt, Opener.begin]
  | whileLoop cond =>
      rw [Opener.command, Interpreter.executeLine, h]
      dsimp only [Interpreter.attempt]
      exact (congrArg (Interpreter.attempt _ · _) (halike.condition cond)).trans htest
  | repeatLoop count =>
      rw [Opener.command, Interpreter.executeLine, h]
      dsimp only [Interpreter.attempt]
      rw [Opener.begin_repeatLoop]
      exact (congrArg (Interpreter.attempt _ · _) (halike.repeatDue count)).trans htest
  | eachLoop target items delimiter =>
      rw [Opener.command, Interpreter.executeLine, h]
      dsimp only [Interpreter.attempt]
      rw [halike.value, show passes ((k, index) :: loops) = index :: passes loops from rfl]
      simp only [Opener.begin, bind, Except.bind]
      cases (t.setting.view (index :: passes loops) x.symbols).value items with
      | error cause => rfl
      | ok text =>
          have hi : (t.spot k ((k, index) :: loops) x.symbols).loopIndex = index := rfl
          have hscope : (t.spot k ((k, index) :: loops) x.symbols).scope = some t.setting.header :=
            rfl
          dsimp only [List.headD_cons]
          rw [hi, hscope, symbols_spot]
          rw [← Interpreter.piecesOf_eq]
          cases (Interpreter.piecesOf text delimiter)[index]? with
          | none => rfl
          | some item =>
              dsimp only
              cases x.symbols.assign (some t.setting.header) target item with
              | error cause => rfl
              | ok symbols =>
                  dsimp only [pure, Except.pure]
                  rw [Scene.symbols_store, ← t.advance_spot k]
                  rfl

/-- The last line of a loop leads back to its first, leaves the loop, or is at fault. -/
theorem executeLine_closer {c : Nat} {closer : Closer} :
    (t.spot c ((k, index) :: loops) x.symbols).executeLine t.image t.header c closer.command =
      match closer.ended t.setting (index :: passes loops) x with
      | .error cause => .fault cause (t.spot c ((k, index) :: loops) x.symbols)
      | .ok true => .next (t.spot (c + 1) loops x.symbols)
      | .ok false => .next (t.spot k ((k, index + 1) :: loops) x.symbols) := by
  have halike := t.alike c ((k, index) :: loops) x.symbols
  cases closer with
  | endLoop => rfl
  | untilLoop cond =>
      rw [Closer.command, Interpreter.executeLine, halike.condition, Closer.ended,
        Setting.condition, show passes ((k, index) :: loops) = index :: passes loops from rfl]
      cases (t.setting.view (index :: passes loops) x.symbols).condition cond with
      | error cause => rfl
      | ok ended =>
          cases ended with
          | false => rfl
          | true =>
              dsimp only [Interpreter.attempt]
              rw [pop_spot, jump_spot]
              rfl

/-- A loop on its lines, and where it ends. -/
structure Looped (t : Track σ) (k depth stop : Nat) (opener : Opener) (body : Program)
    (closer : Closer) : Prop where
  placed : Placed t.header.lines k ((Phrase.loop opener body closer).shapes depth)
  stop_eq : stop = k + 1 + body.commands.length + 1
  shallow : ∀ l, t.header.lines[stop]? = some l → l.depth ≤ depth

variable {opener : Opener} {body : Program} {closer : Closer}

/-- A loop is left for the line after its last. -/
theorem breakLoop_eq (h : t.Looped k depth stop opener body closer) {j : Nat} (hk : k ≤ j)
    (hj : j < stop) (symbols : Symbols) :
    (t.spot j ((k, index) :: loops) symbols).breakLoop t.header =
      .next (t.spot stop loops symbols) := by
  obtain ⟨⟨l, hl, -, hdepth⟩, hrest⟩ := h.placed.cons
  rw [t.breakLoop_spot (by rw [hl, Option.map_some, hdepth])]
  rw [pastLoop_eq hj (fun i hi hstop => ?_) h.shallow]
  obtain ⟨n, rfl⟩ : ∃ n, i = k + 1 + n := ⟨i - (k + 1), by omega⟩
  have hn : n < (body.shapes (depth + 1) ++ [(closer.command, depth + 1)]).length := by
    have := h.stop_eq
    rw [List.length_append, Program.length_shapes, List.length_singleton]
    omega
  obtain ⟨l, hl, hmem⟩ := hrest.getElem? hn
  refine ⟨l, hl, ?_⟩
  rcases List.mem_append.mp hmem with hmem | hmem
  · exact body.le_depth hmem
  · have hd : l.depth = depth + 1 := congrArg Prod.snd (List.mem_singleton.mp hmem)
    omega

/-- A loop goes from pass to pass, if its body does what it means in every pass. -/
theorem arrives_rounds (h : t.Looped k depth stop opener body closer)
    (hbody : ∀ index x, t.Arrives fuel (k + 1) (k + 1 + body.commands.length)
      ((k, index) :: loops) (body.meaning t.setting fuel (index :: passes loops) x)
      (t.at_ (k + 1) ((k, index) :: loops) x))
    {n : Nat} (hn : n ≤ fuel) (index : Nat) (x : Scene σ) (inner : List (Nat × Nat))
    (henter : (t.spot k inner x.symbols).enterLoop k =
      .ok (t.spot k ((k, index) :: loops) x.symbols)) :
    t.Arrives n k stop loops
      (rounds (fun index x => opener.begin t.setting (index :: passes loops) x)
        (fun index x => body.meaning t.setting fuel (index :: passes loops) x)
        (fun index x => closer.ended t.setting (index :: passes loops) x) n index x)
      (t.at_ k inner x) := by
  induction n generalizing index x inner with
  | zero => exact ⟨0, Nat.zero_le _, k, inner, rfl⟩
  | succ n ih =>
      have hstop := h.stop_eq
      obtain ⟨hopener, hcloser⟩ : t.Has k opener.command ∧
          t.Has (k + 1 + body.commands.length) closer.command := by
        have hrest := h.placed.cons.2.append.2
        rw [Program.length_shapes] at hrest
        exact ⟨t.has_of_placed h.placed, t.has_of_placed hrest⟩
      have hbegin := (t.execute_spot hopener inner x.symbols).trans (executeLine_opener henter)
      -- the next pass, and the line after the loop
      have hnext : ∀ (z : Scene σ), t.Arrives n k stop loops
          (rounds (fun index x => opener.begin t.setting (index :: passes loops) x)
            (fun index x => body.meaning t.setting fuel (index :: passes loops) x)
            (fun index x => closer.ended t.setting (index :: passes loops) x) n (index + 1) z)
          (t.at_ k ((k, index + 1) :: loops) z) := fun z =>
        ih (Nat.le_of_succ_le hn) (index + 1) z _ (t.enterLoop_inside k (index + 1) loops z.symbols)
      rw [rounds]
      cases hb : opener.begin t.setting (index :: passes loops) x with
      | error cause =>
          rw [hb] at hbegin
          exact ⟨0, k, inner, _, rfl, hbegin⟩
      | ok begun =>
          rw [hb] at hbegin
          cases begun with
          | none =>
              have hover := hbegin.trans (breakLoop_eq h (Nat.le_refl k) (by omega) x.symbols)
              refine .step ?_
              rw [t.step_next hover, Scene.store_self]
              exact .here x
          | some y =>
              refine .step_succ ?_
              rw [t.step_next hbegin, ← begin_eq_store hb]
              obtain ⟨m, hland⟩ := hbody index y
              dsimp only
              generalize body.meaning t.setting fuel (index :: passes loops) y = r at hland ⊢
              obtain ⟨z, ending⟩ := r
              cases ending with
              | done =>
                  have hclose := (t.execute_spot hcloser ((k, index) :: loops) z.symbols).trans
                    executeLine_closer
                  refine .of_walk hland ?_
                  dsimp only
                  cases ho : closer.ended t.setting (index :: passes loops) z with
                  | error cause =>
                      rw [ho] at hclose
                      exact ⟨0, _, _, _, rfl, hclose⟩
                  | ok ended =>
                      rw [ho] at hclose
                      refine .step ?_
                      cases ended with
                      | true =>
                          rw [t.step_next hclose, Scene.store_self, ← hstop]
                          exact .here z
                      | false =>
                          rw [t.step_next hclose, Scene.store_self]
                          exact hnext z
              | broke =>
                  obtain ⟨j, hj, hlt, hcommand, hq⟩ := hland
                  have hbreak := (t.execute_spot hcommand ((k, index) :: loops) z.symbols).trans
                    (breakLoop_eq h (by omega) (by omega) z.symbols)
                  refine .of_walk hq (.step ?_)
                  rw [t.step_next hbreak, Scene.store_self]
                  exact .here z
              | continued =>
                  obtain ⟨j, hj, hlt, hcommand, hq⟩ := hland
                  have hcontinue := (t.execute_spot hcommand ((k, index) :: loops) z.symbols).trans
                    (t.continueLoop_spot j k index loops z.symbols "continue")
                  refine .of_walk hq (.step ?_)
                  rw [t.step_next hcontinue, Scene.store_self]
                  exact hnext z
              | fault cause => exact ⟨m, hland⟩
              | jump command => exact ⟨m, hland⟩
              | unfinished =>
                  exact ⟨m, Nat.le_trans (Nat.le_of_succ_le hn) hland.1, hland.2⟩

end Loops

/-! ## programs -/

/-- Lines of a header that a piece of program takes up, inside loops. -/
structure Fits (t : Track σ) (shapes : List (Command × Nat)) (nested k depth : Nat)
    (loops : List (Nat × Nat)) : Prop where
  placed : Placed t.header.lines k shapes
  before : ∀ loop ∈ loops, loop.1 < k
  room : loops.length + nested < t.setting.limits.maxFrames
  shallow : ∀ l, t.header.lines[k + shapes.length]? = some l → l.depth ≤ depth

/-- The line after a part is no deeper, if the first of the rest is not. -/
theorem shallow_append {lines : List Line} {k depth : Nat} {shapes others : List (Command × Nat)}
    (h : Placed lines k (shapes ++ others))
    (hd : ∀ shape, others.head? = some shape → shape.2 ≤ depth)
    (hs : ∀ l, lines[k + (shapes ++ others).length]? = some l → l.depth ≤ depth) :
    ∀ l, lines[k + shapes.length]? = some l → l.depth ≤ depth := by
  intro l hl
  cases others with
  | nil => exact hs l (by rwa [List.append_nil])
  | cons shape rest =>
      obtain ⟨⟨l', hl', -, hdepth⟩, -⟩ := h.append.2.cons
      obtain rfl := Option.some.inj (hl.symm.trans hl')
      rw [hdepth]
      exact hd shape rfl

end Track

theorem Phrase.head_depth {depth : Nat} {shape : Command × Nat} (p : Phrase)
    (rest : List (Command × Nat)) (h : (p.shapes depth ++ rest).head? = some shape) :
    shape.2 = depth := by
  cases p <;> simp_all [Phrase.shapes] <;> simp [← h]

theorem Program.head_depth {depth : Nat} {shape : Command × Nat} (p : Program)
    (h : (p.shapes depth).head? = some shape) : shape.2 = depth := by
  cases p with
  | nil => simp [Program.shapes] at h
  | cons phrase rest => exact phrase.head_depth _ h

theorem Arms.head_depth {kind : Chain} {depth : Nat} {shape : Command × Nat} (a : Arms)
    (h : (a.shapes kind depth).head? = some shape) : shape.2 = depth := by
  cases a <;> simp_all [Arms.shapes] <;> simp [← h]

namespace Track.Fits

variable {t : Track σ} {shapes others : List (Command × Nat)} {nested nested' k depth : Nat}
  {loops : List (Nat × Nat)}

/-- The first of two parts takes up the first lines. -/
theorem left (h : t.Fits (shapes ++ others) nested k depth loops) (hn : nested' ≤ nested)
    (hd : ∀ shape, others.head? = some shape → shape.2 ≤ depth) :
    t.Fits shapes nested' k depth loops :=
  ⟨h.placed.append.1, h.before, by have := h.room; omega, shallow_append h.placed hd h.shallow⟩

/-- The second of two parts takes up the lines after the first. -/
theorem right (h : t.Fits (shapes ++ others) nested k depth loops) (hn : nested' ≤ nested) :
    t.Fits others nested' (k + shapes.length) depth loops := by
  refine ⟨h.placed.append.2, fun loop hl => ?_, by have := h.room; omega, ?_⟩
  · exact Nat.lt_of_lt_of_le (h.before loop hl) (Nat.le_add_right _ _)
  · have hs := h.shallow
    rwa [List.length_append, ← Nat.add_assoc] at hs

/-- All but the first line takes up the lines after it. -/
theorem tail {shape : Command × Nat} (h : t.Fits (shape :: shapes) nested k depth loops) :
    t.Fits shapes nested (k + 1) depth loops :=
  Fits.right (show t.Fits ([shape] ++ shapes) nested k depth loops from h) (Nat.le_refl nested)

/-- A body and the arms after it take up the lines after the one before them. -/
theorem guarded {shape : Command × Nat} {kind : Chain} {body : Program} {arms : Arms}
    (h : t.Fits (shape :: (body.shapes depth ++ arms.shapes kind depth))
      (max body.loops arms.loops) k depth loops) :
    t.Fits (body.shapes depth) body.loops (k + 1) depth loops ∧
      t.Fits (arms.shapes kind depth) arms.loops (k + 1 + body.commands.length) depth loops := by
  have hinside := h.tail
  refine ⟨hinside.left (Nat.le_max_left _ _) fun shape hs => Nat.le_of_eq (arms.head_depth hs), ?_⟩
  have harms : t.Fits _ arms.loops _ depth loops := hinside.right (Nat.le_max_right _ _)
  rwa [Program.length_shapes] at harms

end Track.Fits

/-- An arm without a guard is the one that is picked. -/
theorem Track.Picks.unguarded {t : Track σ} {kind : Chain} {k start : Nat}
    {loops : List (Nat × Nat)} {x : Scene σ} {command : Command}
    (h : t.Picks kind k start loops x.symbols) (hc : t.Has k command)
    (hg : kind.guard command = none) :
    (t.at_ start loops x).step t.setting.host = t.at_ (k + 1) loops x := by
  obtain ⟨l, hl, rfl⟩ := Option.map_eq_some_iff.mp hc
  unfold Track.Picks at h
  rw [taken_eq hl, hg] at h
  have hnext : (t.spot start loops x.symbols).execute t.image =
      .next (t.spot (k + 1) loops x.symbols) := by
    rw [h, ← t.jump_spot start (k + 1)]
    rfl
  rw [t.step_next hnext, Scene.store_self]

mutual

/-- A script that begins to run the lines of a program arrives where the program
ends. -/
theorem Program.arrives (t : Track σ) (fuel : Nat) {depth : Nat} {loops : List (Nat × Nat)} :
    (p : Program) → (k : Nat) → (x : Scene σ) →
      t.Fits (p.shapes depth) p.loops k depth loops →
      t.Arrives fuel k (k + p.commands.length) loops
        (p.meaning t.setting fuel (Track.passes loops) x) (t.at_ k loops x)
  | .nil, k, x, _ => .here x
  | .cons phrase rest, k, x, h => by
      have hphrase : t.Fits (phrase.shapes depth) phrase.loops k depth loops :=
        h.left (Nat.le_max_left _ _) fun shape hs => Nat.le_of_eq (rest.head_depth hs)
      have hrest : t.Fits (rest.shapes depth) rest.loops _ depth loops :=
        h.right (Nat.le_max_right _ _)
      rw [Phrase.length_shapes] at hrest
      rw [Program.commands, List.length_append, ← Nat.add_assoc, Program.meaning]
      have harrives := phrase.arrives t fuel k x hphrase
      generalize phrase.meaning t.setting fuel (Track.passes loops) x = r at harrives ⊢
      obtain ⟨y, ending⟩ := r
      refine harrives.onward (Nat.le_refl k) (Nat.le_add_right _ _) (fun hd => ?_) fun hn => ?_
      · obtain rfl : ending = .done := hd
        exact (rest.arrives t fuel _ y hrest).earlier (Nat.le_add_right _ _)
      · cases ending with
        | done => exact absurd rfl hn
        | _ => rfl

/-- A script that begins to run the lines of a phrase arrives where it ends. -/
theorem Phrase.arrives (t : Track σ) (fuel : Nat) {depth : Nat} {loops : List (Nat × Nat)} :
    (p : Phrase) → (k : Nat) → (x : Scene σ) →
      t.Fits (p.shapes depth) p.loops k depth loops →
      t.Arrives fuel k (k + p.commands.length) loops
        (p.meaning t.setting fuel (Track.passes loops) x) (t.at_ k loops x)
  | .plain command hp, k, x, h => Track.arrives_plain (t.has_of_placed h.placed) hp x
  | .chain kind cond body arms, k, x, h => by
      obtain ⟨hbody, harms⟩ := Track.Fits.guarded h
      have hlen : k + (Phrase.chain kind cond body arms).commands.length =
          k + 1 + body.commands.length + (arms.commands kind).length := by
        rw [Phrase.commands, List.length_cons, List.length_append]
        omega
      rw [hlen, Phrase.meaning]
      have hopener := t.has_of_placed h.placed
      exact Track.arrives_guarded (Track.picks_opener hopener x.symbols) hopener
        (kind.guard_opener cond) h.placed.cons.2 (body.arrives t fuel _ x hbody)
        fun hpick => (arms.arrives t fuel kind _ x harms hpick).earlier (by omega)
  | .loop opener body closer, k, x, h => by
      have hlen : k + (Phrase.loop opener body closer).commands.length =
          k + 1 + body.commands.length + 1 := by
        rw [Phrase.commands, List.length_cons, List.length_append, List.length_singleton]
        omega
      have hlooped : t.Looped k depth (k + 1 + body.commands.length + 1) opener body closer := by
        refine ⟨h.placed, rfl, ?_⟩
        have hs := h.shallow
        rwa [Phrase.length_shapes, hlen] at hs
      have hroom := h.room
      rw [Phrase.loops] at hroom
      rw [hlen, Phrase.meaning]
      refine Track.arrives_rounds hlooped (fun index y => ?_) (Nat.le_refl fuel) 0 x loops
        (t.enterLoop_outside x.symbols h.before (by omega))
      -- the body stands inside one more loop, and its last line is followed by the closer
      refine body.arrives t fuel _ y ⟨h.placed.cons.2.append.1, ?_, ?_, ?_⟩
      · rintro loop hl
        rcases List.mem_cons.mp hl with rfl | hl
        · exact Nat.lt_succ_self k
        · exact Nat.lt_succ_of_lt (h.before loop hl)
      · rw [List.length_cons]
        omega
      · intro l hl
        obtain ⟨⟨l', hl', -, hd⟩, -⟩ := h.placed.cons.2.append.2.cons
        obtain rfl := Option.some.inj (hl.symm.trans hl')
        exact Nat.le_of_eq hd
  | .breakLoop, k, x, h =>
      ⟨0, k, Nat.le_refl k, Nat.lt_succ_self k, t.has_of_placed h.placed, rfl⟩
  | .continueLoop, k, x, h =>
      ⟨0, k, Nat.le_refl k, Nat.lt_succ_self k, t.has_of_placed h.placed, rfl⟩

/-- A script that is about to pick one of some arms arrives where they end. -/
theorem Arms.arrives (t : Track σ) (fuel : Nat) (kind : Chain) {depth start : Nat}
    {loops : List (Nat × Nat)} :
    (a : Arms) → (k : Nat) → (x : Scene σ) →
      t.Fits (a.shapes kind depth) a.loops k depth loops →
      t.Picks kind k start loops x.symbols →
      t.Arrives fuel k (k + (a.commands kind).length) loops
        (a.meaning t.setting fuel (Track.passes loops) x) (t.at_ start loops x)
  | .done, k, x, h, hpick => by
      refine .step ?_
      rw [hpick.unguarded (t.has_of_placed h.placed) kind.guard_closer]
      exact .here x
  | .other body, k, x, h, hpick => by
      have h : t.Fits ((kind.other, depth) :: (body.shapes depth ++ Arms.shapes kind depth .done))
          (max body.loops Arms.done.loops) k depth loops := by
        rwa [show max body.loops Arms.done.loops = body.loops from Nat.max_zero _]
      obtain ⟨hbody, hdone⟩ := h.guarded
      refine .step ?_
      rw [hpick.unguarded (t.has_of_placed h.placed) kind.guard_other, Arms.meaning]
      have hlen : k + ((Arms.other body).commands kind).length =
          k + 1 + body.commands.length + (Arms.done.commands kind).length := by
        simp only [Arms.commands, List.length_cons, List.length_append, List.length_nil]
        omega
      rw [hlen]
      exact (body.arrives t fuel _ x hbody).body hdone.placed (Nat.le_succ k)
  | .more cond body arms, k, x, h, hpick => by
      obtain ⟨hbody, harms⟩ := Track.Fits.guarded h
      have hlen : k + ((Arms.more cond body arms).commands kind).length =
          k + 1 + body.commands.length + (arms.commands kind).length := by
        rw [Arms.commands, List.length_cons, List.length_append]
        omega
      rw [hlen, Arms.meaning]
      exact Track.arrives_guarded hpick (t.has_of_placed h.placed)
        (kind.guard_divider cond) h.placed.cons.2 (body.arrives t fuel _ x hbody)
        fun hpick => (arms.arrives t fuel kind _ x harms hpick).earlier (by omega)

end

end Switchboard
