import Switchboard.Proofs.Interpreter.LoopRun
import Switchboard.Proofs.Script.Tower

/-!
# Switchboard.Proofs.Interpreter.Passes

The passes of a loop over a list, or with a count.

1. There is one pass for each piece of the list, in order, and then the script goes on
   after the line that closes the loop (`loop_passes_exact`).
2. That line is found as long as the depths can be told apart.  With more loops in each
   other than depths, the outermost one is left for a line of its own
   (`loop_resumes_inside`).
-/

namespace Switchboard.Interpreter

/-! ## all passes -/

/-- The passes that begin in a number of steps, one after the other. -/
def passesBegun {σ : Type} (host : Host σ) (s : Interpreter) (world : σ) (opener n : Nat) :
    List Nat :=
  (List.range (n + 1)).filterMap fun j =>
    (stepsFrom host s world j).1.passAt? s.frames opener (opener + 1)

section
variable {σ : Type} {host : Host σ} {s : Interpreter} {world : σ} {opener m n k : Nat}

/-- One more step begins a pass, or none. -/
theorem passesBegun_succ : passesBegun host s world opener (n + 1) =
    passesBegun host s world opener n ++
      ((stepsFrom host s world (n + 1)).1.passAt? s.frames opener (opener + 1)).toList := by
  unfold passesBegun
  rw [List.range_succ (n := n + 1), List.filterMap_append]
  rfl

/-- No pass begins in steps that come to no first line. -/
theorem passesBegun_of_none (hmn : m ≤ n) (h : ∀ j, m < j → j ≤ n →
      (stepsFrom host s world j).1.passAt? s.frames opener (opener + 1) = none) :
    passesBegun host s world opener n = passesBegun host s world opener m := by
  induction n, hmn using Nat.le_induction with
  | base => rfl
  | succ n hmn ih =>
      rw [passesBegun_succ, h (n + 1) (Nat.lt_succ_of_le hmn) (Nat.le_refl _),
        ih fun j hj hjn => h j hj (Nat.le_succ_of_le hjn), Option.toList_none, List.append_nil]

end

/-- After `n` steps, a loop has had its first `k` passes and looks whether there is one more. -/
structure Before {σ : Type} (host : Host σ) (s : Interpreter) (world : σ) (f : Frame)
    (below : List Frame) (c : Command) (agenda : List (Option String)) (k n : Nat) : Prop where
  within : Within host s world n
  opener : AtOpener (stepsFrom host s world n).1 f below k
  begun : passesBegun host s world f.line n = List.range k
  supplied : ∀ j, j ≤ n → ∀ i,
    (stepsFrom host s world j).1.passAt? s.frames f.line (f.line + 1) = some i →
    Supplied c agenda i (stepsFrom host s world j).1

section
variable {σ : Type} {host : Host σ} {s : Interpreter} {world : σ} {image : Image} {f : Frame}
  {below : List Frame} {header : Header} {l : Line} {argument : Argument} {text : String}
  {agenda : List (Option String)} {k n : Nat}

/-- A loop that begins stands before its first pass. -/
theorem Before.start (hframes : s.frames = f :: below) (hnew : f.opener? ≠ some f.line) :
    Before host s world f below l.command agenda 0 0 := by
  have hnone : (stepsFrom host s world 0).1.passAt? s.frames f.line (f.line + 1) = none := by
    change s.passAt? s.frames f.line (f.line + 1) = none
    simp [passAt?, hframes]
  refine ⟨fun j hj hj0 => absurd hj (Nat.not_lt.mpr hj0), .first hframes hnew, ?_, ?_⟩
  · simp [passesBegun, List.range_succ, hnone]
  · intro j hj i hat
    obtain rfl := Nat.le_zero.mp hj
    simp [hnone] at hat

variable (hs : s.Reachable) (hr : s.isRunning = true) (hi : s.image = some image)
  (hframes : s.frames = f :: below) (hheader : image.headerAt? f.header = some header)
  (hl : header.lines[f.line]? = some l) (hsource : l.command.source? = some argument)
  (hagenda : l.command.Agenda text agenda)
  (ho : Orderly host s world f.line argument text)
include hs hr hi hframes hheader hl hsource hagenda ho

/-- Then one step more begins that pass, or leaves the loop. -/
theorem Before.decided (h : Before host s world f below l.command agenda k n) :
    Decided header l f below agenda k (stepsFrom host s world (n + 1)).1 := by
  obtain ⟨-, hrun, himage⟩ := h.within.alive hs hr hi
  have hloops : outsideLoops (stepsFrom host s world n).1.frames = outsideLoops s.frames := by
    cases h.opener with
    | first hfirst _ => rw [hfirst, hframes]
    | next hnext => rw [hnext, hframes, outsideLoops, if_pos (by rfl)]
  rw [stepsFrom_succ]
  refine step_opener h.opener hrun himage hheader hl hsource hagenda (fun t ht => ?_)
    (ho.faultless n h.within hloops)
  refine ho.constant n t h.within ?_ ht
  cases h.opener with
  | first hfirst _ =>
      refine .inl (Nat.eq_zero_of_not_pos fun hpos => ?_)
      have hd := h.within n hpos (Nat.le_refl _)
      rw [depth, depth, hfirst, hframes] at hd
      exact Nat.lt_irrefl _ hd
  | next hnext =>
      exact .inr (by rw [hframes, passAt?_passFrame hnext]; rfl)

/-- A pass that is due comes to its end, and the loop looks for the next one. -/
theorem Before.succ (h : Before host s world f below l.command agenda k n)
    (hk : k < agenda.length) :
    ∃ m, Before host s world f below l.command agenda (k + 1) m := by
  obtain ⟨hbegins, hsupplied⟩ :=
    (h.decided hs hr hi hframes hheader hl hsource hagenda ho).due hk
  have hat : (stepsFrom host s world (n + 1)).1.passAt? s.frames f.line (f.line + 1) = some k :=
    hframes ▸ passAt?_passFrame hbegins
  -- from the first line of the pass back to the opener, with no other pass on the way
  obtain ⟨m, hnm, hwm, hnext, hquiet⟩ :=
    exists_again hs hr hi hframes ho (h.within.succ_of_frames hframes hbegins) hbegins
  refine ⟨m, ⟨hwm, .next hnext, ?_, fun j hj i hat' => ?_⟩⟩
  · rw [passesBegun_of_none (Nat.le_of_lt hnm) hquiet, passesBegun_succ, hat, h.begun,
      List.range_succ]
    rfl
  · rcases Nat.lt_trichotomy j (n + 1) with hlt | rfl | hgt
    · exact h.supplied j (Nat.le_of_lt_succ hlt) i hat'
    · obtain rfl := Option.some.inj (hat.symm.trans hat')
      exact hsupplied
    · rw [hquiet j hgt hj] at hat'
      contradiction

/-- So a loop has all of its passes. -/
theorem exists_before (hnew : f.opener? ≠ some f.line) (hk : k ≤ agenda.length) :
    ∃ n, Before host s world f below l.command agenda k n := by
  induction k with
  | zero => exact ⟨0, .start hframes hnew⟩
  | succ k ih =>
      obtain ⟨n, h⟩ := ih (Nat.le_of_succ_le hk)
      exact h.succ hs hr hi hframes hheader hl hsource hagenda ho hk

end

/-- A loop over a list has one pass for each piece of it, and a loop with a count so many
passes, if its lines raise no error, every pass comes to the end of the loop or to a line
that continues it, and the list or the count is the same whenever the loop looks at it.
Whatever loops and calls it stands in, and whatever loops and calls are made inside of it:
the passes begin in their order, each once; at the beginning of each, its number is what
`%index` denotes, and the variable of the loop holds its piece, cut to its size; and after
the last, the frame of the loop is gone, and the script goes on after the line that closes
the loop (which the compiler does not find again if more loops stand in each other than it
counts). -/
theorem loop_passes_exact {commands : Commands} {sources : List (String × String)}
    (hc : (compile commands sources).isClean = true) {s : Interpreter} (hs : s.Reachable)
    (hr : s.isRunning = true) (hi : s.image = some (compile commands sources).image)
    {f : Frame} {below : List Frame} (hframes : s.frames = f :: below)
    (hnew : f.opener? ≠ some f.line) {header : Header}
    (hheader : (compile commands sources).image.headerAt? f.header = some header) {l : Line}
    (hl : header.lines[f.line]? = some l) {argument : Argument}
    (hsource : l.command.source? = some argument) {text : String} {agenda : List (Option String)}
    (hagenda : l.command.Agenda text agenda) {σ : Type} {host : Host σ} {world : σ}
    (ho : Orderly host s world f.line argument text) :
    ∃ last, Within host s world last ∧
      passesBegun host s world f.line last = List.range agenda.length ∧
      (∀ n, n ≤ last → ∀ k,
        (stepsFrom host s world n).1.passAt? s.frames f.line (f.line + 1) = some k →
        (stepsFrom host s world n).1.value (.symbol "index") = .ok (toString k) ∧
          Supplied l.command agenda k (stepsFrom host s world n).1) ∧
      (stepsFrom host s world (last + 1)).1.isRunning = true ∧
      ∃ dest, (stepsFrom host s world (last + 1)).1.frames = { f with line := dest } :: below ∧
        ((∀ n, (openLoops header.lines n).length < Nest.depthBound) →
          ∃ closer, dest = closer + 1 ∧ ClosesLoop header.lines f.line closer) := by
  obtain ⟨last, h⟩ := exists_before hs hr hi hframes hheader hl hsource hagenda ho hnew
    (Nat.le_refl _)
  have hdecided := h.decided hs hr hi hframes hheader hl hsource hagenda ho
  refine ⟨last, h.within, h.begun, fun n hn k hat => ?_, hdecided.running, _,
    hdecided.done (Nat.le_refl _), fun hbound => ?_⟩
  · exact ⟨value_index hat (ho.unhidden n k (h.within.mono hn) hat), h.supplied n hn k hat⟩
  · have w : header.WellNested := wellNested_of_isClean hc (List.mem_of_getElem? hheader) hbound
    have hopens : l.command.bracket = .opens .loop := by
      cases hcommand : l.command <;> simp [hcommand, Command.source?, Command.bracket] at hsource ⊢
    obtain ⟨closer, hclose, -, hcloses⟩ := w.pastLoop_opener hl hopens
    exact ⟨closer, hclose, hcloses⟩

/-- A script that goes through a list inside of another loop; each pass calls a header that
handles an error of its own, makes a loop, and continues before the end. -/
def tourScript : List (String × String) :=
  [("main",
    "@main\n set list a,,b\n repeat 1\n foreach x %list\n gosub @sub\n repeat 1\n loop\n" ++
      " continue\n loop\n loop\n@sub\n error oops\n^error\n return\n")]

/-- The header with the loops. -/
def tourHeader : Header :=
  ⟨"main", "main",
    [⟨.set "list" [.literal "a,,b"], 0, 0, 2⟩, ⟨.repeatLoop (.literal "1"), 0, 0, 3⟩,
      ⟨.eachLoop "x" (.symbol "list") ',', 1, 0, 4⟩, ⟨.gosub [.label "sub"], 2, 0, 5⟩,
      ⟨.repeatLoop (.literal "1"), 2, 0, 6⟩, ⟨.endLoop, 3, 0, 7⟩, ⟨.continueLoop, 2, 0, 8⟩,
      ⟨.endLoop, 2, 0, 9⟩, ⟨.endLoop, 1, 0, 10⟩], [], 0⟩

/-- The image of the script. -/
def tourImage : Image :=
  ⟨[tourHeader, ⟨"sub", "main", [⟨.raise [.literal "oops"], 0, 0, 12⟩, ⟨.leave, 0, 0, 14⟩],
    [("error", 1)], 0⟩]⟩

/-- The script at its list. -/
def tourStart : Interpreter :=
  let next (s : Interpreter) := (s.step (.silent Unit) ()).state
  next (next ((Interpreter.new .default).attach tourImage none).1)

/-- The script, some steps further. -/
def tour (n : Nat) : Interpreter := (stepsFrom (.silent Unit) tourStart () n).1

/-- The script leaves the loop with its 25th step. -/
theorem lt_of_within_tour {n : Nat} (h : Within (.silent Unit) tourStart () n) : n < 25 := by
  by_contra hn
  have hdeep := h 25 (by decide) (Nat.le_of_not_lt hn)
  have hleft : ¬ tourStart.depth < (tour 25).depth := by decide +kernel
  exact hleft hdeep

/-- The tour goes round its loop without a fault. -/
theorem orderly_tour : Orderly (.silent Unit) tourStart () 2 (.symbol "list") "a,,b" where
  faultless n h := by
    have hall : ∀ n < 25, outsideLoops (tour n).frames = outsideLoops tourStart.frames →
        ((tour n).raised? (.silent Unit) ()).isNone := by
      decide +kernel
    exact fun hloops => Option.isNone_iff_eq_none.mp (hall n (lt_of_within_tour h) hloops)
  unbroken n h := by
    have hall : ∀ n < 25, ((tour n).step (.silent Unit) ()).signal ≠ .broke := by decide +kernel
    exact hall n (lt_of_within_tour h)
  constant n t h hat ht := by
    have hall : ∀ n < 25, ∀ t ∈ ((tour n).enterLoop 2).toOption,
        t.symbol? "list" = some "a,,b" := by
      decide +kernel
    have hentered : (tour n).enterLoop 2 = .ok t := ht
    have hlist := hall n (lt_of_within_tour h) t (by rw [hentered]; rfl)
    simp [value, hlist]
  returns n k h hat := by
    have hall : ∀ n < 25, ∀ k ∈ (tour n).passAt? tourStart.frames 2 3, n + 6 < 25 ∧
        (tour (n + 6)).passAt? tourStart.frames 2 6 = some k ∧
        (tour (n + 6)).command? = some .continueLoop := by
      decide +kernel
    obtain ⟨hlt, hend, hc⟩ := hall n (lt_of_within_tour h) k hat
    have hdeep : ∀ j < 25, 0 < j → tourStart.depth < (tour j).depth := by decide +kernel
    exact ⟨n + 6, 6, Nat.le_add_right n 6, fun j hj hjn => hdeep j (by omega) hj, hend, .inr hc⟩
  unhidden n k h hat := by
    have hall : ∀ n < 25, (tour n).symbol? "index" = none := by decide +kernel
    exact hall n (lt_of_within_tour h)

/-- The tour makes a pass for each of three pieces, the second of which is empty. -/
theorem loop_passes_exact_tour :
    ∃ last, passesBegun (.silent Unit) tourStart () 2 last = [0, 1, 2] ∧
      (∀ n, n ≤ last → ∀ k, (tour n).passAt? tourStart.frames 2 3 = some k →
        (tour n).value (.symbol "index") = .ok (toString k) ∧
          Supplied (.eachLoop "x" (.symbol "list") ',') [some "a", some "", some "b"] k (tour n)) ∧
      (tour (last + 1)).frames =
        [⟨0, 8, .loop 1, 0, 0, false⟩, ⟨0, 1, .base, 0, 0, false⟩] := by
  obtain ⟨hclean, himage⟩ : (compile [] tourScript).isClean = true ∧
      (compile [] tourScript).image = tourImage := by decide +kernel
  have hreach : tourStart.Reachable := .step _ _ (.step _ _ (.attach _ _ (.new .default)))
  have hstate : tourStart.isRunning = true ∧ tourStart.image = some tourImage ∧
      tourStart.frames = [⟨0, 2, .loop 1, 0, 0, false⟩, ⟨0, 1, .base, 0, 0, false⟩] := by
    decide +kernel
  obtain ⟨hrun, hsome, hframes⟩ := hstate
  have hheader : (compile [] tourScript).image.headerAt? 0 = some tourHeader := by
    rw [himage]
    rfl
  have hdivides : Text.Divides ',' "a,,b".toList [['a'], [], ['b']] :=
    ⟨by decide, by decide, by decide⟩
  obtain ⟨last, -, hbegun, hpass, -, dest, hdest, hclose⟩ :=
    loop_passes_exact hclean hreach hrun (himage ▸ hsome) hframes (by decide) hheader rfl rfl
      (.eachLoop hdivides) orderly_tour
  obtain ⟨closer, rfl, hcloses, hinner⟩ := hclose fun n =>
    Nat.lt_of_le_of_lt (length_openLoops_le tourHeader.lines n) (by decide)
  -- only one line closes the loop
  have hall : ∀ n < 9, (tourHeader.lines[n]?.any fun l => l.command.bracket = .closes .loop) →
      (openLoops tourHeader.lines n).head? = some 2 → n = 7 := by
    decide
  obtain ⟨l, hl, hb⟩ := hcloses
  obtain rfl := hall closer (List.getElem?_eq_some_iff.mp hl).1 (by simp [hl, hb]) hinner
  exact ⟨last, hbegun, hpass, hdest⟩

/-! ## more loops in each other than depths -/

/-- What an interpreter is when its first script begins. -/
theorem attach_of_entry {limits : Limits} {image : Image} {entry : Option String} {i : Nat}
    (h : image.indexOf? (entry.getD defaultEntry) = some i) :
    ((Interpreter.new limits).attach image entry).1 = { Interpreter.new limits with
      image := some image, frames := [.base i (image.maskAt i)], status := .running } := by
  simp only [attach, h]
  rfl

section
variable {height : Nat} {image : Image} {header : Header}
  (hlines : ∀ i < height, ∃ l, header.lines[i]? = some l ∧
    l.command = .repeatLoop (.literal "0") ∧ l.depth = i % Nest.depthBound)
include hlines

/-- The depth of the first line comes back, if there are more lines than depths: there the
search for the end of the first loop stops. -/
theorem pastLoop_tower (hheight : Nest.depthBound < height) :
    Scan.pastLoop header.lines 0 0 = Nest.depthBound := by
  refine pastLoop_eq (by decide) (fun i hi hlt => ?_) fun l hl => ?_
  · obtain ⟨l, hl, -, hdepth⟩ := hlines i (Nat.lt_trans hlt hheight)
    refine ⟨l, hl, ?_⟩
    rw [hdepth, Nat.mod_eq_of_lt hlt]
    exact hi
  · obtain ⟨l', hl', -, hdepth⟩ := hlines Nest.depthBound hheight
    obtain rfl := Option.some.inj (hl.symm.trans hl')
    rw [hdepth, Nat.mod_self]

/-- No loop ends there. -/
theorem not_closesLoop_tower (hheight : Nest.depthBound < height) {closer : Nat}
    (h : ClosesLoop header.lines 0 closer) : closer + 1 ≠ Nest.depthBound := by
  intro hcloser
  obtain ⟨l, hl, hcloses⟩ := h.closes
  obtain ⟨l', hl', hcommand, -⟩ := hlines closer (by omega)
  obtain rfl := Option.some.inj (hl.symm.trans hl')
  rw [hcommand] at hcloses
  contradiction

/-- All loops in front of a line of the tower are open. -/
theorem openLoops_tower {i : Nat} (hi : i ≤ height) :
    openLoops header.lines i = (List.range i).reverse := by
  induction i with
  | zero => rfl
  | succ i ih =>
      obtain ⟨l, hl, hcommand, -⟩ := hlines i hi
      rw [openLoops, openBlocks_succ hl, hcommand, List.range_succ, List.reverse_concat,
        ← ih (Nat.le_of_succ_le hi)]
      rfl

variable (himage : image.headers = [header]) (hname : header.name = "main")
include himage hname

/-- In a tower that is higher than the depths can tell, the outermost loop is left for a line
in the middle of it. -/
theorem left_tower (hheight : Nest.depthBound < height) {s : Interpreter}
    (hs : s = ((Interpreter.new .default).attach image none).1) :
    s.isRunning = true ∧ s.image = some image ∧ image.headerAt? 0 = some header ∧
      s.frames = [.base 0 (image.maskAt 0)] ∧
      Orderly (.silent Unit) s () 0 (.literal "0") "0" ∧
      (stepsFrom (.silent Unit) s () 1).1.frames =
        [{ Frame.base 0 (image.maskAt 0) with line := Nest.depthBound }] := by
  have hentry : image.indexOf? (Option.none.getD defaultEntry) = some 0 := by
    have hkey : Header.key "main" = Header.key defaultEntry := by decide
    simp [Image.indexOf?, himage, hname, hkey]
  have hheader : image.headerAt? 0 = some header := by
    rw [Image.headerAt?, himage]
    rfl
  rw [attach_of_entry hentry] at hs
  have hrun : s.isRunning = true := by rw [hs]; rfl
  have hattached : s.image = some image := by rw [hs]
  have hframes : s.frames = [.base 0 (image.maskAt 0)] := by rw [hs]
  have hroom : s.depth < s.limits.maxFrames := by
    rw [hs]
    exact (by decide : 1 < Limits.default.maxFrames)
  obtain ⟨first, hfirst, hcommand, hzero⟩ := hlines 0 (Nat.zero_lt_of_lt hheight)
  have hpast : Scan.pastLoop header.lines (Frame.base 0 (image.maskAt 0)).line first.depth =
      Nest.depthBound := by
    rw [hzero, Nat.zero_mod]
    exact pastLoop_tower hlines hheight
  have hexecute := execute_repeat_zero hframes nofun hroom hheader hfirst hcommand
  rw [hpast] at hexecute
  obtain ⟨hnone, hstep⟩ := step_of_next (.silent Unit) () hrun hattached hexecute
  have hbroke := ne_broke_of_next (.silent Unit) () hrun hattached hexecute
  refine ⟨hrun, hattached, hheader, hframes, orderly_of_left hnone hbroke ?_, ?_⟩
  · rw [hstep, depth, depth, hframes]
    exact Nat.le_refl _
  · rw [stepsFrom_succ]
    exact congrArg Interpreter.frames hstep

end

/-- A loop is not always left for the line behind the one that closes it: with one loop more in
each other than there are depths, the outermost one, which has no pass, is left for a line
where it is still open. -/
theorem loop_resumes_inside : ∃ header s,
    (compile [] [("main", towerSource (Nest.depthBound + 1))]).isClean = true ∧
      Reachable s ∧ s.isRunning = true ∧
      s.image = some (compile [] [("main", towerSource (Nest.depthBound + 1))]).image ∧
      (compile [] [("main", towerSource (Nest.depthBound + 1))]).image.headerAt? 0 = some header ∧
      header.lines[0]?.map (·.command) = some (.repeatLoop (.literal "0")) ∧
      ∃ f, s.frames = [f] ∧ f.header = 0 ∧ f.line = 0 ∧
        Orderly (.silent Unit) s () 0 (.literal "0") "0" ∧
        (stepsFrom (.silent Unit) s () 1).1.frames = [{ f with line := Nest.depthBound }] ∧
        0 ∈ openLoops header.lines Nest.depthBound ∧
        ∀ closer, ClosesLoop header.lines 0 closer → Nest.depthBound ≠ closer + 1 := by
  obtain ⟨hclean, header, himage, hname, hlines⟩ := compile_tower (Nest.depthBound + 1)
  have hheight : Nest.depthBound < Nest.depthBound + 1 := Nat.lt_succ_self _
  obtain ⟨first, hfirst, hcommand, -⟩ := hlines 0 (Nat.succ_pos _)
  obtain ⟨hrun, hattached, hheader, hframes, horderly, hleft⟩ :=
    left_tower hlines himage hname hheight (Eq.refl _)
  refine ⟨header, _, hclean, .attach _ _ (.new .default), hrun, hattached, hheader, ?_, _, hframes,
    rfl, rfl, horderly, hleft, ?_, fun closer h => (not_closesLoop_tower hlines hheight h).symm⟩
  · rw [hfirst, Option.map_some, hcommand]
  · rw [openLoops_tower hlines (Nat.le_of_lt hheight), List.mem_reverse, List.mem_range]
    decide

end Switchboard.Interpreter
