import Switchboard.Proofs.Program.Run
import Switchboard.Proofs.Program.Text

/-!
# Switchboard.Proofs.Program.Correct

Compiled texts do what the programs mean that they are the texts of.

1. The text of a structured program that compiles without problems has one header, and
   the lines of it are the commands of the program, in order, unless a chain of choices
   stands directly in an arm of another one.
2. An interpreter that is attached to it, with a host that always lets it go on,
   does what the program means, in the same order, and ends as it does
   (`program_correct`).  It neither ends nor goes on for longer than that.
3. That needs loops nested no deeper than depths can be told apart, and less deep
   than the limit of frames.
4. A chain of choices in an arm of another one means something else than its text does
   (`choice_in_choice`).
-/

namespace Switchboard

variable {σ : Type}

/-- After `m` steps a script has ended in the same way as a program: it has run off
its last line, or it still runs and stands at the line that is at fault or leads
away, or it has taken as many steps as there was fuel. -/
def EndsAs (image : Image) (fuel m : Nat) (s : Interpreter) : Ending → Prop
  | .done => s.status = .exited .exit
  | .fault cause => s.isRunning = true ∧ ∃ after, s.execute image = .fault cause after
  | .jump command => s.isRunning = true ∧ s.command? = some command
  | .unfinished => s.isRunning = true ∧ fuel ≤ m
  | .broke | .continued => False

theorem Track.command?_spot {t : Track σ} {line : Nat} {command : Command}
    (h : t.Has line command) (loops : List (Nat × Nat)) (symbols : Symbols) :
    (t.spot line loops symbols).command? = some command := by
  obtain ⟨f, hf, hline, hheader⟩ := t.top?_spot line loops symbols
  obtain ⟨l, hl, rfl⟩ := Option.map_eq_some_iff.mp h
  have himage : (t.spot line loops symbols).image = some t.image := rfl
  simp [Interpreter.command?, hf, himage, hline, hheader, t.found, hl]

/-- A program that takes up a whole header does what it means, from the first line
on. -/
theorem Track.runs (t : Track σ) {p : Program} (hs : t.header.lines.map Line.shape = p.shapes 0)
    (he : p.Enclosed false) (hroom : p.loops < t.setting.limits.maxFrames) (fuel : Nat)
    (x : Scene σ) :
    ∃ m, let q := (t.at_ 0 [] x).walk t.setting.host m
      let r := p.meaning t.setting fuel [] x
      q.script.symbols = r.1.symbols ∧ q.world = r.1.world ∧ q.effects = r.1.effects ∧
        EndsAs t.image fuel m q.script r.2 := by
  have hlen : t.header.lines.length = p.commands.length := by
    rw [← p.length_shapes 0, ← hs, List.length_map]
  have hend : t.header.lines[0 + p.commands.length]? = none := by
    rw [List.getElem?_eq_none_iff]
    omega
  have hfits : t.Fits (p.shapes 0) p.loops 0 0 [] := by
    refine ⟨⟨[], by rw [List.append_nil, List.drop_zero, hs]⟩, by simp, by simpa using hroom, ?_⟩
    intro l hl
    rw [p.length_shapes, hend] at hl
    contradiction
  obtain ⟨m, hland⟩ := p.arrives t fuel 0 x hfits
  -- outside of all loops there is none that the program could leave
  have hstays : (p.meaning t.setting fuel [] x).2.leaves = true → p.Enclosed false →
      false = true := p.enclosed_of_leaves x
  change t.Lands fuel 0 (0 + p.commands.length) [] (p.meaning t.setting fuel [] x) m _ at hland
  generalize p.meaning t.setting fuel [] x = r at hland hstays
  obtain ⟨y, ending⟩ := r
  cases ending with
  | done =>
      have hq : (t.at_ 0 [] x).walk t.setting.host (m + 1) =
          ⟨{ t.spot (0 + p.commands.length) [] y.symbols with status := .exited .exit }, y.world,
            y.effects⟩ := by
        rw [Progress.walk_add, show (t.at_ 0 [] x).walk t.setting.host m = _ from hland]
        exact t.step_end hend y
      refine ⟨m + 1, ?_⟩
      dsimp only
      rw [hq]
      exact ⟨rfl, rfl, rfl, rfl⟩
  | broke => exact absurd (hstays rfl he) (by simp)
  | continued => exact absurd (hstays rfl he) (by simp)
  | fault cause =>
      obtain ⟨j, inner, s, hq, hexec⟩ := hland
      refine ⟨m, ?_⟩
      dsimp only
      rw [hq]
      exact ⟨rfl, rfl, rfl, rfl, s, hexec⟩
  | jump command =>
      obtain ⟨j, inner, hq, hcommand⟩ := hland
      refine ⟨m, ?_⟩
      dsimp only
      rw [hq]
      exact ⟨rfl, rfl, rfl, rfl, t.command?_spot hcommand inner y.symbols⟩
  | unfinished =>
      obtain ⟨hfuel, j, inner, hq⟩ := hland
      refine ⟨m, ?_⟩
      dsimp only
      rw [hq]
      exact ⟨rfl, rfl, rfl, rfl, hfuel⟩

/-- A header that compiles without problems and has the commands of a program does what the
program means. -/
theorem runs_of_commands {commands : Commands} {sources : List (String × String)}
    (hclean : (compile commands sources).isClean = true) {i : Nat} {h : Header}
    (hh : (compile commands sources).image.headerAt? i = some h) {p : Program}
    (hp : h.lines.map (·.command) = p.commands) (hdepth : p.loops < Nest.depthBound)
    {s : Interpreter} (hs : s.Reachable) (hroom : p.loops < s.limits.maxFrames)
    {entry : Option String}
    (hentry : (compile commands sources).image.indexOf? (entry.getD defaultEntry) = some i)
    {host : Host σ}
    (hhost : ∀ command args world, (host.execute command args world).1 = some .proceed)
    (symbols : Symbols) (world : σ) (fuel : Nat) :
    let begun := { (s.attach (compile commands sources).image entry).1 with symbols }
    let r := p.meaning ⟨host, s.limits, i, begun.lastError⟩ fuel [] ⟨symbols, world, []⟩
    ∃ m, let q := Progress.walk host m ⟨begun, world, []⟩
      q.script.symbols = r.1.symbols ∧ q.world = r.1.world ∧ q.effects = r.1.effects ∧
        EndsAs (compile commands sources).image fuel m q.script r.2 := by
  obtain ⟨after, hfollows, -⟩ := follows_of_isClean hclean hh
  have hdeep : Nest.empty.depth + p.loops < Nest.depthBound := by rwa [Nest.empty, Nat.zero_add]
  obtain ⟨-, hshapes, henclosed, -⟩ := p.fits_of_follows hfollows hp hdeep
  generalize (compile commands sources).image = image at hh hentry ⊢
  have hframes := hs.sound.frames_attach hentry
  have hbegun : { (s.attach image entry).1 with symbols } =
      ({ limits := s.limits, image := some image, frames := [.base i (image.maskAt i)], symbols,
         status := .running, lastError := (s.attach image entry).1.lastError } : Interpreter) := by
    rw [← hframes]
    unfold Interpreter.attach
    rw [hentry]
    dsimp only
    split <;> rfl
  let t : Track σ := ⟨⟨host, s.limits, i, (s.attach image entry).1.lastError⟩, image, h,
    image.maskAt i, hh, hhost⟩
  have hruns := t.runs hshapes henclosed hroom fuel ⟨symbols, world, []⟩
  intro begun
  have hstart : (⟨begun, world, []⟩ : Progress σ) = t.at_ 0 [] ⟨symbols, world, []⟩ :=
    congrArg (Progress.mk · world []) hbegun
  rw [hstart]
  exact hruns

/-- The text of a program that compiles without problems has one header.  Its lines are the
commands of the program exactly if no chain of choices stands directly in an arm of another
one.  Then an interpreter that is attached to it, with any symbols, and whose host always
lets it go on, comes after some number of steps to where its symbols, the host's world and
all that it did, in order, are what the program means, and it has ended as the program has.
For a program that does not end, that holds with any fuel, and after at least as many
steps. -/
theorem program_correct {commands : Commands} {file source : String} {p : Program}
    (htext : p.IsText commands source)
    (hclean : (compile commands [(file, source)]).isClean = true)
    (hdepth : p.loops < Nest.depthBound) {s : Interpreter} (hs : s.Reachable)
    (hroom : p.loops < s.limits.maxFrames) {entry : Option String} {i : Nat}
    (hentry : (compile commands [(file, source)]).image.indexOf? (entry.getD defaultEntry) =
      some i)
    {host : Host σ}
    (hhost : ∀ command args world, (host.execute command args world).1 = some .proceed) :
    (∃ header, (compile commands [(file, source)]).image.headers = [header] ∧
      (header.lines.map (·.command) = p.commands ↔ p.Legible false)) ∧
      (p.Legible false → ∀ (symbols : Symbols) (world : σ) (fuel : Nat),
        let begun := { (s.attach (compile commands [(file, source)]).image entry).1 with symbols }
        let r := p.meaning ⟨host, s.limits, i, begun.lastError⟩ fuel [] ⟨symbols, world, []⟩
        ∃ m, let q := Progress.walk host m ⟨begun, world, []⟩
          q.script.symbols = r.1.symbols ∧ q.world = r.1.world ∧ q.effects = r.1.effects ∧
            EndsAs (compile commands [(file, source)]).image fuel m q.script r.2) := by
  obtain ⟨header, himage, hcommands⟩ := commands_eq_iff_legible htext hclean hdepth
  refine ⟨⟨header, himage, hcommands⟩, fun hlegible symbols world fuel => ?_⟩
  have hheader : (compile commands [(file, source)]).image.headerAt? i = some header := by
    obtain ⟨hi, -⟩ := List.findIdx?_eq_some_iff_getElem.mp hentry
    obtain rfl : i = 0 := by
      rw [himage, List.length_singleton] at hi
      omega
    rw [Image.headerAt?, himage]
    rfl
  exact runs_of_commands hclean hheader (hcommands.mpr hlegible) hdepth hs hroom hentry hhost
    symbols world fuel

/-- A script whose loop does nothing in its second pass. -/
def tickScript : String :=
  "@main\n repeat 3\n if %index -eq 1\n continue\n endif\n tick %index\n loop\n"

/-- The image of it. -/
def tickImage : Image :=
  let second : Condition :=
    [⟨.first, false, .compare (.symbol "index") (.numeric .eq) (.literal "1")⟩]
  ⟨[⟨"main", "main",
    [⟨.repeatLoop (.literal "3"), 0, 0, 2⟩, ⟨.branch second, 1, 0, 3⟩, ⟨.continueLoop, 1, 0, 4⟩,
      ⟨.endBranch, 1, 0, 5⟩, ⟨.application "tick" [.symbol "index"], 1, 0, 6⟩, ⟨.endLoop, 1, 0, 7⟩],
    [], 0⟩]⟩

/-- The program that it is the text of. -/
def tickProgram : Program :=
  let second : Condition :=
    [⟨.first, false, .compare (.symbol "index") (.numeric .eq) (.literal "1")⟩]
  .cons
    (.loop (.repeatLoop (.literal "3"))
      (.cons (.chain .branch second (.cons .continueLoop .nil) .done)
        (.cons (.plain (.application "tick" [.symbol "index"]) rfl) .nil))
      .endLoop)
    .nil

/-- A host that does what it is told. -/
def tickHost : Host Unit := ⟨fun _ _ world => (some .proceed, world)⟩

/-- A source with one heading is the text of each program with the commands of its image. -/
theorem isText_of_image {commands : Commands} {file source : String} {p : Program}
    {header : Header} (hclean : (compile commands [(file, source)]).isClean = true)
    (himage : (compile commands [(file, source)]).image = ⟨[header]⟩)
    (hone : (headings [(file, source)]).length = 1)
    (hp : List.Forall₂ Command.Alike (header.lines.map (·.command)) p.commands) :
    p.IsText commands source := by
  obtain ⟨g, hg⟩ := List.length_eq_one_iff.mp hone
  obtain ⟨q, header', hq, hheaders, hcommands⟩ := exists_isText hclean hg
  rw [himage] at hheaders
  obtain rfl : header = header' := List.singleton_inj.mp hheaders
  exact hq.alike (hcommands ▸ hp)

theorem program_correct_tick :
    let begun := ((Interpreter.new .default).attach tickImage none).1
    tickProgram.IsText [("tick", 0)] tickScript ∧
      (compile [("tick", 0)] [("main", tickScript)]).isClean = true ∧
      (compile [("tick", 0)] [("main", tickScript)]).image = tickImage ∧
      ∃ m, (Progress.walk tickHost m ⟨begun, (), []⟩).effects =
          [.call "tick" ["0"], .call "tick" ["2"]] ∧
        (Progress.walk tickHost m ⟨begun, (), []⟩).script.status = .exited .exit := by
  intro begun
  obtain ⟨hclean, himage⟩ : (compile [("tick", 0)] [("main", tickScript)]).isClean = true ∧
      (compile [("tick", 0)] [("main", tickScript)]).image = tickImage := by decide +kernel
  have hentry : (compile [("tick", 0)] [("main", tickScript)]).image.indexOf?
      ((none : Option String).getD defaultEntry) = some 0 := by
    rw [himage]
    decide +kernel
  have htext : tickProgram.IsText [("tick", 0)] tickScript :=
    isText_of_image hclean himage (by decide +kernel) (List.forall₂_same.mpr fun _ _ => .inl rfl)
  have hcorrect := program_correct htext hclean (by decide) (.new .default) (by decide) hentry
    (fun _ _ _ => rfl : ∀ command args world,
      (tickHost.execute command args world).1 = some .proceed)
  have hlegible : tickProgram.Legible false := by simp [tickProgram, Program.Legible,
    Phrase.Legible, Arms.Legible]
  rw [himage] at hcorrect
  have hruns : ∀ r, tickProgram.meaning
      ⟨tickHost, (Interpreter.new .default).limits, 0, begun.lastError⟩ 5 []
        ⟨begun.symbols, (), []⟩ = r →
      ∃ m, (Progress.walk tickHost m ⟨begun, (), []⟩).effects = r.1.effects ∧
        EndsAs tickImage 5 m (Progress.walk tickHost m ⟨begun, (), []⟩).script r.2 := by
    rintro _ rfl
    obtain ⟨m, hm⟩ := hcorrect.2 hlegible begun.symbols () 5
    exact ⟨m, hm.2.2⟩
  exact ⟨htext, hclean, himage, hruns (⟨begun.symbols, (), _⟩, .done) (by decide +kernel)⟩

/-! ## a choice in a choice -/

/-- A script with a chain of choices in the first of two arms of another one. -/
def choiceScript : String :=
  "@main\n case a\n case \"\"\n set x 1\n endcase\n case d\n set y 1\n endcase\n"

/-- The program that it is the text of. -/
def choiceProgram : Program :=
  let holds (text : String) : Condition := [⟨.first, false, .value (.literal text)⟩]
  let set (name : String) : Program := .cons (.plain (.set name [.literal "1"]) rfl) .nil
  .cons
    (.chain .choice (holds "a") (.cons (.chain .choice (holds "") (set "x") .done) .nil)
      (.more (holds "d") (set "y") .done))
    .nil

/-- The image of it, in which the second `case` goes on with the first chain, and the third
opens another one. -/
def choiceImage : Image :=
  let holds (text : String) : Condition := [⟨.first, false, .value (.literal text)⟩]
  ⟨[⟨"main", "main",
    [⟨.choice (holds "a") true, 0, 0, 2⟩, ⟨.choice (holds "") false, 0, 0, 3⟩,
      ⟨.set "x" [.literal "1"], 0, 0, 4⟩, ⟨.endChoice, 0, 0, 5⟩,
      ⟨.choice (holds "d") true, 0, 0, 6⟩,
      ⟨.set "y" [.literal "1"], 0, 0, 7⟩, ⟨.endChoice, 0, 0, 8⟩], [], 0⟩]⟩

/-- A script that has ended does nothing more. -/
theorem Progress.walk_of_not_running {host : Host σ} {q : Progress σ}
    (h : q.script.isRunning = false) (n : Nat) : q.walk host n = q := by
  induction n with
  | zero => rfl
  | succ n ih =>
      have hstep : q.step host = q := by
        simp [Progress.step, Progress.deeds, Interpreter.step_of_not_running host q.world h,
          Interpreter.asked?, h]
      rw [walk, hstep, ih]

/-- A program with a chain of choices in an arm of another one, whose text compiles without
problems, means that nothing is set: the guard of the first arm holds, and that of the chain
inside of it does not.  But the script sets `y`. -/
theorem choice_in_choice :
    choiceProgram.IsText [] choiceScript ∧
      (compile [] [("main", choiceScript)]).isClean = true ∧
      choiceProgram.loops = 0 ∧
      let image := (compile [] [("main", choiceScript)]).image
      let begun := ((Interpreter.new .default).attach image none).1
      let r := choiceProgram.meaning ⟨tickHost, Limits.default, 0, begun.lastError⟩ 0 []
        ⟨begun.symbols, (), []⟩
      r = (⟨begun.symbols, (), []⟩, .done) ∧
        ∀ m, let q := Progress.walk tickHost m ⟨begun, (), []⟩
          ¬ (q.effects = r.1.effects ∧ EndsAs image 0 m q.script r.2) := by
  obtain ⟨hclean, himage⟩ : (compile [] [("main", choiceScript)]).isClean = true ∧
      (compile [] [("main", choiceScript)]).image = choiceImage := by decide +kernel
  have htext : choiceProgram.IsText [] choiceScript := by
    refine isText_of_image hclean himage (by decide +kernel) ?_
    exact .cons (.inl rfl) (.cons (.inr ⟨_, _, _, rfl, rfl⟩) (.cons (.inl rfl) (.cons (.inl rfl)
      (.cons (.inr ⟨_, _, _, rfl, rfl⟩) (.cons (.inl rfl) (.cons (.inl rfl) .nil))))))
  rw [himage]
  refine ⟨htext, hclean, by decide, ?_⟩
  intro image begun r
  have hr : r = (⟨begun.symbols, (), []⟩, .done) := by decide +kernel
  refine ⟨hr, fun m => ?_⟩
  intro q
  rw [hr]
  rintro ⟨heffects, hends⟩
  have hbefore : ∀ k < 6, (Progress.walk tickHost k ⟨begun, (), []⟩).script.isRunning = true := by
    decide +kernel
  have hafter : (Progress.walk tickHost 6 ⟨begun, (), []⟩).script.isRunning = false ∧
      (Progress.walk tickHost 6 ⟨begun, (), []⟩).effects ≠ [] := by
    decide +kernel
  rcases Nat.lt_or_ge m 6 with hm | hm
  · have hrun := hbefore m hm
    rw [Interpreter.isRunning,
      show (Progress.walk tickHost m ⟨begun, (), []⟩).script.status = _ from hends] at hrun
    contradiction
  · obtain ⟨n, rfl⟩ := Nat.exists_eq_add_of_le hm
    refine hafter.2 ?_
    rw [← Progress.walk_of_not_running hafter.1 n, ← Progress.walk_add]
    exact heffects

end Switchboard
