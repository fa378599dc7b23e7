import Switchboard.Config.Basic
import Switchboard.Error
import Switchboard.Schedule.Rule
import Switchboard.Script.Compiler

/-!
# Switchboard.Source

Where scripts come from, and what is loaded from there.

1. A source is kept in memory or names files of a directory, which are read
   whenever scripts are loaded.
2. Scripts and schedule are loaded together: first the scripts are read and
   compiled, then the schedule is read. The first failure is the result.
3. What is loaded has a generation, which counts from one.
-/

namespace Switchboard

/-- Where scripts and the schedule come from. Texts have the name of their file first. -/
inductive Source where
  | memory (scripts : List (String × String)) (schedule : Option (String × String))
  | files (scripts : List String) (schedule : Option String)
deriving Repr, DecidableEq

namespace Source

/-- The files that a configuration names. -/
def ofConfig (c : Config.Scripts) : Source := .files c.files c.schedule

/-- The source in memory with a script replaced or added. -/
def setScript (name text : String) : Source → Source
  | .memory scripts schedule => .memory (Directory.put name text scripts) schedule
  | s => s

/-- The source in memory with another schedule. -/
def setSchedule (name text : String) : Source → Source
  | .memory scripts _ => .memory scripts (some (name, text))
  | s => s

/-- The text of a file, after its name. -/
def readFile (d : Directory) (path : String) : Except Error (String × String) :=
  match d.read path with
  | .ok text => .ok (path, text)
  | .error cause => .error (.config (.cannotRead path cause))

/-- The scripts. -/
def scripts (d : Directory) : Source → Except Error (List (String × String))
  | .memory scripts _ => .ok scripts
  | .files paths _ => paths.mapM (readFile d)

/-- The schedule, if there is one. -/
def schedule (d : Directory) : Source → Except Error (Option (String × String))
  | .memory _ schedule => .ok schedule
  | .files _ none => .ok none
  | .files _ (some path) => (readFile d path).map some

end Source

/-! ## loading -/

/-- What was loaded. -/
structure LoadedScripts where
  image : Image
  rules : List Schedule.Rule
  generation : Nat
deriving Repr, DecidableEq

namespace LoadedScripts

/-- The rules of a schedule. -/
def rulesOf : Option (String × String) → Except Error (List Schedule.Rule)
  | none => .ok []
  | some (file, text) =>
    (Schedule.parse text).mapError fun (line, p) => .config (.schedule file line p)

/-- Load scripts and schedule. -/
def load (commands : Commands) (source : Source) (d : Directory) (generation : Nat) :
    Except Error LoadedScripts := do
  let texts ← source.scripts d
  let compiled := compile commands texts
  if !compiled.isClean then throw (.compile compiled.diagnostics)
  let rules ← rulesOf (← source.schedule d)
  return ⟨compiled.image, rules, generation⟩

end LoadedScripts

end Switchboard
