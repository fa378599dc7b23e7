import Switchboard.Host

/-!
# Switchboard.Rehearsal

A host that answers from a plan. For each command the plan lists the actions
to answer with, one a call; the last one is repeated. Commands that the plan
does not name are unknown. All calls are noted.
-/

namespace Switchboard

/-- The answers still to be given, and the calls made, the latest last. -/
structure Rehearsal where
  plan : List (String × List Action)
  calls : List (String × List String)
deriving Repr, DecidableEq

namespace Rehearsal

/-- A plan of which nothing has been used. -/
def new (plan : List (String × List Action)) : Rehearsal := ⟨plan, []⟩

/-- The plan after one more call of a command; its last action stays. -/
def used (command : String) : List (String × List Action) → List (String × List Action)
  | [] => []
  | (name, actions) :: rest =>
    if name == command then
      match actions with
      | _ :: next :: others => (name, next :: others) :: rest
      | _ => (name, actions) :: rest
    else (name, actions) :: used command rest

/-- Answer a command. -/
def execute (command : String) (args : List String) (r : Rehearsal) : Option Action × Rehearsal :=
  ((r.plan.lookup command).bind List.head?,
    ⟨used command r.plan, r.calls ++ [(command, args)]⟩)

/-- The host that follows its plan. -/
def host : Host Rehearsal := ⟨execute⟩

end Rehearsal

end Switchboard
