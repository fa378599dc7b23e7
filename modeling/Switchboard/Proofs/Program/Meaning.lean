import Switchboard.Host
import Switchboard.Proofs.Interpreter.Visible
import Switchboard.Proofs.Program.Basic

/-!
# Switchboard.Proofs.Program.Meaning

What structured programs mean, without lines and frames.

1. A program goes from scene to scene.  A scene has the symbols and the host's
   world, and lists what was done: the calls of the host, and the tables of
   symbols that came up.
2. Of a chain, the first body whose guard holds is run, and no other.
3. A loop goes from pass to pass.  Each begins at the opener, which may end the
   loop; `continue` begins the next pass at once, and `break` ends the loop.
4. Values are those of the language itself.  They depend on the header, and on
   the loops around a phrase through the pass that each is in (`passes`, the
   innermost loop first).
5. `fuel` bounds the passes of each loop.  A program that uses it up is
   `unfinished`, and what it has done up to there still counts.
-/

namespace Switchboard

/-! ## scenes -/

/-- Something that a program did. -/
inductive Effect where
  /-- The symbols were changed to these. -/
  | update (symbols : Symbols)
  /-- The host executed a command. -/
  | call (command : String) (args : List String)
deriving Repr, DecidableEq

/-- What a program can change, and what it did, the earliest first. -/
structure Scene (σ : Type) where
  symbols : Symbols
  world : σ
  effects : List Effect
deriving DecidableEq

namespace Scene

variable {σ : Type}

/-- Put other symbols in place, which is an effect if they differ. -/
def store (x : Scene σ) (symbols : Symbols) : Scene σ :=
  if symbols = x.symbols then x
  else { x with symbols, effects := x.effects ++ [.update symbols] }

/-- Let the host execute a command. -/
def call (x : Scene σ) (host : Host σ) (command : String) (args : List String) : Scene σ :=
  { x with
    world := (host.execute command args x.world).2
    effects := x.effects ++ [.call command args] }

@[simp] theorem symbols_store (x : Scene σ) (symbols : Symbols) :
    (x.store symbols).symbols = symbols := by
  unfold store
  split
  · next h => exact h.symm
  · rfl

/-- Storing what is there already is no effect. -/
@[simp] theorem store_self (x : Scene σ) : x.store x.symbols = x := by
  simp [store]

end Scene

/-- How a program ended. -/
inductive Ending where
  /-- It came to its end. -/
  | done
  /-- It leaves the innermost loop. -/
  | broke
  /-- It goes on with the next pass of the innermost loop. -/
  | continued
  /-- A line could not be carried out. -/
  | fault (cause : Fault)
  /-- A command leads away from here. -/
  | jump (command : Command)
  /-- A loop has used up its passes. -/
  | unfinished
deriving Repr, DecidableEq

/-! ## plain commands -/

/-- What stays the same while a program runs. -/
structure Setting (σ : Type) where
  host : Host σ
  limits : Limits
  header : Nat
  lastError : Option String

namespace Setting

variable {σ : Type}

/-- An interpreter that sees what a program sees in the given passes. -/
def view (e : Setting σ) (passes : List Nat) (symbols : Symbols) : Interpreter where
  limits := e.limits
  image := none
  frames := passes.map (fun index => ⟨e.header, 0, .loop 0, index, 0, false⟩) ++ [.base e.header 0]
  symbols := symbols
  status := .running
  lastError := e.lastError

/-- The innermost loop is in the first of the passes. -/
theorem loopIndex_view (e : Setting σ) (passes : List Nat) (symbols : Symbols) :
    (e.view passes symbols).loopIndex = passes.headD 0 := by
  cases passes <;> rfl

/-- The result of a condition. -/
def condition (e : Setting σ) (passes : List Nat) (x : Scene σ) (cond : Condition) :
    Except Fault Bool :=
  (e.view passes x.symbols).condition cond

/-- What a plain command does. -/
def plain (e : Setting σ) (passes : List Nat) (x : Scene σ) (command : Command) :
    Scene σ × Ending :=
  match (e.view passes x.symbols).update? command with
  | some (.ok symbols) => (x.store symbols, .done)
  | some (.error cause) => (x, .fault cause)
  | none =>
    match command with
    | .application name args =>
      match (e.view passes x.symbols).values args with
      | .ok texts => (x.call e.host name texts, .done)
      | .error cause => (x, .fault cause)
    | _ => (x, .jump command)

end Setting

/-! ## loops -/

/-- Begin a pass, unless the loop is over.  A `repeat` has as many passes as its count says,
and a `foreach` one for each piece of its list. -/
def Opener.begin {σ : Type} (e : Setting σ) (passes : List Nat) (x : Scene σ) :
    Opener → Except Fault (Option (Scene σ))
  | .doLoop => .ok (some x)
  | .whileLoop cond => (e.condition passes x cond).map fun due => if due then some x else none
  | .repeatLoop count => do
    let text ← (e.view passes x.symbols).value count
    match Text.readNat (Text.wordBound 64) (Text.trim text.toList) with
    | none => throw (.arithmetic (.invalidNumber text))
    | some n => return if passes.headD 0 < n then some x else none
  | .eachLoop target items delimiter => do
    let text ← (e.view passes x.symbols).value items
    let pieces := if text.isEmpty then [] else text.toList.splitOn delimiter
    match (pieces.map String.ofList)[passes.headD 0]? with
    | none => return none
    | some item =>
      let symbols ← x.symbols.assign (some e.header) target item
      return some (x.store symbols)

/-- A `repeat` begins a pass if the interpreter says that one is due. -/
theorem Opener.begin_repeatLoop {σ : Type} (e : Setting σ) (passes : List Nat) (x : Scene σ)
    (count : Argument) : (Opener.repeatLoop count).begin e passes x =
      ((e.view passes x.symbols).repeatDue count).map fun due => if due then some x else none := by
  simp only [Opener.begin, Interpreter.repeatDue, e.loopIndex_view, bind, Except.bind]
  cases (e.view passes x.symbols).value count with
  | error cause => rfl
  | ok text =>
      dsimp only
      cases Text.readNat (Text.wordBound 64) (Text.trim text.toList) with
      | none => rfl
      | some n => simp [pure, Except.pure, Except.map]

/-- Whether the loop is over after a pass. -/
def Closer.ended {σ : Type} (e : Setting σ) (passes : List Nat) (x : Scene σ) :
    Closer → Except Fault Bool
  | .endLoop => .ok false
  | .untilLoop cond => e.condition passes x cond

/-- The passes of a loop from pass `index` on, no more than a number of them. -/
def rounds {σ : Type} (begin : Nat → Scene σ → Except Fault (Option (Scene σ)))
    (body : Nat → Scene σ → Scene σ × Ending) (ended : Nat → Scene σ → Except Fault Bool) :
    Nat → Nat → Scene σ → Scene σ × Ending
  | 0, _, x => (x, .unfinished)
  | n + 1, index, x =>
    match begin index x with
    | .error cause => (x, .fault cause)
    | .ok none => (x, .done)
    | .ok (some x) =>
      match body index x with
      | (x, .done) =>
        match ended index x with
        | .error cause => (x, .fault cause)
        | .ok true => (x, .done)
        | .ok false => rounds begin body ended n (index + 1) x
      | (x, .continued) => rounds begin body ended n (index + 1) x
      | (x, .broke) => (x, .done)
      | (x, ending) => (x, ending)

/-! ## programs -/

mutual

/-- What a program does in a scene, and how it ends. -/
def Program.meaning {σ : Type} (e : Setting σ) (fuel : Nat) (passes : List Nat) (x : Scene σ) :
    Program → Scene σ × Ending
  | .nil => (x, .done)
  | .cons phrase rest =>
    match phrase.meaning e fuel passes x with
    | (x, .done) => rest.meaning e fuel passes x
    | r => r

/-- What a phrase does. -/
def Phrase.meaning {σ : Type} (e : Setting σ) (fuel : Nat) (passes : List Nat) (x : Scene σ) :
    Phrase → Scene σ × Ending
  | .plain command _ => e.plain passes x command
  | .chain _ cond body arms =>
    match e.condition passes x cond with
    | .error cause => (x, .fault cause)
    | .ok true => body.meaning e fuel passes x
    | .ok false => arms.meaning e fuel passes x
  | .loop opener body closer =>
    rounds (fun index x => opener.begin e (index :: passes) x)
      (fun index x => body.meaning e fuel (index :: passes) x)
      (fun index x => closer.ended e (index :: passes) x) fuel 0 x
  | .breakLoop => (x, .broke)
  | .continueLoop => (x, .continued)

/-- What the arms of a chain do, none of whose guards has held so far. -/
def Arms.meaning {σ : Type} (e : Setting σ) (fuel : Nat) (passes : List Nat) (x : Scene σ) :
    Arms → Scene σ × Ending
  | .done => (x, .done)
  | .other body => body.meaning e fuel passes x
  | .more cond body arms =>
    match e.condition passes x cond with
    | .error cause => (x, .fault cause)
    | .ok true => body.meaning e fuel passes x
    | .ok false => arms.meaning e fuel passes x

end

/-! ## ways out of a loop -/

/-- Whether a program goes on outside of itself, in the loop around it. -/
def Ending.leaves : Ending → Bool
  | .broke | .continued => true
  | _ => false

/-- A loop takes the ways out of it. -/
theorem leaves_rounds {σ : Type} (begin : Nat → Scene σ → Except Fault (Option (Scene σ)))
    (body : Nat → Scene σ → Scene σ × Ending) (ended : Nat → Scene σ → Except Fault Bool)
    (n index : Nat) (x : Scene σ) : (rounds begin body ended n index x).2.leaves = false := by
  induction n generalizing index x with
  | zero => rfl
  | succ n ih =>
      rw [rounds]
      split
      · rfl
      · rfl
      · next y _ =>
          split
          · split
            · rfl
            · rfl
            · exact ih _ _
          · exact ih _ _
          · rfl
          · next z ending hne hne' hne'' _ =>
              cases ending with
              | broke => exact absurd rfl hne''
              | continued => exact absurd rfl hne'
              | _ => rfl

mutual

/-- A program leaves a loop only if it stands inside one. -/
theorem Program.enclosed_of_leaves {σ : Type} {e : Setting σ} {fuel : Nat} {passes : List Nat}
    {inLoop : Bool} : (p : Program) → (x : Scene σ) →
      (p.meaning e fuel passes x).2.leaves = true → p.Enclosed inLoop → inLoop = true
  | .nil, x, h, _ => by simp [Program.meaning, Ending.leaves] at h
  | .cons phrase rest, x, h, he => by
      rw [Program.meaning] at h
      split at h
      · exact rest.enclosed_of_leaves _ h he.2
      · exact phrase.enclosed_of_leaves x h he.1

theorem Phrase.enclosed_of_leaves {σ : Type} {e : Setting σ} {fuel : Nat} {passes : List Nat}
    {inLoop : Bool} : (p : Phrase) → (x : Scene σ) →
      (p.meaning e fuel passes x).2.leaves = true → p.Enclosed inLoop → inLoop = true
  | .plain command _, x, h, _ => by
      simp only [Phrase.meaning, Setting.plain] at h
      split at h
      · simp [Ending.leaves] at h
      · simp [Ending.leaves] at h
      · split at h
        · split at h <;> simp [Ending.leaves] at h
        · simp [Ending.leaves] at h
  | .chain _ cond body arms, x, h, he => by
      rw [Phrase.meaning] at h
      split at h
      · simp [Ending.leaves] at h
      · exact body.enclosed_of_leaves x h he.1
      · exact arms.enclosed_of_leaves x h he.2
  | .loop opener body closer, x, h, _ => by
      rw [Phrase.meaning, leaves_rounds] at h
      contradiction
  | .breakLoop, _, _, he => he
  | .continueLoop, _, _, he => he

theorem Arms.enclosed_of_leaves {σ : Type} {e : Setting σ} {fuel : Nat} {passes : List Nat}
    {inLoop : Bool} : (a : Arms) → (x : Scene σ) →
      (a.meaning e fuel passes x).2.leaves = true → a.Enclosed inLoop → inLoop = true
  | .done, x, h, _ => by simp [Arms.meaning, Ending.leaves] at h
  | .other body, x, h, he => body.enclosed_of_leaves x h he
  | .more cond body arms, x, h, he => by
      rw [Arms.meaning] at h
      split at h
      · simp [Ending.leaves] at h
      · exact body.enclosed_of_leaves x h he.1
      · exact arms.enclosed_of_leaves x h he.2

end

end Switchboard
