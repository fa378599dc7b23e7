import Switchboard.IdlePool
import Switchboard.Interpreter.Basic
import Switchboard.Timer
import Switchboard.Total

/-!
# Switchboard.Config.Basic

The configuration of an exchange.

1. Boards are made of spans; the slots are numbered through all spans in
   order, from nought.
2. A group is made of whole spans of its board and of single slots; it may
   have a limit of calls and a script of its own.
3. Every section has default values, so that an empty configuration gives one
   board with eight slots in one group.
-/

namespace Switchboard

namespace Config

/-! ## sections -/

/-- How scripts are run. -/
structure Engine where
  /-- Until a script that has used up its steps goes on. -/
  stepIntervalMs : Nat
  /-- Steps taken for one event. -/
  stepsPerTick : Nat
  /-- From the end of a call until its slot is free again. -/
  releaseDelayMs : Nat
  maxFrames : Nat
  maxSymbols : Nat
  symbolSize : Nat
  /-- Decimal places that expressions keep. -/
  decimals : Nat
deriving Repr, DecidableEq

/-- Sizes for the work in the background. -/
structure Workers where
  queueCapacity : Nat
  recordCapacity : Nat
  /-- The longest pause between two looks at the timers. -/
  tickerIdleMs : Nat
deriving Repr, DecidableEq

/-- Consecutive slots of a board. -/
structure Span where
  name : String
  slots : Nat
deriving Repr, DecidableEq

/-- Slots that share a limit and a script. -/
structure Group where
  name : String
  spans : List String
  slots : List SlotId
  limit : Option Nat
  script : Option String
deriving Repr, DecidableEq

/-- Slots that are registered together. -/
structure Registration where
  name : String
  slots : List SlotId
deriving Repr, DecidableEq

/-- A board, with the groups and registrations named on it. -/
structure Board where
  name : String
  spans : List Span
  groups : List Group
  registrations : List Registration
deriving Repr, DecidableEq

/-- Where scripts come from, and where calls begin. -/
structure Scripts where
  entry : String
  files : List String
  schedule : Option String
deriving Repr, DecidableEq

/-- What is logged, and in what form. -/
structure Logging where
  level : String
  json : Bool
  fileInfo : Bool
  spans : Bool
  directives : List String
deriving Repr, DecidableEq

/-! ## defaults -/

/-- Ten milliseconds between turns of thirty-two steps. -/
def Engine.default : Engine :=
  ⟨10, 32, 0, Limits.default.maxFrames, Limits.default.maxSymbols, Limits.default.symbolSize,
    Limits.default.decimals⟩

/-- Room for 256 messages and 64 records. -/
def Workers.default : Workers := ⟨256, 64, 1000⟩

/-- One span, and one group of it. -/
def Board.default : Board :=
  ⟨"board0", [⟨"span0", 8⟩], [⟨"default", ["span0"], [], none, none⟩], []⟩

/-- No files. -/
def Scripts.default : Scripts := ⟨defaultEntry, [], none⟩

/-- Messages that inform, as plain text. -/
def Logging.default : Logging := ⟨"info", false, false, false, []⟩

/-- What a script may use up. -/
def Engine.limits (e : Engine) : Limits := ⟨e.maxFrames, e.maxSymbols, e.symbolSize, e.decimals⟩

/-- A number of milliseconds as a span of time. -/
def ofMillis (ms : Nat) : Nanoseconds := ms * 1000000

/-- Until a script that has used up its steps goes on. -/
def Engine.stepInterval (e : Engine) : Nanoseconds := ofMillis e.stepIntervalMs

/-- From the end of a call until its slot is free again. -/
def Engine.releaseDelay (e : Engine) : Nanoseconds := ofMillis e.releaseDelayMs

end Config

/-- The configuration of an exchange. -/
structure Config where
  engine : Config.Engine
  workers : Config.Workers
  policy : Policy
  boards : List Config.Board
  scripts : Config.Scripts
  logging : Config.Logging
deriving Repr, DecidableEq

namespace Config

/-- The configuration that sets nothing. -/
def default : Config :=
  ⟨.default, .default, .longestIdle, [.default], .default, .default⟩

/-- The number of slots of a board. -/
def Board.slotCount (b : Board) : Nat := total (b.spans.map (·.slots))

/-- The number of slots. -/
def slotCount (c : Config) : Nat := total (c.boards.map (·.slotCount))

end Config

end Switchboard
