import Switchboard.Text.Letters
import Switchboard.Text.Numeral

/-!
# Switchboard.LogLevel

Levels of log messages. A level is written as its name, in letters of either
case, or as a number from 1, for errors, to 5, for traces.
-/

namespace Switchboard

/-- How important a message is. -/
inductive LogLevel where
  | error | warn | info | debug | trace
deriving Repr, DecidableEq

namespace LogLevel

/-- The name of a level. -/
def name : LogLevel → String
  | .error => "ERROR"
  | .warn => "WARN"
  | .info => "INFO"
  | .debug => "DEBUG"
  | .trace => "TRACE"

/-- All levels, the most important first. -/
def all : List LogLevel := [.error, .warn, .info, .debug, .trace]

/-- The level that a text names. -/
def parse? (text : String) : Option LogLevel :=
  match Text.readNat (Text.wordBound 64) text.toList with
  | some n => if n = 0 then none else all[n - 1]?
  | none => all.find? fun l => Text.alike l.name text

/-- Whether a text sets the least level that is logged: a level by its name or
number, or nothing at all, which is `off` or nought. -/
def isThreshold (text : List Char) : Bool :=
  match Text.readNat (Text.wordBound 64) text with
  | some n => n ≤ all.length
  | none =>
    let word := String.ofList text
    all.any (fun l => Text.alike l.name word) || Text.alike "off" word

end LogLevel

end Switchboard
