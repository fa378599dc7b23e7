import Switchboard.Config.Check
import Switchboard.Document
import Switchboard.Toml.Reader

/-!
# Switchboard.Config.Reader

From a document to a configuration.

1. A section is a table; what it does not set keeps its default, and what it
   sets beyond the settings known is left out. A date counts as a table that
   sets nothing.
2. A section may also be a list of its settings in order, which may end early.
   In a JSON document it must not be longer than the settings known.
3. Boards, spans, groups and registrations must have names, and spans a number
   of slots.
4. A policy is a word, or a table with that word as its one key and nothing
   below it.
-/

namespace Switchboard.Config

open Document (nat? word? bool? text? optional? list? Settings)

/-- The formats of documents that differ in how they are read. -/
inductive Format where
  | toml | json
deriving Repr, DecidableEq

/-! ## sections -/

/-- The settings that a document gives to a section with these names. -/
def settings? (f : Format) (names : List String) : Document → Option Settings
  | .table entries => some entries
  | .moment => some []
  | .list items =>
    if f = .json ∧ names.length < items.length then none else some (names.zip items)
  | _ => none

/-- The settings of an engine. -/
def engine? (f : Format) (d : Document) : Option Engine := do
  let s ← settings? f ["step_interval_ms", "steps_per_tick", "release_delay_ms", "max_frames",
    "max_symbols", "symbol_size", "decimals"] d
  let base := Engine.default
  return {
    stepIntervalMs := ← s.get "step_interval_ms" word? base.stepIntervalMs
    stepsPerTick := ← s.get "steps_per_tick" word? base.stepsPerTick
    releaseDelayMs := ← s.get "release_delay_ms" word? base.releaseDelayMs
    maxFrames := ← s.get "max_frames" word? base.maxFrames
    maxSymbols := ← s.get "max_symbols" word? base.maxSymbols
    symbolSize := ← s.get "symbol_size" word? base.symbolSize
    decimals := ← s.get "decimals" (nat? 256) base.decimals }

/-- The sizes for the work in the background. -/
def workers? (f : Format) (d : Document) : Option Workers := do
  let s ← settings? f ["message_queue_capacity", "cdr_pool_size", "ticker_idle_ms"] d
  let base := Workers.default
  return {
    queueCapacity := ← s.get "message_queue_capacity" word? base.queueCapacity
    recordCapacity := ← s.get "cdr_pool_size" word? base.recordCapacity
    tickerIdleMs := ← s.get "ticker_idle_ms" word? base.tickerIdleMs }

/-- The policy that a word names. -/
def policyOfWord? : String → Option Policy
  | "first" => some .first
  | "last" => some .last
  | "longest_idle" => some .longestIdle
  | _ => none

/-- Whether nothing is below the one key of a policy: no value in JSON, an empty
table or list in TOML. -/
def isBare (f : Format) : Document → Bool
  | .null => f == .json
  | .table [] => f == .toml
  | .list [] => f == .toml
  | _ => false

/-- A policy. -/
def policy? (f : Format) : Document → Option Policy
  | .text word => policyOfWord? word
  | .table [(word, below)] => if isBare f below then policyOfWord? word else none
  | _ => none

/-- The section with the policy. -/
def allocation? (f : Format) (d : Document) : Option Policy := do
  let s ← settings? f ["policy"] d
  s.get "policy" (policy? f) .longestIdle

/-- A span. -/
def span? (f : Format) (d : Document) : Option Span := do
  let s ← settings? f ["name", "slots"] d
  return { name := ← s.need "name" text?, slots := ← s.need "slots" word? }

/-- A group. -/
def group? (f : Format) (d : Document) : Option Group := do
  let s ← settings? f ["name", "spans", "slots", "limit", "script"] d
  return {
    name := ← s.need "name" text?
    spans := ← s.get "spans" (list? text?) []
    slots := ← s.get "slots" (list? word?) []
    limit := ← s.get "limit" (optional? word?) none
    script := ← s.get "script" (optional? text?) none }

/-- A registration. -/
def registration? (f : Format) (d : Document) : Option Registration := do
  let s ← settings? f ["name", "slots"] d
  return { name := ← s.need "name" text?, slots := ← s.get "slots" (list? word?) [] }

/-- A board. -/
def board? (f : Format) (d : Document) : Option Board := do
  let s ← settings? f ["name", "spans", "groups", "registrations"] d
  return {
    name := ← s.need "name" text?
    spans := ← s.get "spans" (list? (span? f)) []
    groups := ← s.get "groups" (list? (group? f)) []
    registrations := ← s.get "registrations" (list? (registration? f)) [] }

/-- Where scripts come from. -/
def scripts? (f : Format) (d : Document) : Option Scripts := do
  let s ← settings? f ["entry", "files", "schedule"] d
  let base := Scripts.default
  return {
    entry := ← s.get "entry" text? base.entry
    files := ← s.get "files" (list? text?) base.files
    schedule := ← s.get "schedule" (optional? text?) base.schedule }

/-- What is logged. -/
def logging? (f : Format) (d : Document) : Option Logging := do
  let s ← settings? f ["level", "json", "file_info", "spans", "directives"] d
  let base := Logging.default
  return {
    level := ← s.get "level" text? base.level
    json := ← s.get "json" bool? base.json
    fileInfo := ← s.get "file_info" bool? base.fileInfo
    spans := ← s.get "spans" bool? base.spans
    directives := ← s.get "directives" (list? text?) base.directives }

/-! ## configurations -/

/-- The configuration that a document describes. -/
def ofDocument? (f : Format) (d : Document) : Option Config := do
  let s ← settings? f ["engine", "workers", "allocation", "boards", "scripts", "logging"] d
  let base := Config.default
  return {
    engine := ← s.get "engine" (engine? f) base.engine
    workers := ← s.get "workers" (workers? f) base.workers
    policy := ← s.get "allocation" (allocation? f) base.policy
    boards := ← s.get "boards" (list? (board? f)) base.boards
    scripts := ← s.get "scripts" (scripts? f) base.scripts
    logging := ← s.get "logging" (logging? f) base.logging }

/-- The configuration that a TOML text describes, which keeps to the rules. -/
def ofToml (text : String) : Except Problem Config :=
  match (Toml.parse text).bind (ofDocument? .toml) with
  | none => .error .unreadable
  | some c => c.check.map fun _ => c

/-- The configuration that a file describes. -/
def ofFile (directory : Directory) (path : String) : Except Problem Config :=
  match directory.read path with
  | .error cause => .error (.cannotRead path cause)
  | .ok text => ofToml text

end Switchboard.Config
