import Switchboard.Document
import Switchboard.Event
import Switchboard.Text.Quoted
import Switchboard.Timestamp

/-!
# Switchboard.Record.Basic

Records of calls.

1. A call has two records: one of its start, and one of its stop, which also
   tells how long it took and why it ended.
2. A record is written as one line of JSON with its fields in a fixed order.
   When one is read, fields that may be absent are those that may be empty,
   and unknown fields are left out.
-/

namespace Switchboard

/-- What a record is about. -/
inductive RecordKind where
  | start | stop
deriving Repr, DecidableEq

namespace RecordKind

/-- The word for a kind in records. -/
def word : RecordKind → String
  | .start => "start"
  | .stop => "stop"

/-- The name of a kind in messages. -/
def name : RecordKind → String
  | .start => "Start"
  | .stop => "Stop"

/-- The kind with a word. -/
def ofWord? (word : String) : Option RecordKind := [start, stop].find? fun k => k.word == word

end RecordKind

/-- A record of a call. -/
structure CallRecord where
  kind : RecordKind
  slot : SlotId
  sequence : Nat
  cid : String
  started : Timestamp
  durationMs : Option Nat
  reason : String
  source : String
  target : String
  script : String
  payload : Option String
deriving Repr, DecidableEq

namespace CallRecord

/-- A record in which nothing is written. -/
def blank : CallRecord := ⟨.start, 0, 0, "", .epoch, none, "", "", "", "", none⟩

/-- The record with everything in it wiped out. -/
def clear (r : CallRecord) : CallRecord :=
  { r with
    kind := .start
    slot := 0
    sequence := 0
    cid := ""
    started := .epoch
    durationMs := none
    reason := ""
    source := ""
    target := ""
    script := ""
    payload := none }

/-- Nothing of a record is left when it has been wiped. -/
theorem clear_eq_blank (r : CallRecord) : r.clear = blank := rfl

/-! ## writing -/

/-- A number that may be absent. -/
def numberText : Option Nat → String
  | some n => toString n
  | none => "null"

/-- A text that may be absent. -/
def payloadText : Option String → String
  | some s => Text.quoted s
  | none => "null"

/-- The fields of a record in order, each as it is written. -/
def fieldTexts (r : CallRecord) : List (String × String) :=
  [("kind", Text.quoted r.kind.word), ("slot", toString r.slot),
    ("sequence", toString r.sequence), ("cid", Text.quoted r.cid),
    ("started", Text.quoted r.started.text), ("duration_ms", numberText r.durationMs),
    ("reason", Text.quoted r.reason), ("source", Text.quoted r.source),
    ("target", Text.quoted r.target), ("script", Text.quoted r.script),
    ("payload", payloadText r.payload)]

/-- A record as a line of JSON, with the line break at its end. -/
def line (r : CallRecord) : String :=
  let fields := r.fieldTexts.map fun (name, text) => Text.quoted name ++ ":" ++ text
  "\x7b" ++ ",".intercalate fields ++ "\x7d\n"

/-- A record as a document. -/
def document (r : CallRecord) : Document :=
  .table [("kind", .text r.kind.word), ("slot", .ofNat r.slot),
    ("sequence", .ofNat r.sequence), ("cid", .text r.cid), ("started", .text r.started.text),
    ("duration_ms", .ofOption .ofNat r.durationMs), ("reason", .text r.reason),
    ("source", .text r.source), ("target", .text r.target), ("script", .text r.script),
    ("payload", .ofOption .text r.payload)]

/-! ## reading -/

open Document (word? text? optional? Settings)

/-- The names of the fields in order. -/
def fieldNames : List String := blank.fieldTexts.map (·.1)

/-- The fields that a document gives: a table, or a list of all fields in order. -/
def settings? : Document → Option Settings
  | .table entries => some entries
  | .list items =>
    if items.length = fieldNames.length then some (fieldNames.zip items) else none
  | _ => none

/-- A kind: its word, or a table with that word as its one key and nothing below it. -/
def kind? : Document → Option RecordKind
  | .text word => RecordKind.ofWord? word
  | .table [(word, .null)] => RecordKind.ofWord? word
  | _ => none

/-- The record that a document describes. -/
def ofDocument? (d : Document) : Option CallRecord := do
  let s ← settings? d
  return {
    kind := ← s.need "kind" kind?
    slot := ← s.need "slot" word?
    sequence := ← s.need "sequence" word?
    cid := ← s.need "cid" text?
    started := ← (s.need "started" text?).bind Timestamp.parse?
    durationMs := ← s.get "duration_ms" (optional? word?) none
    reason := ← s.need "reason" text?
    source := ← s.need "source" text?
    target := ← s.need "target" text?
    script := ← s.need "script" text?
    payload := ← s.get "payload" (optional? text?) none }

end CallRecord

end Switchboard
