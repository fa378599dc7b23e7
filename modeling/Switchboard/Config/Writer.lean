import Switchboard.Config.Reader

/-!
# Switchboard.Config.Writer

From a configuration to a document. Every setting is written, also one that
has its default.
-/

namespace Switchboard

open Document (ofNat ofOption ofList)

/-- The word for a policy. -/
def Policy.word : Policy → String
  | .first => "first"
  | .last => "last"
  | .longestIdle => "longest_idle"

namespace Config

/-- The settings of an engine. -/
def Engine.document (e : Engine) : Document :=
  .table [("step_interval_ms", ofNat e.stepIntervalMs), ("steps_per_tick", ofNat e.stepsPerTick),
    ("release_delay_ms", ofNat e.releaseDelayMs), ("max_frames", ofNat e.maxFrames),
    ("max_symbols", ofNat e.maxSymbols), ("symbol_size", ofNat e.symbolSize),
    ("decimals", ofNat e.decimals)]

/-- The sizes for the work in the background. -/
def Workers.document (w : Workers) : Document :=
  .table [("message_queue_capacity", ofNat w.queueCapacity),
    ("cdr_pool_size", ofNat w.recordCapacity), ("ticker_idle_ms", ofNat w.tickerIdleMs)]

/-- A span. -/
def Span.document (s : Span) : Document :=
  .table [("name", .text s.name), ("slots", ofNat s.slots)]

/-- A group. -/
def Group.document (g : Group) : Document :=
  .table [("name", .text g.name), ("spans", ofList .text g.spans),
    ("slots", ofList ofNat g.slots), ("limit", ofOption ofNat g.limit),
    ("script", ofOption .text g.script)]

/-- A registration. -/
def Registration.document (r : Registration) : Document :=
  .table [("name", .text r.name), ("slots", ofList ofNat r.slots)]

/-- A board. -/
def Board.document (b : Board) : Document :=
  .table [("name", .text b.name), ("spans", ofList Span.document b.spans),
    ("groups", ofList Group.document b.groups),
    ("registrations", ofList Registration.document b.registrations)]

/-- Where scripts come from. -/
def Scripts.document (s : Scripts) : Document :=
  .table [("entry", .text s.entry), ("files", ofList .text s.files),
    ("schedule", ofOption .text s.schedule)]

/-- What is logged. -/
def Logging.document (l : Logging) : Document :=
  .table [("level", .text l.level), ("json", .bool l.json), ("file_info", .bool l.fileInfo),
    ("spans", .bool l.spans), ("directives", ofList .text l.directives)]

/-- A configuration. -/
def document (c : Config) : Document :=
  .table [("engine", c.engine.document), ("workers", c.workers.document),
    ("allocation", .table [("policy", .text c.policy.word)]),
    ("boards", ofList Board.document c.boards), ("scripts", c.scripts.document),
    ("logging", c.logging.document)]

end Config

end Switchboard
