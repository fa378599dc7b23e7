/-!
# Switchboard.SegmentKind

The kinds of segment into which the slots are divided. A board consists of
spans; groups and registrations are made of any slots.
-/

namespace Switchboard

/-- What a segment is. -/
inductive SegmentKind where
  | board | span | group | registration
deriving Repr, DecidableEq

/-- The word for a kind of segment. -/
def SegmentKind.word : SegmentKind → String
  | .board => "board"
  | .span => "span"
  | .group => "group"
  | .registration => "registration"

end Switchboard
