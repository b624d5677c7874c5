import Blackboard.Time

/-!
# Clocks

The time that tuples are stamped with, as a number of microseconds since the epoch. A clock moves
only when it is told to.
-/

namespace Blackboard

/-- A clock that stands at a number of microseconds. -/
structure Clock where
  micros : Int
  deriving DecidableEq, Repr, Inhabited

namespace Clock

def of (t : Timestamp) : Clock := ⟨t.micros⟩

def now (c : Clock) : Timestamp := .ofMicros c.micros

/-- The clock moved forward by the whole microseconds of a duration. -/
def advance (c : Clock) (d : Duration) : Clock := ⟨c.micros + d.micros⟩

/-- The clock shifted by a number of microseconds, as learned from a peer. -/
def shift (c : Clock) (offset : Int) : Clock := ⟨c.micros + offset⟩

end Clock

end Blackboard
