import TimedCondvar.Clock

/-!
Clocks in simulated time. Each is a course over the park clock, the clock that only moves when
the simulation lets it: a base, read when the park clock stood at the anchor, and a rate. A fault
replaces what the course would read, but leaves the course alone.
-/

namespace TimedCondvar

structure VirtualClock where
  base : Int
  anchor : Int
  num : Int := 1
  den : Int := 1
  fault : Option Reply := none
  deriving DecidableEq, Repr

namespace VirtualClock

/-- Nanoseconds on the clock when the park clock stands at `mono`, faults apart. -/
def reading (c : VirtualClock) (mono : Int) : Int :=
  c.base + Int.fdiv ((mono - c.anchor) * c.num) c.den

def reply (c : VirtualClock) (mono : Int) : Reply :=
  let reading := c.reading mono
  c.fault.getD (.time (Int.fdiv reading nanosPerSec) (Int.fmod reading nanosPerSec))

/-- The clock goes on from `offset` after where it is, at its rate. -/
def jump (c : VirtualClock) (mono offset : Int) : VirtualClock :=
  { c with base := c.reading mono + offset, anchor := mono }

/-- The clock goes on from where it is, at another rate. -/
def setRate (c : VirtualClock) (mono num den : Int) : VirtualClock :=
  { c with base := c.reading mono, anchor := mono, num := num, den := den }

end VirtualClock

/-- The clocks of one simulation; the park clock itself is not among them. -/
structure Clocks where
  monotonic : VirtualClock
  monotonicRaw : VirtualClock
  boottime : VirtualClock
  realtime : VirtualClock
  deriving DecidableEq, Repr

namespace Clocks

def get (cs : Clocks) : Clock → VirtualClock
  | .monotonic => cs.monotonic
  | .monotonicRaw => cs.monotonicRaw
  | .boottime => cs.boottime

def modify (cs : Clocks) (f : VirtualClock → VirtualClock) : Clock → Clocks
  | .monotonic => { cs with monotonic := f cs.monotonic }
  | .monotonicRaw => { cs with monotonicRaw := f cs.monotonicRaw }
  | .boottime => { cs with boottime := f cs.boottime }

/-- What clock `c` reads when the park clock stands at `mono`. -/
def now (cs : Clocks) (mono : Int) (c : Clock) : Except ClockError Time :=
  c.now ((cs.get c).reply mono)

end Clocks

end TimedCondvar
