import TimedCondvar.Clock

/-!
Passive timers: uptime in microseconds, whether an interval has passed since an earlier uptime,
and the wall clock in nanoseconds, which only serves to stamp records.
-/

namespace TimedCondvar.Uptime

def micros (reply : Reply) : Except ClockError Nat :=
  (Clock.uptimeSource.now reply).map Time.asMicros

/-- Whether `interval` has passed since `before`, an earlier uptime. A `before` in the future
counts as this moment. -/
def isExpired (reply : Reply) (before : Nat) (interval : Duration) : Except ClockError Bool :=
  (micros reply).map fun now => interval ≤ Duration.ofMicros (now - before)

/-- Nanoseconds since 1970, none if the wall clock is set before that or cannot be read. -/
def epochNanos : Reply → Nat
  | .time secs nanos => (secs * nanosPerSec + nanos).toNat
  | .failed _ => 0

end TimedCondvar.Uptime
