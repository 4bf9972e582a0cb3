import TimedCondvar.Wait.Record

/-!
One timed wait, pass by pass. A pass reads the bound clock and either ends the wait or parks for
the time left, a slice at most if the clock is not the park clock. A park that runs out leads to
the next pass; it counts against the skew budget unless it was cut to a slice.
-/

namespace TimedCondvar

/-- How often a timed wait parks again after a park ran out ahead of the bound clock. -/
def clockSkewRetries : Nat := 64

/-- The longest single park if the bound clock is not the park clock. The park clock stands
still while the system is suspended, so a longer park could oversleep a deadline on a clock
that does not. -/
def parkSlice : Duration := .ofMillis 250

/-- One park of a timed wait, and whether it was cut to a slice. -/
structure Park where
  length : Duration
  capped : Bool
  deriving DecidableEq, Repr

/-- How a wait on this clock parks for the time left. -/
def Clock.park : Clock → Duration → Park
  | .monotonic, remaining => ⟨remaining, false⟩
  | _, remaining => if parkSlice < remaining then ⟨parkSlice, true⟩ else ⟨remaining, false⟩

/-- A timed wait between two parks. -/
structure Timer where
  clock : Clock
  deadline : Time
  /-- Parks that ran out without being cut. -/
  retries : Nat := 0
  deriving DecidableEq, Repr

/-- How a wait ended. Too much skew is reported like a wake-up nobody asked for. -/
inductive WaitEnd
  | notified
  | timedOut (deadline now : Time)
  | skewed (clock : Clock) (deadline now : Time)
  | failed (e : ClockError)
  deriving DecidableEq, Repr

namespace WaitEnd

def result : WaitEnd → Except SyncError WaitStatus
  | .notified | .skewed _ _ _ => .ok .signaled
  | .timedOut _ _ => .ok .timedOut
  | .failed e => .error (.clock e)

/-- What the wait itself logs of its end. -/
def records : WaitEnd → List Record
  | .notified | .failed _ => []
  | .timedOut deadline now => [.timedOut deadline now]
  | .skewed clock deadline now => [.clockSkewed clock deadline now]

end WaitEnd

namespace Timer

/-- A pass parks or ends the wait. -/
inductive Pass
  | park (p : Park)
  | finish (e : WaitEnd)
  deriving DecidableEq, Repr

/-- What a pass logs: nothing, unless it ends the wait. -/
def Pass.records : Pass → List Record
  | .park _ => []
  | .finish e => e.records

/-- What the timer does upon a reading of its clock. -/
def pass (timer : Timer) : Except ClockError Time → Pass
  | .error e => .finish (.failed e)
  | .ok now =>
    if timer.deadline ≤ now then .finish (.timedOut timer.deadline now)
    else if clockSkewRetries < timer.retries then
      .finish (.skewed timer.clock timer.deadline now)
    else .park (timer.clock.park (timer.deadline.durationSince now))

/-- The timer after park `p` ran out. -/
def expired (timer : Timer) (p : Park) : Timer :=
  { timer with retries := if p.capped then timer.retries else timer.retries + 1 }

end Timer

end TimedCondvar
