import TimedCondvar.Wait.Outcome

/-!
What waiting writes to the log. A record is kept as what happened; level, message and fields
are read off it. A span covers one wait from its start, and its end is a record of its own.
-/

namespace TimedCondvar

inductive Level
  | trace
  | debug
  | info
  | warn
  | error
  deriving DecidableEq, Repr

namespace Level

def severity : Level → Nat
  | .trace => 0
  | .debug => 1
  | .info => 2
  | .warn => 3
  | .error => 4

def name : Level → String
  | .trace => "TRACE"
  | .debug => "DEBUG"
  | .info => "INFO"
  | .warn => "WARN"
  | .error => "ERROR"

end Level

/-- The value of a field. -/
inductive FieldValue
  | text (s : String)
  | count (n : Nat)
  | flag (b : Bool)
  | mutex (id : MutexId)
  deriving DecidableEq, Repr

abbrev Fields := List (String × FieldValue)

inductive Record
  | bound (clock : Clock) (now : Time)
  | bindingFailed (clock : Clock) (error : ClockError)
  | signaled (woken : Bool)
  | broadcast (woken : Nat)
  | mutexOffered (bound offered : MutexId) (waiters : Nat)
  | timedOut (deadline now : Time)
  | clockSkewed (clock : Clock) (deadline now : Time)
  deriving DecidableEq, Repr

namespace Record

def level : Record → Level
  | .bound _ _ => .debug
  | .bindingFailed _ _ | .mutexOffered _ _ _ | .clockSkewed _ _ _ => .warn
  | .signaled _ | .broadcast _ | .timedOut _ _ => .trace

def message : Record → String
  | .bound _ _ => "Condition variable bound to clock"
  | .bindingFailed _ _ => "Condition variable clock binding failed"
  | .signaled _ => "Condition variable signaled"
  | .broadcast _ => "Condition variable broadcast"
  | .mutexOffered _ _ _ => "Wait offered a different mutex than the current waiters"
  | .timedOut _ _ => "Condition variable wait timed out"
  | .clockSkewed _ _ _ => "Park clock keeps expiring ahead of the bound clock"

def fields : Record → Fields
  | .bound clock now => [("clock", .text clock.name), ("now", .text now.text)]
  | .bindingFailed clock error => [("clock", .text clock.name), ("error", .text error.message)]
  | .signaled woken => [("woken", .flag woken)]
  | .broadcast woken => [("woken", .count woken)]
  | .mutexOffered held offered waiters =>
    [("bound", .mutex held), ("offered", .mutex offered), ("waiters", .count waiters)]
  | .timedOut deadline now => [("deadline", .text deadline.text), ("now", .text now.text)]
  | .clockSkewed clock deadline now =>
    [("clock", .text clock.name), ("deadline", .text deadline.text), ("now", .text now.text)]

end Record

/-! ### Spans -/

/-- A wait that is being timed. -/
structure WaitSpan where
  operation : String
  clock : Clock
  deriving DecidableEq, Repr

/-- How a timed wait ended. -/
structure WaitSpan.End where
  span : WaitSpan
  waitedMicros : Nat
  satisfied : Bool
  deriving DecidableEq, Repr

namespace WaitSpan

def name : String := "wait"

def level : Level := .debug

def finishedMessage : String := "wait finished"

def fields (s : WaitSpan) : Fields :=
  [("operation", .text s.operation), ("clock", .text s.clock.name)]

/-- The end of a span that began at `start` on the park clock, in whole microseconds. -/
def finish (s : WaitSpan) (start now : Int) (satisfied : Bool) : End :=
  ⟨s, ((now - start) / nanosPerMicro).toNat, satisfied⟩

def End.outcome (e : End) : String := if e.satisfied then "satisfied" else "expired"

def End.fields (e : End) : Fields :=
  [("waited_us", .count e.waitedMicros), ("outcome", .text e.outcome)]

end WaitSpan

end TimedCondvar
