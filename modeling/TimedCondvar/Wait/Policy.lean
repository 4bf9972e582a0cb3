import TimedCondvar.Wait.Outcome

/-!
Waits for a condition, over any primitive that can read its clock and wait. A wake-up is never
taken as proof that the condition holds: the condition is evaluated again, with the mutex held.
A predicate wait is a loop that, in each of its states, asks for one thing and goes on with the
answer.
-/

namespace TimedCondvar

/-- The four ways to wait for a condition. -/
inductive Policy
  /-- Without end. -/
  | forever
  /-- Until the clock reaches a deadline. -/
  | upTo (deadline : Time)
  /-- For a time counted once, from the start. -/
  | within (timeout : Duration)
  /-- Until the condition holds or `delay` has passed with no wake-up. -/
  | quiet (delay : Duration)
  deriving DecidableEq, Repr

namespace Policy

/-- Where a predicate wait stands. -/
inductive State
  /-- Evaluates the condition. -/
  | check (p : Policy)
  /-- Reads the clock, to fix the deadline `interval` from now. -/
  | arm (p : Policy) (interval : Duration)
  /-- Waits, with a deadline or without. -/
  | block (p : Policy) (deadline : Option Time)
  /-- Evaluates the condition one last time, as the deadline has passed. -/
  | recheck
  | done (result : Except SyncError Bool)
  deriving Repr

def start : Policy → State
  | .within timeout => .arm (.within timeout) timeout
  | p => .check p

/-- After the condition was evaluated to `holds`. -/
def checked (p : Policy) (holds : Bool) : State :=
  if holds then .done (.ok true)
  else match p with
    | .forever => .block .forever none
    | .upTo deadline => .block (.upTo deadline) (some deadline)
    | .within timeout => .arm (.within timeout) timeout
    | .quiet delay => .arm (.quiet delay) delay

/-- After the clock was read. A timeout counted from now becomes a deadline. -/
def armed (p : Policy) (interval : Duration) : Except SyncError Time → State
  | .error e => .done (.error e)
  | .ok now =>
    let deadline := now.saturatingAdd interval
    match p with
    | .within _ => .check (.upTo deadline)
    | p => .block p (some deadline)

/-- After the wait returned. -/
def returned (p : Policy) : Except SyncError WaitStatus → State
  | .error e => .done (.error e)
  | .ok .signaled => .check p
  | .ok .timedOut =>
    match p with
    | .quiet _ => .done (.ok false)
    | _ => .recheck

end Policy

end TimedCondvar
