import TimedCondvar.Clock

/-!
How waits and wake-ups end: whom a notification woke, whether a bounded wait was woken or ran
out, and the errors. Running out of time is never an error.
-/

namespace TimedCondvar

inductive WakeResult
  | woken (count : Nat)
  | noWaiters
  deriving DecidableEq, Repr

namespace WakeResult

def ofCount (n : Nat) : WakeResult := if n = 0 then .noWaiters else .woken n

def count : WakeResult → Nat
  | .woken n => n
  | .noWaiters => 0

def isWoken : WakeResult → Bool
  | .woken _ => true
  | .noWaiters => false

@[simp] theorem count_ofCount (n : Nat) : (ofCount n).count = n := by
  unfold ofCount
  split
  · simp [count, *]
  · rfl

end WakeResult

/-- `signaled` also stands for a wake-up nobody asked for; the caller looks at its condition
again. -/
inductive WaitStatus
  | signaled
  | timedOut
  deriving DecidableEq, Repr

abbrev MutexId := Nat

inductive SyncError
  | init (cause : ClockError)
  | clock (cause : ClockError)
  /-- The condition variable is bound to mutex `bound` by `waiters` waiters. -/
  | mutexMismatch (bound offered : MutexId) (waiters : Nat)
  deriving DecidableEq, Repr

inductive SyncError.Kind
  | initialization
  | wait
  deriving DecidableEq, Repr

namespace SyncError

def kind : SyncError → Kind
  | .init _ => .initialization
  | .clock _ | .mutexMismatch _ _ _ => .wait

/-- The text of the error, mutexes written by `mutex`. -/
def describe (mutex : MutexId → String) : SyncError → String
  | .init e => "Condition variable initialization failed: " ++ e.message
  | .clock e => "Condition variable wait failed reading the clock: " ++ e.message
  | .mutexMismatch bound offered waiters =>
    "Condition variable is bound to mutex " ++ mutex bound ++ " by " ++ Numeral.decimal waiters
      ++ " waiter(s); wait offered mutex " ++ mutex offered

/-- The text of the error, mutexes written as addresses. -/
def message : SyncError → String := describe Numeral.hex

def code : SyncError → String
  | .init _ => "sync::init_failed"
  | .clock _ => "sync::clock_failed"
  | .mutexMismatch _ _ _ => "sync::mutex_mismatch"

def help? : SyncError → Option String
  | .init _ => some "The monotonic clock could not be bound. This is not retried."
  | .clock _ => none
  | .mutexMismatch _ _ _ =>
    some "Every thread waiting on one condition variable must use the same mutex."

/-- The errors behind this one, the nearest first. -/
def causes : SyncError → List String
  | .init e | .clock e => [e.message]
  | .mutexMismatch _ _ _ => []

end SyncError

end TimedCondvar
