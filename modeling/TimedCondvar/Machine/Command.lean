import TimedCondvar.Wait.Timed
import TimedCondvar.Clock.Virtual

/-!
What a thread can do, seen from its own code. Code is a function from places to commands: at each
place it names one command, and the place to go on at once the command is done. A wait is one
command; the machine runs it in stages of its own.
-/

namespace TimedCondvar

abbrev ThreadId := Nat
abbrev CondvarId := Nat

/-- Something written down during a run: what waiting logs, or an event of the code's own. -/
inductive Note (ε : Type)
  | record (r : Record)
  | spanOpened (s : WaitSpan)
  | spanEnded (e : WaitSpan.End)
  | event (e : ε)
  deriving Repr

/-- A command of code with places `κ`, in a machine whose mutexes guard states `σ`. -/
inductive Command (σ κ ε : Type)
  /-- Takes a mutex, once it is free. -/
  | lock (mutex : MutexId) (next : κ)
  | unlock (next : κ)
  /-- Works on the state behind the mutex that the thread holds. -/
  | access (f : σ → σ × κ)
  /-- Waits, without end if there is no deadline. -/
  | wait (condvar : CondvarId) (deadline : Option Time)
      (next : Except SyncError WaitStatus → κ)
  /-- Reads the clock of a condition variable. -/
  | read (condvar : CondvarId) (next : Except SyncError Time → κ)
  /-- Wakes the first waiter, or all of them. -/
  | notify (condvar : CondvarId) (all : Bool) (next : WakeResult → κ)
  /-- Looks at the park clock. -/
  | instant (next : Int → κ)
  /-- Looks at the wall clock. -/
  | wallTime (next : Nat → κ)
  | sleep (length : Duration) (next : κ)
  /-- Goes on once another thread has ended. -/
  | join (thread : ThreadId) (next : κ)
  | emit (notes : List (Note ε)) (next : κ)
  | stop

end TimedCondvar
