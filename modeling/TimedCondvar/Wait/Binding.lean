import TimedCondvar.Wait.Outcome

/-!
The mutex a condition variable is bound to while threads wait on it. The first waiter binds its
mutex, others have to offer the same one, and the last to leave frees the binding.
-/

namespace TimedCondvar

structure Binding where
  mutex : Option MutexId := none
  waiters : Nat := 0
  deriving DecidableEq, Repr

namespace Binding

/-- What stands against a waiter with mutex `offered`: another mutex, and how many wait. -/
def conflict? (b : Binding) (offered : MutexId) : Option (MutexId × Nat) :=
  match b.mutex with
  | some bound => if 0 < b.waiters ∧ bound ≠ offered then some (bound, b.waiters) else none
  | none => none

def register (b : Binding) (offered : MutexId) : Binding :=
  { mutex := some offered, waiters := b.waiters + 1 }

def release (b : Binding) : Binding :=
  if b.waiters - 1 = 0 then {} else { b with waiters := b.waiters - 1 }

end Binding

end TimedCondvar
