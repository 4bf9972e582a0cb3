import TimedCondvar.Machine.Command
import TimedCondvar.Wait.Policy

/-!
A predicate wait on a condition variable, as commands of the thread that makes it. The condition
has a memory of its own and may change the state it looks at.
-/

namespace TimedCondvar.Policy.State

variable {σ κ ε μ : Type}

/-- What a predicate wait in this state does next. `eval` evaluates the condition, `goOn` is the
place that carries the wait, `finish` what the thread does with the result. -/
def command (condvar : CondvarId) (eval : σ → Bool × μ × σ) (memory : μ)
    (goOn : State → μ → κ) (finish : Except SyncError Bool → Command σ κ ε) :
    State → Command σ κ ε
  | .check p => .access fun s =>
    let (holds, memory, s) := eval s
    (s, goOn (checked p holds) memory)
  | .arm p interval => .read condvar fun r => goOn (armed p interval r) memory
  | .block p deadline => .wait condvar deadline fun r => goOn (returned p r) memory
  | .recheck => .access fun s =>
    let (holds, memory, s) := eval s
    (s, goOn (.done (.ok holds)) memory)
  | .done result => finish result

end TimedCondvar.Policy.State
