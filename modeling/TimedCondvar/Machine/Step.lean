import TimedCondvar.Machine.Basic
import TimedCondvar.Clock.Uptime

/-!
The steps of a machine. `step t` is what thread `t` does next, if it can do anything: a command
of its code, or one stage of a wait. The order of the threads is left open here.
-/

namespace TimedCondvar.Machine

variable {σ κ ε : Type}

/-! ### The stages of a wait -/

/-- Registers with the mutex that the thread holds, or is turned away. A wait that is turned away
reads no clock, does not park and keeps the mutex. -/
def enter (m : Machine σ κ ε) (t : ThreadId) (condvar : CondvarId) (deadline : Option Time)
    (next : Except SyncError WaitStatus → κ) : Option (Machine σ κ ε) := do
  let thread ← m.threads[t]?
  let offered ← thread.guard
  let cv ← m.condvars[condvar]?
  match cv.binding.conflict? offered with
  | some (bound, waiters) =>
    let m := m.write t [.record (.mutexOffered bound offered waiters)]
    return m.setControl t (.running (next (.error (.mutexMismatch bound offered waiters))))
  | none =>
    return (m.setBinding condvar (·.register offered)).setControl t
      (.waiting condvar deadline (.registered cv.clock deadline) next)

/-- One stage of a wait. -/
def waitStep (m : Machine σ κ ε) (t : ThreadId) (condvar : CondvarId) (deadline : Option Time)
    (next : Except SyncError WaitStatus → κ) : Stage → Option (Machine σ κ ε)
  | .entering => m.enter t condvar deadline next
  | .reading timer =>
    let pass := timer.pass (m.clocks.now m.mono timer.clock)
    some ((m.write t (pass.records.map .record)).setControl t
      (.waiting condvar deadline (Stage.ofPass timer pass) next))
  | .parking timed => do
    let thread ← m.threads[t]?
    let mutex ← thread.guard
    let wakeAt := timed.bind fun (_, p) => m.wakeAt p.length
    return ((m.setHolder mutex none).park t (some condvar) wakeAt).setControl t
      (.waiting condvar deadline (.queued timed) next)
  | .queued _ => none
  | .woken notified timed => do
    let thread ← m.threads[t]?
    let mutex ← thread.guard
    let x ← m.mutexes[mutex]?
    if x.holder.isNone then
      some ((m.setHolder mutex t).setControl t
        (.waiting condvar deadline (Stage.ofWake notified timed) next))
    else none
  | .leaving how =>
    some ((m.setBinding condvar .release).setControl t (.running (next how.result)))

/-! ### Commands -/

def commandStep (m : Machine σ κ ε) (t : ThreadId) : Command σ κ ε → Option (Machine σ κ ε)
  | .lock mutex next => do
    let x ← m.mutexes[mutex]?
    if x.holder.isNone then
      some (((m.setHolder mutex t).setGuard t mutex).setControl t (.running next))
    else none
  | .unlock next => do
    let thread ← m.threads[t]?
    let mutex ← thread.guard
    return ((m.setHolder mutex none).setGuard t none).setControl t (.running next)
  | .access f => do
    let thread ← m.threads[t]?
    let mutex ← thread.guard
    let x ← m.mutexes[mutex]?
    let (state, next) := f x.state
    return { m with mutexes := m.mutexes.set mutex { x with state := state } }.setControl t
      (.running next)
  | .wait condvar deadline next => some (m.setControl t (.waiting condvar deadline .entering next))
  | .read condvar next => do
    let cv ← m.condvars[condvar]?
    return m.setControl t (.running (next (m.readClock cv.clock)))
  | .notify condvar all next =>
    let (m, result) := m.notify t condvar all
    some (m.setControl t (.running (next result)))
  | .instant next => some (m.setControl t (.running (next m.mono)))
  | .wallTime next =>
    some (m.setControl t (.running (next (Uptime.epochNanos (m.clocks.realtime.reply m.mono)))))
  | .sleep length next =>
    if length = .zero then some (m.setControl t (.running next))
    else some ((m.park t none (m.wakeAt length)).setControl t (.sleeping next))
  | .join other next =>
    match m.control? other with
    | some .ended => some (m.setControl t (.running next))
    | _ => none
  | .emit notes next => some ((m.write t notes).setControl t (.running next))
  | .stop => some ({ m with line := m.line.erase t }.setControl t .ended)

/-- What thread `t` does next under `code`, if it can do anything. -/
def step (code : κ → Command σ κ ε) (m : Machine σ κ ε) (t : ThreadId) :
    Option (Machine σ κ ε) :=
  match m.control? t with
  | some (.running place) => m.commandStep t (code place)
  | some (.waiting condvar deadline stage next) => m.waitStep t condvar deadline next stage
  | some (.sleeping _) | some .ended | none => none

/-! ### Expiry -/

/-- The park that ends first, and the thread that parked first among those that end together. -/
def firstExpiry : List Parked → Option (Int × ThreadId)
  | [] => none
  | p :: ps =>
    match p.wakeAt, firstExpiry ps with
    | none, later => later
    | some u, none => some (u, p.thread)
    | some u, some (v, t) => if u ≤ v then some (u, p.thread) else some (v, t)

/-- The park of thread `t` runs out at `instant`. -/
def expire (m : Machine σ κ ε) (instant : Int) (t : ThreadId) : Machine σ κ ε :=
  { m with mono := instant }.wake false t

end TimedCondvar.Machine
