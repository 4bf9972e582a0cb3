import TimedCondvar.Machine.Command
import TimedCondvar.Wait.Binding

/-!
A machine with threads, mutexes, condition variables and a park clock. A thread that waits goes
through stages: it registers, reads the clock, parks, is woken or runs out, takes the mutex again
and leaves. Parking gives the mutex up and joins the queue in one step; leaving the queue and
taking the mutex again are two.
-/

namespace TimedCondvar

/-- Where a thread stands in a wait. What is timed comes with the timer and its park. -/
inductive Stage
  | entering
  | reading (timer : Timer)
  | parking (timed : Option (Timer × Park))
  | queued (timed : Option (Timer × Park))
  | woken (notified : Bool) (timed : Option (Timer × Park))
  | leaving (how : WaitEnd)
  deriving Repr

namespace Stage

/-- Where a registered wait begins: with a park, or with a reading if there is a deadline. -/
def registered (clock : Clock) : Option Time → Stage
  | none => .parking none
  | some deadline => .reading { clock, deadline }

/-- Where a pass of the timer leads. -/
def ofPass (timer : Timer) : Timer.Pass → Stage
  | .park p => .parking (some (timer, p))
  | .finish how => .leaving how

/-- Where a woken wait goes on with its mutex back. A park that ran out leads to another
reading. -/
def ofWake (notified : Bool) : Option (Timer × Park) → Stage
  | some (timer, p) => if notified then .leaving .notified else .reading (timer.expired p)
  | none => .leaving .notified

end Stage

/-- What a thread is doing. -/
inductive Control (κ : Type)
  | running (place : κ)
  | waiting (condvar : CondvarId) (deadline : Option Time) (stage : Stage)
      (next : Except SyncError WaitStatus → κ)
  | sleeping (next : κ)
  | ended

/-- What a parked thread does next: a waiter has to take its mutex again. -/
def Control.wake {κ : Type} (notified : Bool) : Control κ → Control κ
  | .waiting cv deadline (.queued timed) next =>
    .waiting cv deadline (.woken notified timed) next
  | .sleeping next => .running next
  | c => c

/-- A thread and the mutex it holds, or gave up only to wait. -/
structure Thread (κ : Type) where
  control : Control κ
  guard : Option MutexId := none

structure Mutex (σ : Type) where
  state : σ
  holder : Option ThreadId := none

structure Condvar where
  clock : Clock
  binding : Binding := {}
  deriving DecidableEq, Repr

/-- A parked thread: on the queue of a condition variable or asleep, and when the park ends. -/
structure Parked where
  thread : ThreadId
  condvar : Option CondvarId
  wakeAt : Option Int
  deriving DecidableEq, Repr

/-- A note with the park clock and the thread it was written by, if a thread wrote it. -/
structure Entry (ε : Type) where
  mono : Int
  thread : Option ThreadId
  note : Note ε
  deriving Repr

structure Machine (σ κ ε : Type) where
  mono : Int
  clocks : Clocks
  mutexes : List (Mutex σ)
  condvars : List Condvar := []
  threads : List (Thread κ) := []
  /-- In the order in which they parked. -/
  parked : List Parked := []
  /-- The threads that wait for their turn to run, the one that runs in front. -/
  line : List ThreadId := []
  /-- The latest entry first. -/
  log : List (Entry ε) := []

namespace Machine

variable {σ κ ε : Type}

def control? (m : Machine σ κ ε) (t : ThreadId) : Option (Control κ) :=
  (m.threads[t]?).map (·.control)

def setControl (m : Machine σ κ ε) (t : ThreadId) (c : Control κ) : Machine σ κ ε :=
  { m with threads := m.threads.modify t fun th => { th with control := c } }

def setGuard (m : Machine σ κ ε) (t : ThreadId) (g : Option MutexId) : Machine σ κ ε :=
  { m with threads := m.threads.modify t fun th => { th with guard := g } }

def setHolder (m : Machine σ κ ε) (mutex : MutexId) (holder : Option ThreadId) : Machine σ κ ε :=
  { m with mutexes := m.mutexes.modify mutex fun x => { x with holder := holder } }

def setBinding (m : Machine σ κ ε) (condvar : CondvarId) (f : Binding → Binding) :
    Machine σ κ ε :=
  { m with condvars := m.condvars.modify condvar fun c => { c with binding := f c.binding } }

def write (m : Machine σ κ ε) (thread : Option ThreadId) (notes : List (Note ε)) :
    Machine σ κ ε :=
  { m with log := (notes.map (⟨m.mono, thread, ·⟩)).reverse ++ m.log }

/-- A new thread joins the line at its end. -/
def spawn (m : Machine σ κ ε) (place : κ) : Machine σ κ ε :=
  { m with
    threads := m.threads ++ [{ control := .running place }]
    line := m.line ++ [m.threads.length] }

/-- Binds a new condition variable to a clock, which has to be readable. -/
def bind (m : Machine σ κ ε) (thread : Option ThreadId) (clock : Clock) :
    Machine σ κ ε × Except SyncError CondvarId :=
  match m.clocks.now m.mono clock with
  | .error e => (m.write thread [.record (.bindingFailed clock e)], .error (.init e))
  | .ok now =>
    ({ m.write thread [.record (.bound clock now)] with
        condvars := m.condvars ++ [{ clock := clock }] },
      .ok m.condvars.length)

def readClock (m : Machine σ κ ε) (clock : Clock) : Except SyncError Time :=
  (m.clocks.now m.mono clock).mapError .clock

/-! ### Parking and waking -/

/-- The latest instant a park can end at. -/
def lastInstant : Int := Time.max.totalNanos

/-- When a park of this length ends: never, if that is out of range. -/
def wakeAt (m : Machine σ κ ε) (length : Duration) : Option Int :=
  let instant := m.mono + length.totalNanos
  if instant ≤ lastInstant then some instant else none

/-- Thread `t` leaves the line and parks. -/
def park (m : Machine σ κ ε) (t : ThreadId) (condvar : Option CondvarId)
    (wakeAt : Option Int) : Machine σ κ ε :=
  { m with parked := m.parked ++ [⟨t, condvar, wakeAt⟩], line := m.line.erase t }

/-- The waiters of a condition variable that can be notified, in the order in which they
parked. -/
def queue (m : Machine σ κ ε) (condvar : CondvarId) : List ThreadId :=
  (m.parked.filter (·.condvar == some condvar)).map (·.thread)

/-- Thread `t` is parked no longer and joins the line at its end. -/
def wake (m : Machine σ κ ε) (notified : Bool) (t : ThreadId) : Machine σ κ ε :=
  { m with
    threads := m.threads.modify t fun th => { th with control := Control.wake notified th.control }
    parked := m.parked.filter (·.thread != t)
    line := m.line ++ [t] }

/-- Wakes the first waiter or all of them, and logs how many there were. -/
def notify (m : Machine σ κ ε) (thread : Option ThreadId) (condvar : CondvarId) (all : Bool) :
    Machine σ κ ε × WakeResult :=
  let woken := if all then m.queue condvar else (m.queue condvar).take 1
  let record := if all then Record.broadcast woken.length else .signaled (!woken.isEmpty)
  ((woken.foldl (wake · true) m).write thread [.record record], .ofCount woken.length)

end Machine

end TimedCondvar
