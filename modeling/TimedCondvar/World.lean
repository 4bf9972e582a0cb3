import TimedCondvar.World.Script
import TimedCondvar.Machine.Schedule

/-!
A world of scripted threads under a controller. The controller acts, then all threads run that
can; what they finished, who waits and what was logged meanwhile is told with the reaction to
the act. The controller may hold a mutex while it notifies: that changes nothing, as no thread
runs before it is done.
-/

namespace TimedCondvar

abbrev ScriptMachine := Machine Inbox Script.Place Finished

structure World where
  machine : ScriptMachine
  /-- How many steps the threads spawned so far can take at most before all of them park. -/
  work : Nat := 0

namespace World

/-- What the controller can do. -/
inductive Act
  | bind (clock : Clock)
  | spawn (condvar : CondvarId) (mutex : MutexId) (script : List Instruction)
  | notify (condvar : CondvarId) (all : Bool)
  | push (mutex : MutexId) (item : Int)
  | close (mutex : MutexId) (value : Bool)
  | look (mutex : MutexId)
  | advance (length : Duration)
  | jump (clock : Clock) (offset : Int)
  | rate (clock : Clock) (num den : Int)
  | fault (clock : Clock) (fault : Option Reply)
  | now (condvar : CondvarId)
  | deadlineAfter (condvar : CondvarId) (interval : Duration)
  deriving Repr

inductive Reaction
  | bound (condvar : CondvarId) (clock : Clock)
  | failed (e : SyncError)
  | spawned (thread : ThreadId)
  | notified (r : WakeResult)
  | length (n : Nat)
  | inbox (state : Inbox)
  | advanced (mono : Int)
  | time (t : Time)
  | nothing
  deriving Repr

/-- What is seen after an act, once no thread can run. -/
structure Snapshot where
  reaction : Reaction
  /-- What was written during the act, the earliest first. -/
  log : List (Entry Finished)
  waiters : List Nat
  parked : List Parked

/-- A world with four mutexes and its clocks set to the given nanoseconds. -/
def start (monotonic monotonicRaw boottime realtime : Int) : World where
  machine :=
    { mono := monotonic
      clocks :=
        { monotonic := ⟨monotonic, monotonic, 1, 1, none⟩
          monotonicRaw := ⟨monotonicRaw, monotonic, 1, 1, none⟩
          boottime := ⟨boottime, monotonic, 1, 1, none⟩
          realtime := ⟨realtime, monotonic, 1, 1, none⟩ }
      mutexes := List.replicate 4 { state := {} } }

/-- The steps one script can add to the work: each wake-up and each instruction takes a few, and
an instruction wakes one thread at most. -/
def scriptWork (script : List Instruction) : Nat := 64 * (script.length + 1)

def modifyInbox (m : ScriptMachine) (mutex : MutexId) (f : Inbox → Inbox) : ScriptMachine :=
  { m with mutexes := m.mutexes.modify mutex fun x => { x with state := f x.state } }

def inboxOf (m : ScriptMachine) (mutex : MutexId) : Inbox :=
  ((m.mutexes[mutex]?).map (·.state)).getD {}

/-- A reading of the clock a condition variable is bound to. -/
def readingOf (m : ScriptMachine) (condvar : CondvarId) (f : Time → Time) : Reaction :=
  match m.condvars[condvar]? with
  | none => .nothing
  | some cv =>
    match m.readClock cv.clock with
    | .ok t => .time (f t)
    | .error e => .failed e

/-- What the controller itself does, before the threads run. -/
def act (m : ScriptMachine) : Act → ScriptMachine × Reaction
  | .bind clock =>
    match m.bind none clock with
    | (m, .ok condvar) => (m, .bound condvar clock)
    | (m, .error e) => (m, .failed e)
  | .spawn condvar mutex script =>
    let clock := ((m.condvars[condvar]?).map (·.clock)).getD default
    (m.spawn { condvar, clock, mutex, rest := script }, .spawned m.threads.length)
  | .notify condvar all =>
    let (m, r) := m.notify none condvar all
    (m, .notified r)
  | .push mutex item =>
    let m := modifyInbox m mutex fun x => { x with items := x.items ++ [item] }
    (m, .length (inboxOf m mutex).items.length)
  | .close mutex value => (modifyInbox m mutex ({ · with closed := value }), .nothing)
  | .look mutex => (m, .inbox (inboxOf m mutex))
  | .advance length => (m, .advanced (m.mono + length.totalNanos))
  | .jump clock offset =>
    ({ m with clocks := m.clocks.modify (·.jump m.mono offset) clock }, .nothing)
  | .rate clock num den =>
    ({ m with clocks := m.clocks.modify (·.setRate m.mono num den) clock }, .nothing)
  | .fault clock fault =>
    ({ m with clocks := m.clocks.modify ({ · with fault := fault }) clock }, .nothing)
  | .now condvar => (m, readingOf m condvar id)
  | .deadlineAfter condvar interval => (m, readingOf m condvar (·.saturatingAdd interval))

/-- The threads run. Only `advance` lets time pass. -/
def run (work : Nat) (m : ScriptMachine) : Act → ScriptMachine
  | .advance length => m.advance Script.code work length
  | _ => m.settle Script.code work

def perform (w : World) (a : Act) : World × Snapshot :=
  let (m, reaction) := act w.machine a
  let work := match a with
    | .spawn _ _ script => w.work + scriptWork script
    | _ => w.work
  let m := run work m a
  ({ machine := { m with log := [] }, work },
    { reaction
      log := m.log.reverse
      waiters := m.condvars.map (·.binding.waiters)
      parked := m.parked })

/-- Performs one act after the other. -/
def performAll (w : World) : List Act → List Snapshot
  | [] => []
  | a :: as =>
    let (w, s) := w.perform a
    s :: performAll w as

end World

end TimedCondvar
