import TimedCondvar.Demo.Settings
import TimedCondvar.Machine.PredicateWait
import TimedCondvar.Machine.Schedule

/-!
The demonstration: a producer pushes bursts of events, a consumer gathers each burst until it has
been quiet for a delay and handles it as one batch. The producer announces an event after it has
given the mutex back; in the end it sets a flag, and the consumer leaves once nothing is left.
-/

namespace TimedCondvar.Demo

/-- What the mutex guards: when the events came, on the wall clock, and whether more will. -/
structure Inbox where
  pending : List Nat := []
  shutdown : Bool := false
  deriving DecidableEq, Repr

/-- What the program tells in its log. -/
inductive Event
  | logging (json : Bool)
  | wideSpacing (spacing delay : Duration)
  | starting (s : Settings)
  | batch (number : Nat) (stamps : List Nat)
  | finished (batches handled : Nat)
  | unhandled (expected handled : Nat)
  /-- A wait failed, and the program with it. -/
  | failed (e : SyncError)
  deriving DecidableEq, Repr

/-- Batches and events handled so far. -/
structure Count where
  batches : Nat := 0
  handled : Nat := 0
  deriving DecidableEq, Repr

/-- Where the two threads can be. -/
inductive Place
  -- The producer, with bursts and events still to come.
  | burst (bursts : Nat)
  | event (bursts events : Nat)
  | stamping (bursts events : Nat)
  | pushing (bursts events stamp : Nat)
  | pushed (bursts events : Nat)
  | announcing (bursts events : Nat)
  | resting (bursts events : Nat)
  | closing
  | closed
  | calling
  | ending
  -- The consumer.
  | entering
  | idle (state : Policy.State) (count : Count)
  | opening (count : Count)
  | opened (start : Int) (count : Count)
  | gathering (start : Int) (state : Policy.State) (count : Count)
  | gathered (e : WaitSpan.End) (count : Count)
  | taking (count : Count)
  | taken (batch : List Nat) (count : Count)
  | leaving (count : Count)
  | joining (count : Count)
  | telling (count : Count)
  | failing
  deriving Repr

def mainThread : ThreadId := 0
def producerThread : ThreadId := 1

/-- The one mutex and the one condition variable of the program. -/
def inbox : MutexId := 0
def signalled : CondvarId := 0

namespace Settings

/-- The pause after a burst, well past the delay. -/
def gap (s : Settings) : Duration := s.delay.times 3

def span (s : Settings) : WaitSpan := ⟨"defer_for", s.clock⟩

/-- The next event of a burst, or the pause behind the last one. -/
def nextEvent (s : Settings) (bursts : Nat) : Nat → Command Inbox Place Event
  | 0 => .sleep s.gap (.burst bursts)
  | events + 1 => .lock inbox (.stamping bursts events)

/-- How the consumer goes on once there is something to look at. -/
def look (count : Count) : Command Inbox Place Event := .access fun box =>
  (box, if box.shutdown && box.pending.isEmpty then .leaving count else .opening count)

def tell (s : Settings) (count : Count) : List Event :=
  .finished count.batches count.handled ::
    if count.handled = s.events * s.bursts then []
    else [.unhandled (s.events * s.bursts) count.handled]

def code (s : Settings) : Place → Command Inbox Place Event
  | .burst 0 => .lock inbox .closing
  | .burst (bursts + 1) => s.nextEvent bursts s.events
  | .event bursts events => s.nextEvent bursts events
  | .stamping bursts events => .wallTime fun nanos => .pushing bursts events (nanos % unsignedLimit)
  | .pushing bursts events stamp => .access fun box =>
    ({ box with pending := box.pending ++ [stamp] }, .pushed bursts events)
  | .pushed bursts events => .unlock (.announcing bursts events)
  | .announcing bursts events => .notify signalled false fun _ => .resting bursts events
  | .resting bursts events => .sleep s.spacing (.event bursts events)
  | .closing => .access fun box => ({ box with shutdown := true }, .closed)
  | .closed => .unlock .calling
  | .calling => .notify signalled false fun _ => .ending
  | .ending => .stop
  | .entering => .lock inbox (.idle Policy.forever.start {})
  | .idle state count =>
    state.command signalled (fun box => (!box.pending.isEmpty || box.shutdown, count, box)) count
      .idle (fun
        | .ok _ => look count
        | .error e => .emit [.event (.failed e)] .failing)
  | .opening count => .instant fun now => .opened now count
  | .opened start count =>
    .emit [.spanOpened s.span] (.gathering start (Policy.quiet s.delay).start count)
  | .gathering start state count =>
    state.command signalled (fun box => (box.shutdown, count, box)) count
      (.gathering start) (fun
        | .ok shutdown => .instant fun now => .gathered (s.span.finish start now shutdown) count
        | .error e => .emit [.event (.failed e)] .failing)
  | .gathered e count => .emit [.spanEnded e] (.taking count)
  | .taking count => .access fun box =>
    ({ box with pending := [] },
      .taken box.pending ⟨count.batches + 1, count.handled + box.pending.length⟩)
  | .taken batch count =>
    .emit [.event (.batch count.batches batch)] (.idle Policy.forever.start count)
  | .leaving count => .unlock (.joining count)
  | .joining count => .join producerThread (.telling count)
  | .telling count => .emit ((s.tell count).map .event) .ending
  | .failing => .unlock .ending

end Settings

abbrev ProgramMachine := Machine Inbox Place Event

/-! ### Runs

In a run by itself all clocks go along with the park clock. -/

/-- The park clock, and all others but the wall clock, begin at 1000 seconds. -/
def origin : Int := 1000 * nanosPerSec

def clocks : Clocks where
  monotonic := ⟨origin, origin, 1, 1, none⟩
  monotonicRaw := ⟨origin, origin, 1, 1, none⟩
  boottime := ⟨origin, origin, 1, 1, none⟩
  realtime := ⟨0, origin, 1, 1, none⟩

/-- The machine before its first thread is spawned. -/
def machine : ProgramMachine :=
  { mono := origin, clocks := clocks, mutexes := [{ state := {} }] }

/-- The consumer at its start and the producer behind it in line. -/
def spawnBoth (s : Settings) (m : ProgramMachine) : ProgramMachine :=
  (m.spawn .entering).spawn (.burst s.bursts)

/-- The steps both threads can take before they park: a few for each event, for each burst and
for the end. -/
def work (s : Settings) : Nat := 64 * (s.bursts * (s.events + 2) + 4)

/-- The longest that all sleeps of the producer and one delay last, in nanoseconds. -/
def lifetime (s : Settings) : Nat :=
  s.bursts * (s.events * s.spacing.totalNanos + s.gap.totalNanos) + s.delay.totalNanos

/-- Lets both threads run, and time pass, until nothing is left to happen. -/
def runThreads (s : Settings) (m : ProgramMachine) : ProgramMachine :=
  (m.settle s.code (work s)).elapse s.code (work s) none (2 * (lifetime s + 2))

/-- The outcome of a run: what was written, the earliest first, and the failure if it failed. -/
structure Outcome where
  log : List (Entry Event)
  failure : Option Failure := none

def failureOf : List (Entry Event) → Option Failure
  | [] => none
  | e :: es =>
    match e.note with
    | .event (.failed e) => some ⟨e.message, e.causes⟩
    | _ => failureOf es

/-- Runs the program from its settings. -/
def start (s : Settings) (m : ProgramMachine) : Outcome :=
  let warning := if s.delay ≤ s.spacing then [.event (.wideSpacing s.spacing s.delay)] else []
  match (m.write mainThread warning).bind mainThread s.clock with
  | (m, .error e) => ⟨m.log.reverse, some ⟨"Binding condition variable", e.message :: e.causes⟩⟩
  | (m, .ok _) =>
    let m := runThreads s (spawnBoth s (m.write mainThread [.event (.starting s)]))
    ⟨m.log.reverse, failureOf m.log⟩

/-- Runs the program from its environment. -/
def run (env : Environment) : Outcome :=
  let m := machine.write mainThread [.event (.logging (Logging.ofEnvironment env).json)]
  match Settings.ofEnvironment env with
  | .error f => ⟨m.log.reverse, some f⟩
  | .ok s => start s m

end TimedCondvar.Demo
