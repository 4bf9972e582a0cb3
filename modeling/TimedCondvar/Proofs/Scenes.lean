import TimedCondvar.Demo.Program
import TimedCondvar.Proofs.Steps

/-!
The program by itself, from one end of a park to the next. Whoever was woken runs until it parks or
ends, and hands over to whom it notified. What they do in the meantime is a fixed number of turns,
which are computed here, scene by scene: what the producer does for one event, and what the consumer
does with a wake-up and with the end of its park.
-/

namespace TimedCondvar.Demo

open Machine

/-- In `k` turns the machine gets from `m` to `m'`. -/
def Plays (s : Settings) (k : Nat) (m m' : ProgramMachine) : Prop :=
  ∀ n, m.settle s.code (n + k) = m'.settle s.code n

variable {s : Settings} {cs : Clocks} {mono : Int} {box : Inbox} {holder : Option ThreadId}
  {binding : Binding} {consumer producer : Thread Place} {parked : List Parked}
  {line : List ThreadId} {log : List (Entry Event)} {m m' m'' : ProgramMachine} {j k : Nat}

theorem Plays.trans (h : Plays s j m m') (h' : Plays s k m' m'') : Plays s (k + j) m m'' := by
  intro n
  rw [← Nat.add_assoc, h, h']

/-- One step of the thread in front. -/
theorem Plays.step {t : ThreadId} (hline : m.line = t :: line) (h : m.step s.code t = some m') :
    Plays s 1 m m' := by
  intro n
  rw [settle, turn, hline, List.findSome?_cons, h]

/-- One command of the thread in front. -/
theorem Plays.command {t : ThreadId} {place : Place} {command : Command Inbox Place Event}
    (hline : m.line = t :: line) (hcontrol : m.control? t = some (.running place))
    (hcode : s.code place = command) (h : m.commandStep t command = some m') : Plays s 1 m m' := by
  refine .step hline ?_
  rw [Machine.step, hcontrol]
  dsimp only
  rw [hcode, h]

theorem settle_of_turn (h : m.turn s.code = none) (n : Nat) : m.settle s.code n = m := by
  cases n with
  | zero => rfl
  | succ n => rw [settle, h]

/-- A machine that comes to rest in `k` turns does so in any number of turns that suffices. -/
theorem Plays.settle_eq (h : Plays s k m m') (hrest : m'.turn s.code = none) {n : Nat}
    (hn : k ≤ n) : m.settle s.code n = m' := by
  obtain ⟨d, rfl⟩ := Nat.exists_eq_add_of_le' hn
  rw [h, settle_of_turn hrest]

/-- The machine of the program, with all there is on it. -/
def scene (s : Settings) (cs : Clocks) (mono : Int) (box : Inbox) (holder : Option ThreadId)
    (binding : Binding) (consumer producer : Thread Place) (parked : List Parked)
    (line : List ThreadId) (log : List (Entry Event)) : ProgramMachine where
  mono := mono
  clocks := cs
  mutexes := [⟨box, holder⟩]
  condvars := [⟨s.clock, binding⟩]
  threads := [consumer, producer]
  parked := parked
  line := line
  log := log

/-- The condition variable while the consumer is inside a wait. -/
def taken : Binding := ⟨some inbox, 1⟩

/-- The consumer in its wait for a burst. -/
def awaiting (count : Count) (stage : Stage) : Thread Place :=
  ⟨.waiting signalled none stage fun r => .idle (Policy.forever.returned r) count, some inbox⟩

/-- The consumer in its wait for the end of a burst. -/
def gathering (s : Settings) (start : Int) (deadline : Time) (count : Count) (stage : Stage) :
    Thread Place :=
  ⟨.waiting signalled (some deadline) stage
    fun r => .gathering start ((Policy.quiet s.delay).returned r) count, some inbox⟩

/-- The consumer runs and holds the mutex. -/
def holding (place : Place) : Thread Place := ⟨.running place, some inbox⟩

/-- The producer runs. -/
def running (place : Place) : Thread Place := ⟨.running place, none⟩

def sleeping (place : Place) : Thread Place := ⟨.sleeping place, none⟩

/-! ### The producer -/

/-- What the producer notes down of an event. -/
def stampAt (cs : Clocks) (mono : Int) : Nat :=
  Uptime.epochNanos (cs.realtime.reply mono) % unsignedLimit

/-- The producer takes the mutex, pushes an event, gives the mutex back and wakes the consumer. -/
theorem plays_event {place : Place} {r e : Nat} {deadline : Option Time}
    {timed : Option (Timer × Park)} {next : Except SyncError WaitStatus → Place} {u : Option Int}
    (hcode : s.code place = .lock inbox (.stamping r e)) :
    Plays s 5
      (scene s cs mono box none binding
        ⟨.waiting signalled deadline (.queued timed) next, some inbox⟩ (running place)
        [⟨mainThread, some signalled, u⟩] [producerThread] log)
      (scene s cs mono { box with pending := box.pending ++ [stampAt cs mono] } none binding
        ⟨.waiting signalled deadline (.woken true timed) next, some inbox⟩
        (running (.resting r e)) [] [producerThread, mainThread]
        (⟨mono, some producerThread, .record (.signaled true)⟩ :: log)) := by
  have hlock := Plays.command (m := scene s cs mono box none binding
    ⟨.waiting signalled deadline (.queued timed) next, some inbox⟩ (running place)
    [⟨mainThread, some signalled, u⟩] [producerThread] log) rfl rfl hcode rfl
  exact hlock.trans (k := 4) fun n => rfl

/-- As above, but the consumer has been woken before and does not have the mutex yet. -/
theorem plays_event_unheard {place : Place} {r e : Nat}
    (hcode : s.code place = .lock inbox (.stamping r e)) :
    Plays s 5
      (scene s cs mono box none binding consumer (running place) [] [producerThread, mainThread]
        log)
      (scene s cs mono { box with pending := box.pending ++ [stampAt cs mono] } none binding
        consumer (running (.resting r e)) [] [producerThread, mainThread]
        (⟨mono, some producerThread, .record (.signaled false)⟩ :: log)) := by
  have hlock := Plays.command (m := scene s cs mono box none binding consumer (running place) []
    [producerThread, mainThread] log) rfl rfl hcode rfl
  exact hlock.trans (k := 4) fun n => rfl

theorem wakeAt_eq_some {length : Duration} (h : m.mono + length.totalNanos ≤ lastInstant) :
    m.wakeAt length = some (m.mono + length.totalNanos) := if_pos h

/-- A sleep that takes no time. -/
theorem plays_no_sleep {place next : Place} {length : Duration}
    (hcode : s.code place = .sleep length next) (hzero : length.totalNanos = 0) :
    Plays s 1
      (scene s cs mono box holder binding consumer (running place) parked (producerThread :: line)
        log)
      (scene s cs mono box holder binding consumer (running next) parked (producerThread :: line)
        log) := by
  have hlength : length = .zero := Duration.totalNanos_injective hzero
  refine .command rfl rfl hcode ?_
  rw [commandStep, if_pos hlength]
  rfl

theorem plays_sleep {place next : Place} {length : Duration}
    (hcode : s.code place = .sleep length next) (hpos : 0 < length.totalNanos)
    (hend : mono + length.totalNanos ≤ lastInstant) :
    Plays s 1
      (scene s cs mono box holder binding consumer (running place) parked (producerThread :: line)
        log)
      (scene s cs mono box holder binding consumer (sleeping next)
        (parked ++ [⟨producerThread, none, some (mono + length.totalNanos)⟩]) line log) := by
  have hlength : length ≠ .zero := by
    rintro rfl
    exact absurd hpos (Nat.lt_irrefl 0)
  refine .command rfl rfl hcode ?_
  rw [commandStep, if_neg hlength, wakeAt_eq_some hend]
  rfl

/-- The producer has ended, and the consumer tells what it handled, which was everything. -/
theorem plays_tell {count : Count} (hall : count.handled = s.events * s.bursts) :
    Plays s 2
      (scene s cs mono box none {} (running (.telling count)) ⟨.ended, none⟩ [] [mainThread] log)
      (scene s cs mono box none {} ⟨.ended, none⟩ ⟨.ended, none⟩ [] []
        (⟨mono, some mainThread, .event (.finished count.batches count.handled)⟩ :: log)) := by
  have htell : s.code (.telling count) =
      .emit [.event (.finished count.batches count.handled)] .ending := by
    rw [Settings.code, Settings.tell, if_pos hall]
    rfl
  have htells : Plays s 1 (scene s cs mono box none {} (running (.telling count)) ⟨.ended, none⟩ []
    [mainThread] log) _ := .command rfl rfl htell rfl
  exact htells.trans (k := 1) fun _ => rfl

/-- The producer sets the flag and ends. The consumer, which was waiting for a burst, sees that no
more will come, and all is over. -/
theorem plays_end {count : Count} {u : Option Int} (hall : count.handled = s.events * s.bursts) :
    Plays s 13
      (scene s cs mono {} none taken (awaiting count (.queued none)) (running (.burst 0))
        [⟨mainThread, some signalled, u⟩] [producerThread] log)
      (scene s cs mono { shutdown := true } none {} ⟨.ended, none⟩ ⟨.ended, none⟩ [] []
        (⟨mono, some mainThread, .event (.finished count.batches count.handled)⟩ ::
          ⟨mono, some producerThread, .record (.signaled true)⟩ :: log)) := by
  have hjoins : Plays s 11
      (scene s cs mono {} none taken (awaiting count (.queued none)) (running (.burst 0))
        [⟨mainThread, some signalled, u⟩] [producerThread] log)
      (scene s cs mono { shutdown := true } none {} (running (.telling count)) ⟨.ended, none⟩ []
        [mainThread] (⟨mono, some producerThread, .record (.signaled true)⟩ :: log)) :=
    fun _ => rfl
  exact hjoins.trans (plays_tell hall)

/-! ### The consumer -/

/-- The consumer runs at first, and waits for a burst. -/
theorem plays_start : Plays s 5
    (scene s cs mono {} none {} (running .entering) producer [] [mainThread, producerThread] log)
    (scene s cs mono {} none taken (awaiting {} (.queued none)) producer
      [⟨mainThread, some signalled, none⟩] [producerThread] log) := fun _ => rfl

/-- A notification that comes to the consumer while it waits for a burst. It finds events pending
and goes on to gather what follows them. -/
theorem plays_found {count : Count} (hpending : box.pending ≠ []) :
    Plays s 6
      (scene s cs mono box none taken (awaiting count (.woken true none)) producer parked
        [mainThread] log)
      (scene s cs mono box (some mainThread) {}
        (holding (.gathering mono (.check (.quiet s.delay)) count)) producer parked
        [mainThread] (⟨mono, some mainThread, .spanOpened s.span⟩ :: log)) := by
  obtain ⟨pending, shutdown⟩ := box
  obtain ⟨stamp, stamps, rfl⟩ := List.exists_cons_of_ne_nil hpending
  cases shutdown with
  | false => exact fun _ => rfl
  | true => exact fun _ => rfl

/-- A notification that comes while the consumer gathers. -/
theorem plays_heard {start : Int} {deadline : Time} {count : Count} {timed : Timer × Park} :
    Plays s 2
      (scene s cs mono box none taken (gathering s start deadline count (.woken true (some timed)))
        producer parked [mainThread] log)
      (scene s cs mono box (some mainThread) {}
        (holding (.gathering start (.check (.quiet s.delay)) count)) producer parked
        [mainThread] log) := fun _ => rfl

/-- The consumer reads its clock. -/
theorem plays_read {start : Int} {deadline : Time} {count : Count} {timer : Timer}
    {pass : Timer.Pass} (hpass : timer.pass (cs.now mono timer.clock) = pass) :
    Plays s 1
      (scene s cs mono box (some mainThread) taken
        (gathering s start deadline count (.reading timer)) producer parked [mainThread] log)
      (scene s cs mono box (some mainThread) taken
        (gathering s start deadline count (.ofPass timer pass)) producer parked [mainThread]
        (((pass.records.map .record).map (⟨mono, some mainThread, ·⟩)).reverse ++ log)) := by
  subst hpass
  exact fun _ => rfl

/-- The consumer parks after a reading that left it time. -/
theorem plays_park {start : Int} {deadline : Time} {count : Count} {timer : Timer} {p : Park}
    (hpass : timer.pass (cs.now mono timer.clock) = .park p)
    (hend : mono + p.length.totalNanos ≤ lastInstant) :
    Plays s 2
      (scene s cs mono box (some mainThread) taken
        (gathering s start deadline count (.reading timer)) producer parked [mainThread] log)
      (scene s cs mono box none taken
        (gathering s start deadline count (.queued (some (timer, p)))) producer
        (parked ++ [⟨mainThread, some signalled, some (mono + p.length.totalNanos)⟩]) [] log) := by
  have queues {u : Option Int} (hu : (if mono + p.length.totalNanos ≤ lastInstant then
      some (mono + p.length.totalNanos) else none) = u) : Plays s 1
      (scene s cs mono box (some mainThread) taken
        (gathering s start deadline count (.parking (some (timer, p)))) producer parked
        [mainThread] log)
      (scene s cs mono box none taken
        (gathering s start deadline count (.queued (some (timer, p)))) producer
        (parked ++ [⟨mainThread, some signalled, u⟩]) [] log) := by
    subst hu
    exact fun _ => rfl
  exact (plays_read hpass).trans (queues (if_pos hend))

/-- The consumer fixes a new deadline. -/
theorem plays_arm {start : Int} {count : Count} {now : Time} (hshutdown : box.shutdown = false)
    (hnow : cs.now mono s.clock = .ok now) :
    Plays s 4
      (scene s cs mono box (some mainThread) {}
        (holding (.gathering start (.check (.quiet s.delay)) count)) producer parked
        [mainThread] log)
      (scene s cs mono box (some mainThread) taken
        (gathering s start (now.saturatingAdd s.delay) count
          (.reading { clock := s.clock, deadline := now.saturatingAdd s.delay })) producer parked
        [mainThread] log) := by
  obtain ⟨pending, shutdown⟩ := box
  obtain rfl : shutdown = false := hshutdown
  have harm : Plays s 2
      (scene s cs mono ⟨pending, false⟩ (some mainThread) {}
        (holding (.gathering start (.check (.quiet s.delay)) count)) producer parked
        [mainThread] log)
      (scene s cs mono ⟨pending, false⟩ (some mainThread) {}
        (holding (.gathering start ((Policy.quiet s.delay).armed s.delay
          ((cs.now mono s.clock).mapError .clock)) count)) producer parked [mainThread] log) :=
    fun _ => rfl
  rw [hnow] at harm
  have hregister : Plays s 2
      (scene s cs mono ⟨pending, false⟩ (some mainThread) {}
        (holding (.gathering start ((Policy.quiet s.delay).armed s.delay (.ok now)) count)) producer
        parked [mainThread] log)
      (scene s cs mono ⟨pending, false⟩ (some mainThread) taken
        (gathering s start (now.saturatingAdd s.delay) count
          (.reading { clock := s.clock, deadline := now.saturatingAdd s.delay })) producer
        parked [mainThread] log) := fun _ => rfl
  exact harm.trans hregister

/-- The consumer fixes a new deadline and parks. -/
theorem plays_gather {start : Int} {count : Count} {now : Time} {p : Park}
    (hshutdown : box.shutdown = false) (hnow : cs.now mono s.clock = .ok now)
    (hpass : Timer.pass { clock := s.clock, deadline := now.saturatingAdd s.delay } (.ok now) =
      .park p) (hend : mono + p.length.totalNanos ≤ lastInstant) :
    Plays s 6
      (scene s cs mono box (some mainThread) {}
        (holding (.gathering start (.check (.quiet s.delay)) count)) producer parked
        [mainThread] log)
      (scene s cs mono box none taken
        (gathering s start (now.saturatingAdd s.delay) count
          (.queued (some ({ clock := s.clock, deadline := now.saturatingAdd s.delay }, p))))
        producer
        (parked ++ [⟨mainThread, some signalled, some (mono + p.length.totalNanos)⟩]) [] log) := by
  rw [← hnow] at hpass
  exact (plays_arm hshutdown hnow).trans (plays_park hpass hend)

/-- The park of the consumer ran out, and it reads its clock again. -/
theorem plays_again {start : Int} {deadline : Time} {count : Count} {timer : Timer} {p : Park} :
    Plays s 1
      (scene s cs mono box none taken
        (gathering s start deadline count (.woken false (some (timer, p)))) producer parked
        [mainThread] log)
      (scene s cs mono box (some mainThread) taken
        (gathering s start deadline count (.reading (timer.expired p))) producer parked
        [mainThread] log) := fun _ => rfl

/-- The consumer reads its clock and the deadline has passed: it handles what is pending, and waits
for the next burst. -/
theorem plays_batch (start : Int) (deadline : Time) (count : Count) (producer : Thread Place)
    (parked : List Parked) (log : List (Entry Event)) {now : Time} {timer : Timer}
    (hshutdown : box.shutdown = false)
    (hpass : timer.pass (cs.now mono timer.clock) = .finish (.timedOut timer.deadline now)) :
    ∃ e, Plays s 10
      (scene s cs mono box (some mainThread) taken
        (gathering s start deadline count (.reading timer)) producer parked [mainThread] log)
      (scene s cs mono {} none taken
        (awaiting ⟨count.batches + 1, count.handled + box.pending.length⟩ (.queued none)) producer
        (parked ++ [⟨mainThread, some signalled, none⟩]) []
        (⟨mono, some mainThread, .event (.batch (count.batches + 1) box.pending)⟩ ::
          ⟨mono, some mainThread, .spanEnded e⟩ ::
          ⟨mono, some mainThread, .record (.timedOut timer.deadline now)⟩ :: log)) := by
  obtain ⟨pending, shutdown⟩ := box
  obtain rfl : shutdown = false := hshutdown
  refine ⟨s.span.finish start mono false, (plays_read hpass).trans (k := 9) fun _ => rfl⟩

end TimedCondvar.Demo
