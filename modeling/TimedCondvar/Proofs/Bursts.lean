import TimedCondvar.Proofs.Scenes
import TimedCondvar.Proofs.Slices

/-!
Bursts of events that come closer together than the delay. Every event moves the deadline of the
consumer on, but not past the pause behind the last of them. What holds whenever both threads are
parked is listed in `Rest`; a burst that begins, an event that comes and a park that is over each
lead there again.
-/

namespace TimedCondvar.Demo

open Machine

variable {s s' : Settings} {cs : Clocks} {offset first horizon mono : Int} {k r : Nat}
  {log₀ log : List (Entry Event)} {m m' : ProgramMachine}

/-! ### What is told -/

/-- The batches that a log tells of, each by its number and its length. -/
def batchesIn (log : List (Entry Event)) : List (Nat × Nat) :=
  log.filterMap fun entry =>
    match entry.note with
    | .event (.batch number stamps) => some (number, stamps.length)
    | _ => none

/-- The batches of `k` bursts, the latest first. A burst without events has none. -/
def batchesOf (s : Settings) : Nat → List (Nat × Nat)
  | 0 => []
  | k + 1 => if s.events = 0 then [] else (k + 1, s.events) :: batchesOf s k

/-- What the consumer has counted after `k` bursts. -/
def countOf (s : Settings) (k : Nat) : Count :=
  ⟨if s.events = 0 then 0 else k, k * s.events⟩

/-- The log tells of the batches of `k` bursts and of no failure, besides what it told at first. -/
structure Told (s : Settings) (log₀ : List (Entry Event)) (k : Nat) (log : List (Entry Event)) :
    Prop where
  batches : batchesIn log = batchesOf s k ++ batchesIn log₀
  failure : failureOf log = failureOf log₀

theorem Told.record (h : Told s log₀ k log) (mono : Int) (t : Option ThreadId) (r : Record) :
    Told s log₀ k (⟨mono, t, .record r⟩ :: log) := ⟨h.batches, h.failure⟩

theorem Told.spanOpened (h : Told s log₀ k log) (mono : Int) (span : WaitSpan) :
    Told s log₀ k (⟨mono, some mainThread, .spanOpened span⟩ :: log) := ⟨h.batches, h.failure⟩

theorem Told.batch {stamps : List Nat} (h : Told s log₀ k log) (hstamps : stamps.length = s.events)
    (hpos : 0 < s.events) : Told s log₀ (k + 1)
      (⟨mono, some mainThread, .event (.batch ((countOf s k).batches + 1) stamps)⟩ :: log) := by
  have hne : s.events ≠ 0 := Nat.ne_of_gt hpos
  refine ⟨?_, h.failure⟩
  have hcons : batchesIn
      (⟨mono, some mainThread, .event (.batch ((countOf s k).batches + 1) stamps)⟩ :: log) =
      ((countOf s k).batches + 1, stamps.length) :: batchesIn log := rfl
  rw [hcons, h.batches, hstamps, countOf, batchesOf, if_neg hne, if_neg hne]
  rfl

theorem Told.skip (h : Told s log₀ k log) (hzero : s.events = 0) : Told s log₀ (k + 1) log := by
  have hnone : batchesOf s k = [] := by
    cases k with
    | zero => rfl
    | succ k => rw [batchesOf, if_pos hzero]
  refine ⟨?_, h.failure⟩
  rw [h.batches, batchesOf, if_pos hzero, hnone]

theorem countOf_zero : countOf s 0 = {} := by
  rw [countOf, ite_self, Nat.zero_mul]

theorem countOf_batch (hpos : 0 < s.events) : (⟨(countOf s k).batches + 1,
    (countOf s k).handled + s.events⟩ : Count) = countOf s (k + 1) := by
  have hne : s.events ≠ 0 := Nat.ne_of_gt hpos
  rw [countOf, countOf, if_neg hne, if_neg hne, Nat.succ_mul]

theorem countOf_skip (hzero : s.events = 0) : countOf s (k + 1) = countOf s k := by
  rw [countOf, countOf, if_pos hzero, if_pos hzero, hzero]
  rfl

/-! ### Time -/

/-- How long the producer sleeps in `r` bursts. -/
def timeFor (s : Settings) (r : Nat) : Nat :=
  r * (s.events * s.spacing.totalNanos + s.gap.totalNanos)

theorem timeFor_succ (s : Settings) (r : Nat) : timeFor s (r + 1) =
    s.events * s.spacing.totalNanos + s.gap.totalNanos + timeFor s r := by
  rw [timeFor, timeFor, Nat.succ_mul]
  omega

/-- A pause that is short enough to end is not cut. -/
theorem totalNanos_gap (h : (s.gap.totalNanos : Int) ≤ lastInstant) :
    s.gap.totalNanos = s.delay.totalNanos * 3 := by
  by_cases hrange : s.delay.totalNanos * 3 / nanosPerSec < unsignedLimit
  · exact Duration.totalNanos_ofNanos hrange
  · have hmax : s.gap = .max := dif_neg hrange
    rw [hmax] at h
    exact absurd h (by decide)

/-- From `first` to `horizon` the clock of the program goes along with the park clock, and all
instants are ones at which a park can end. -/
structure Steady (s : Settings) (cs : Clocks) (offset first horizon : Int) : Prop where
  inStep : ∀ mono, first ≤ mono → mono ≤ horizon →
    ∃ now, cs.now mono s.clock = .ok now ∧ now.totalNanos = mono + offset
  nonneg : 0 ≤ first
  le_last : horizon ≤ lastInstant

/-- The events of a burst come no further apart than the delay. -/
structure Fair (s : Settings) (cs : Clocks) (offset first horizon : Int) : Prop extends
    Steady s cs offset first horizon where
  close : 0 < s.events →
    0 < s.delay.totalNanos ∧ s.spacing.totalNanos ≤ s.delay.totalNanos

/-- The consumer's timer while it gathers, if its wait is over when the park clock stands at
`limit`. -/
structure Due (s : Settings) (offset : Int) (timer : Timer) (limit : Int) : Prop where
  clock : timer.clock = s.clock
  retries : timer.retries = 0
  deadline : timer.deadline.totalNanos = limit + offset

/-- A park from `mono` to `u`, on the way to `limit`. It ends there unless it was cut. -/
structure Heads (mono : Int) (p : Park) (limit u : Int) : Prop where
  eq : u = mono + p.length.totalNanos
  lt : mono < u
  le : u ≤ limit
  uncut : p.capped = false → u = limit

theorem Steady.park (h : Steady s cs offset first horizon) {timer : Timer} {limit : Int}
    (due : Due s offset timer limit) (hfirst : first ≤ mono) (hlt : mono < limit)
    (hle : limit ≤ horizon) : ∃ p u, timer.pass (cs.now mono timer.clock) = .park p ∧
      Heads mono p limit u := by
  obtain ⟨now, hnow, htotal⟩ := h.inStep mono hfirst (by omega)
  have hahead : ¬timer.deadline ≤ now := by
    rw [Time.le_iff_totalNanos, due.deadline]
    omega
  have hleft := Time.totalNanos_durationSince timer.deadline now
  rw [due.deadline, htotal, Int.max_eq_right (by omega)] at hleft
  have hbudget : ¬clockSkewRetries < timer.retries := by rw [due.retries]; decide
  have hpos : 0 < (timer.clock.park (timer.deadline.durationSince now)).length.totalNanos :=
    Clock.park_length_pos (by omega)
  obtain ⟨hlength, huncut⟩ := Clock.park_length timer.clock (timer.deadline.durationSince now)
  refine ⟨timer.clock.park (timer.deadline.durationSince now), _, ?_, rfl, by omega, by omega,
    fun hcapped => ?_⟩
  · rw [due.clock, hnow, Timer.pass, if_neg hahead, if_neg hbudget, due.clock]
  · rw [huncut hcapped]
    omega

theorem Steady.late (h : Steady s cs offset first horizon) {timer : Timer} {limit : Int}
    (hclock : timer.clock = s.clock) (hdeadline : timer.deadline.totalNanos = limit + offset)
    (hfirst : first ≤ limit) (hle : limit ≤ horizon) :
    ∃ now, timer.pass (cs.now limit timer.clock) = .finish (.timedOut timer.deadline now) := by
  obtain ⟨now, hnow, htotal⟩ := h.inStep limit hfirst hle
  have hlate : timer.deadline ≤ now := by
    rw [Time.le_iff_totalNanos, hdeadline]
    omega
  exact ⟨now, by rw [hclock, hnow, Timer.pass, if_pos hlate]⟩

theorem Steady.gap (h : Steady s cs offset first horizon) (hfirst : first ≤ mono)
    (hle : mono + s.gap.totalNanos ≤ horizon) : s.gap.totalNanos = s.delay.totalNanos * 3 := by
  have hnonneg := h.nonneg
  have hlast := h.le_last
  exact totalNanos_gap (by omega)

/-- The delay is added to a reading as it is if there is time for a pause. -/
theorem Steady.deadline (h : Steady s cs offset first horizon) {now : Time} (hfirst : first ≤ mono)
    (htotal : now.totalNanos = mono + offset) (hle : mono + s.gap.totalNanos ≤ horizon) :
    (now.saturatingAdd s.delay).totalNanos = mono + s.delay.totalNanos + offset := by
  have hnonneg := h.nonneg
  have hlast := h.le_last
  have hgap := h.gap hfirst hle
  obtain ⟨later, -, hlater⟩ := h.inStep (mono + s.delay.totalNanos) (by omega) (by omega)
  have hmax := later.totalNanos_le_max
  have hn := now.nanos_lt
  have hn' := s.delay.nanos_lt
  rw [Time.totalNanos_saturatingAdd_of_lt ?_ (by omega)]
  · omega
  · have hlimit : 2 < signedLimit := by decide
    simp only [lastInstant, Time.totalNanos_max, Duration.totalNanos, nanosPerSec] at *
    omega

/-- Of a park that is over before the limit nothing is left in the timer. -/
theorem Heads.expired {timer : Timer} {p : Park} {limit u : Int} (h : Heads mono p limit u)
    (hlt : u < limit) : timer.expired p = timer := by
  have hcapped : p.capped = true := by
    cases hp : p.capped with
    | true => rfl
    | false => exact absurd (h.uncut hp) (by omega)
  rw [Timer.expired, if_pos hcapped]

/-! ### At rest -/

/-- The parks of the two threads, in either order. -/
def Both (consumer producer : Option Int) (parked : List Parked) : Prop :=
  parked = [⟨mainThread, some signalled, consumer⟩, ⟨producerThread, none, producer⟩] ∨
    parked = [⟨producerThread, none, producer⟩, ⟨mainThread, some signalled, consumer⟩]

/-- The machine with no thread left to run, and how many parks can be due at once. After `k` bursts
there are `r` to come. -/
inductive Rest (s : Settings) (cs : Clocks) (offset horizon : Int) (log₀ : List (Entry Event)) :
    Nat → ProgramMachine → Prop
  /-- Between two bursts the consumer waits for the next one. -/
  | idle {mono u : Int} {k r : Nat} {parked : List Parked} {log : List (Entry Event)}
      (hbursts : k + r = s.bursts) (hparked : Both none (some u) parked) (hu : mono < u)
      (htime : u + timeFor s r ≤ horizon) (told : Told s log₀ k log) :
      Rest s cs offset horizon log₀ 1 (scene s cs mono {} none taken
        (awaiting (countOf s k) (.queued none)) (sleeping (.burst r)) parked [] log)
  /-- Within a burst the next event, or the pause, comes no later than the deadline. The park of the
  producer is the older one, so that it ends first. -/
  | between {mono u v limit start : Int} {k r e : Nat} {box : Inbox} {deadline : Time}
      {timer : Timer} {p : Park} {log : List (Entry Event)} (hbursts : k + 1 + r = s.bursts)
      (hpos : 0 < s.events) (hpending : box.pending.length + e = s.events)
      (hopen : box.shutdown = false)
      (hspacing : 0 < s.spacing.totalNanos) (hu : mono < u) (hlimit : u ≤ limit)
      (hle : limit ≤ u + s.delay.totalNanos)
      (htime : u + (e * s.spacing.totalNanos + s.gap.totalNanos + timeFor s r : Nat) ≤ horizon)
      (due : Due s offset timer limit) (heads : Heads mono p limit v) (told : Told s log₀ k log) :
      Rest s cs offset horizon log₀ 1 (scene s cs mono box none taken
        (gathering s start deadline (countOf s k) (.queued (some (timer, p))))
        (sleeping (.event r e))
        [⟨producerThread, none, some u⟩, ⟨mainThread, some signalled, some v⟩] [] log)
  /-- Behind a burst the deadline comes before the next one. A park may be due. -/
  | behind {mono u v limit start from_ : Int} {k r c : Nat} {box : Inbox} {deadline : Time}
      {timer : Timer} {p : Park} {parked : List Parked} {log : List (Entry Event)}
      (hbursts : k + 1 + r = s.bursts) (hpos : 0 < s.events)
      (hpending : box.pending.length = s.events) (hopen : box.shutdown = false)
      (hparked : Both (some v) (some u) parked)
      (hlt : limit < u) (htime : u + timeFor s r ≤ horizon)
      (hdue : mono < v ∧ c = 1 ∨ mono = v ∧ c = 2)
      (due : Due s offset timer limit) (heads : Heads from_ p limit v) (told : Told s log₀ k log) :
      Rest s cs offset horizon log₀ c (scene s cs mono box none taken
        (gathering s start deadline (countOf s k) (.queued (some (timer, p))))
        (sleeping (.burst r)) parked [] log)
  | ended {mono : Int} {log : List (Entry Event)} (told : Told s log₀ s.bursts log) :
      Rest s cs offset horizon log₀ 0 (scene s cs mono { shutdown := true } none {} ⟨.ended, none⟩
        ⟨.ended, none⟩ [] []
        (⟨mono, some mainThread, .event (.finished (countOf s s.bursts).batches
          (countOf s s.bursts).handled)⟩ :: log))

/-- From `m` the machine comes to rest in `j` turns, at the instant at which it is. What rest is,
and how many parks can be due then, is said by `R`. -/
def ComesToRest (s : Settings) (R : Nat → ProgramMachine → Prop) (j c : Nat)
    (m : ProgramMachine) : Prop :=
  ∃ m', Plays s j m m' ∧ R c m' ∧ m'.mono = m.mono

/-- The consumer, which has just been woken, fixes its deadline anew and parks. -/
theorem Steady.gather (h : Steady s cs offset first horizon) {start : Int} {count : Count}
    {box : Inbox} {producer : Thread Place} {parked : List Parked} (hopen : box.shutdown = false)
    (hfirst : first ≤ mono) (hpos : 0 < s.delay.totalNanos)
    (hle : mono + s.gap.totalNanos ≤ horizon) :
    ∃ timer deadline p v, Due s offset timer (mono + s.delay.totalNanos) ∧
      Heads mono p (mono + s.delay.totalNanos) v ∧ Plays s 6
        (scene s cs mono box (some mainThread) {}
          (holding (.gathering start (.check (.quiet s.delay)) count)) producer parked
          [mainThread] log)
        (scene s cs mono box none taken
          (gathering s start deadline count (.queued (some (timer, p)))) producer
          (parked ++ [⟨mainThread, some signalled, some v⟩]) [] log) := by
  have hgap := h.gap hfirst hle
  obtain ⟨now, hnow, htotal⟩ := h.inStep mono hfirst (by omega)
  have due : Due s offset { clock := s.clock, deadline := now.saturatingAdd s.delay }
      (mono + s.delay.totalNanos) := ⟨rfl, rfl, h.deadline hfirst htotal hle⟩
  obtain ⟨p, v, hpass, heads⟩ := h.park due hfirst (by omega) (by omega)
  have hpass : Timer.pass { clock := s.clock, deadline := now.saturatingAdd s.delay } (.ok now) =
      .park p := hnow ▸ hpass
  have hlast := h.le_last
  have hv := heads.le
  obtain rfl := heads.eq
  exact ⟨_, _, p, _, due, heads, plays_gather hopen hnow hpass (by omega)⟩

/-- The first event of a burst, or all of them, have come to the consumer while it waited. -/
theorem Steady.found (h : Steady s cs offset first horizon) (box : Inbox) (count : Count)
    (producer : Thread Place) (parked : List Parked) (hpending : box.pending ≠ [])
    (hopen : box.shutdown = false) (hfirst : first ≤ mono) (hpos : 0 < s.delay.totalNanos)
    (hle : mono + s.gap.totalNanos ≤ horizon) (told : Told s' log₀ k log) :
    ∃ timer deadline p v log', Due s offset timer (mono + s.delay.totalNanos) ∧
      Heads mono p (mono + s.delay.totalNanos) v ∧ Told s' log₀ k log' ∧ Plays s 12
        (scene s cs mono box none taken (awaiting count (.woken true none)) producer parked
          [mainThread] log)
        (scene s cs mono box none taken
          (gathering s mono deadline count (.queued (some (timer, p)))) producer
          (parked ++ [⟨mainThread, some signalled, some v⟩]) [] log') := by
  obtain ⟨timer, deadline, p, v, due, heads, hgather⟩ := h.gather hopen hfirst hpos hle
  exact ⟨timer, deadline, p, v, _, due, heads, told.spanOpened mono s.span,
    (plays_found hpending).trans hgather⟩

/-- Another event has come while it gathered. -/
theorem Steady.heard (h : Steady s cs offset first horizon) (box : Inbox) (start : Int)
    (deadline₀ : Time) (timed : Timer × Park) (count : Count) (producer : Thread Place)
    (parked : List Parked) (log : List (Entry Event)) (hopen : box.shutdown = false)
    (hfirst : first ≤ mono)
    (hpos : 0 < s.delay.totalNanos) (hle : mono + s.gap.totalNanos ≤ horizon) :
    ∃ timer deadline p v, Due s offset timer (mono + s.delay.totalNanos) ∧
      Heads mono p (mono + s.delay.totalNanos) v ∧ Plays s 8
        (scene s cs mono box none taken
          (gathering s start deadline₀ count (.woken true (some timed))) producer parked
          [mainThread] log)
        (scene s cs mono box none taken
          (gathering s start deadline count (.queued (some (timer, p)))) producer
          (parked ++ [⟨mainThread, some signalled, some v⟩]) [] log) := by
  obtain ⟨timer, deadline, p, v, due, heads, hgather⟩ := h.gather hopen hfirst hpos hle
  exact ⟨timer, deadline, p, v, due, heads, plays_heard.trans hgather⟩

/-! ### Bursts -/

/-- Events with no time between them come before the consumer has its mutex back. -/
theorem plays_events_at_once (cs : Clocks) (mono : Int) (consumer : Thread Place) (r : Nat)
    (hspacing : s.spacing.totalNanos = 0) (e : Nat) (box : Inbox) (hpending : box.pending ≠ [])
    (hopen : box.shutdown = false) (told : Told s' log₀ k log) :
    ∃ box' log', Plays s (6 * e)
        (scene s cs mono box none taken consumer (running (.event r e)) []
          [producerThread, mainThread] log)
        (scene s cs mono box' none taken consumer (running (.event r 0)) []
          [producerThread, mainThread] log') ∧
      box'.pending.length = box.pending.length + e ∧ box'.pending ≠ [] ∧ box'.shutdown = false ∧
      Told s' log₀ k log' := by
  induction e generalizing box log with
  | zero => exact ⟨box, log, fun _ => rfl, rfl, hpending, hopen, told⟩
  | succ e ih =>
      have hevent : Plays s 5 (scene s cs mono box none taken consumer (running (.event r (e + 1)))
        [] [producerThread, mainThread] log) _ := plays_event_unheard rfl
      obtain ⟨box', log', hrest, hlength, hnonempty, hopen', told'⟩ := ih
        { box with pending := box.pending ++ [stampAt cs mono] } (by simp) hopen
        (told.record mono producerThread (.signaled false))
      refine ⟨box', log', (hevent.trans (plays_no_sleep rfl hspacing)).trans hrest, ?_, hnonempty,
        hopen', told'⟩
      rw [hlength, List.length_append, List.length_singleton]
      omega

/-- A burst with at least one event begins. If there is time between its events then the consumer
gathers after the first of them, and otherwise after all. -/
theorem Fair.burst_of_events (h : Fair s cs offset first horizon) {e : Nat} (he : s.events = e + 1)
    (hfirst : first ≤ mono) (hbursts : k + 1 + r = s.bursts)
    (htime : mono + timeFor s (r + 1) ≤ horizon) (told : Told s log₀ k log) :
    ∃ j ≤ 6 * s.events + 13, ComesToRest s (Rest s cs offset horizon log₀) j 1
      (scene s cs mono {} none taken (awaiting (countOf s k) (.queued none))
        (running (.burst (r + 1))) [⟨mainThread, some signalled, none⟩] [producerThread] log) := by
  have hlast := h.le_last
  obtain ⟨hdelay, hclose⟩ := h.close (by omega)
  rw [timeFor_succ, he, Nat.succ_mul] at htime
  have hgap := h.gap hfirst (by omega)
  have hcode : s.code (.burst (r + 1)) = .lock inbox (.stamping r e) := by
    rw [Settings.code, he, Settings.nextEvent]
  have hevent : Plays s 5 (scene s cs mono {} none taken (awaiting (countOf s k) (.queued none))
    (running (.burst (r + 1))) [⟨mainThread, some signalled, none⟩] [producerThread] log) _ :=
    plays_event hcode
  have told' := told.record mono producerThread (.signaled true)
  rcases Nat.eq_zero_or_pos s.spacing.totalNanos with hspacing | hspacing
  · obtain ⟨box, log', hevents, hlength, hpending, hopen, told'⟩ := plays_events_at_once cs mono
      (awaiting (countOf s k) (.woken true none)) r hspacing e { pending := [stampAt cs mono] }
      (by simp) rfl told'
    have hpause := hevents.trans (plays_sleep rfl (by omega) (by omega))
    obtain ⟨timer, deadline, p, v, log', due, heads, told', hfound⟩ := h.found box (countOf s k)
      (sleeping (.burst r)) [⟨producerThread, none, some (mono + s.gap.totalNanos)⟩] hpending hopen
      hfirst hdelay (by omega) told'
    rw [List.length_singleton] at hlength
    refine ⟨_, ?_, _,
      ((hevent.trans (plays_no_sleep rfl hspacing)).trans hpause).trans hfound, ?_, rfl⟩
    · omega
    · exact .behind hbursts (by omega) (by omega) hopen (.inr rfl) (by omega) (by omega)
        (.inl ⟨heads.lt, rfl⟩) due heads told'
  · obtain ⟨timer, deadline, p, v, log', due, heads, told', hfound⟩ := h.found
      { pending := [stampAt cs mono] } (countOf s k) (sleeping (.event r e))
      [⟨producerThread, none, some (mono + s.spacing.totalNanos)⟩] (by simp) rfl hfirst hdelay
      (by omega) told'
    have hall : [stampAt cs mono].length + e = s.events := by
      rw [List.length_singleton]
      omega
    refine ⟨_, ?_, _, (hevent.trans (plays_sleep rfl hspacing (by omega))).trans hfound, ?_, rfl⟩
    · omega
    · exact .between hbursts (by omega) hall rfl hspacing (by omega) (by omega) (by omega)
        (by omega) due heads told'

/-- The consumer waits for a burst and the producer runs: a burst begins, or all is over. -/
theorem Fair.burst (h : Fair s cs offset first horizon) (hfirst : first ≤ mono)
    (hbursts : k + r = s.bursts) (htime : mono + timeFor s r ≤ horizon) (told : Told s log₀ k log) :
    ∃ j ≤ r * (6 * s.events + 1) + 30, ∃ c ≤ 1, ComesToRest s (Rest s cs offset horizon log₀) j c
      (scene s cs mono {} none taken (awaiting (countOf s k) (.queued none)) (running (.burst r))
        [⟨mainThread, some signalled, none⟩] [producerThread] log) := by
  induction r generalizing k with
  | zero =>
      obtain rfl : k = s.bursts := hbursts
      have hall : (countOf s s.bursts).handled = s.events * s.bursts := Nat.mul_comm ..
      exact ⟨13, by omega, 0, by omega, _, plays_end hall, .ended ⟨told.batches, told.failure⟩, rfl⟩
  | succ r ih =>
      rcases Nat.eq_zero_or_pos s.events with hzero | hpos
      · -- no events, just the pause
        have hlast := h.le_last
        have hcode : s.code (.burst (r + 1)) = .sleep s.gap (.burst r) := by
          rw [Settings.code, hzero, Settings.nextEvent]
        rw [timeFor_succ] at htime
        rcases Nat.eq_zero_or_pos s.gap.totalNanos with hgap | hgap
        · obtain ⟨j, hj, c, hc, m', hplays, hrest⟩ := ih (k := k + 1) (by omega) (by omega)
            (told.skip hzero)
          refine ⟨j + 1, ?_, c, hc, m', (plays_no_sleep hcode hgap).trans ?_, hrest⟩
          · rw [hzero] at hj ⊢
            omega
          · rwa [countOf_skip hzero] at hplays
        · refine ⟨1, by omega, 1, by omega, _, plays_sleep hcode hgap (by omega), ?_, rfl⟩
          rw [← countOf_skip hzero]
          exact .idle (by omega) (.inl rfl) (by omega) (by omega) (told.skip hzero)
      · obtain ⟨e, he⟩ := Nat.exists_eq_add_one.mpr hpos
        obtain ⟨j, hj, hrest⟩ := h.burst_of_events he hfirst (by omega) htime told
        refine ⟨j, ?_, 1, by omega, hrest⟩
        rw [Nat.succ_mul]
        omega

/-! ### Ends of parks -/

section

variable {box : Inbox} {binding : Binding} {consumer producer : Thread Place} {place : Place}
  {start : Int} {deadline : Time} {count : Count} {timer : Timer} {p : Park} {u v limit : Int}
  {parked : List Parked}

theorem expire_producer {w : Option Int} (hparked : Both w (some u) parked) :
    (scene s cs mono box none binding consumer (sleeping place) parked [] log).expire u
      producerThread = scene s cs u box none binding consumer (running place)
        [⟨mainThread, some signalled, w⟩] [producerThread] log := by
  rcases hparked with rfl | rfl <;> rfl

theorem expire_consumer {w : Option Int} (hparked : Both (some v) w parked) :
    (scene s cs mono box none taken (gathering s start deadline count (.queued (some (timer, p))))
      producer parked [] log).expire v mainThread = scene s cs v box none taken
        (gathering s start deadline count (.woken false (some (timer, p)))) producer
        [⟨producerThread, none, w⟩] [mainThread] log := by
  rcases hparked with rfl | rfl <;> rfl

theorem firstExpiry_of_none (hparked : Both none (some u) parked) :
    firstExpiry parked = some (u, producerThread) := by
  rcases hparked with rfl | rfl <;> rfl

theorem firstExpiry_of_lt (hparked : Both (some v) (some u) parked) (hlt : v < u) :
    firstExpiry parked = some (v, mainThread) := by
  rcases hparked with rfl | rfl
  · exact if_pos (Int.le_of_lt hlt)
  · exact if_neg (Int.not_le.mpr hlt)

/-- A park that was cut has run out, and the consumer parks again. -/
theorem Steady.again (h : Steady s cs offset first horizon) (box : Inbox) (start : Int)
    (deadline : Time) (count : Count) (producer : Thread Place) (parked : List Parked)
    (log : List (Entry Event)) (due : Due s offset timer limit) (heads : Heads mono p limit u)
    (hlt : u < limit) (hfirst : first ≤ u) (hle : limit ≤ horizon) :
    ∃ p' v, Heads u p' limit v ∧ Plays s 3
      (scene s cs u box none taken
        (gathering s start deadline count (.woken false (some (timer, p)))) producer parked
        [mainThread] log)
      (scene s cs u box none taken (gathering s start deadline count (.queued (some (timer, p'))))
        producer (parked ++ [⟨mainThread, some signalled, some v⟩]) [] log) := by
  obtain ⟨p', v, hpass, heads'⟩ := h.park due hfirst hlt hle
  have hlast := h.le_last
  have hv := heads'.le
  have hagain : Plays s 1 (scene s cs u box none taken
    (gathering s start deadline count (.woken false (some (timer, p)))) producer parked
    [mainThread] log) _ := plays_again
  rw [heads.expired hlt] at hagain
  obtain rfl := heads'.eq
  exact ⟨p', _, heads', hagain.trans (plays_park hpass (by omega))⟩

/-- The consumer reads its clock at its deadline, and handles what is pending. -/
theorem Steady.batch (h : Steady s cs offset first horizon) (start : Int) (deadline : Time)
    (timer : Timer) (producer : Thread Place) (parked : List Parked)
    (hclock : timer.clock = s.clock) (hdeadline : timer.deadline.totalNanos = mono + offset)
    (hfirst : first ≤ mono) (hle : mono ≤ horizon) (hopen : box.shutdown = false)
    (hpending : box.pending.length = s'.events) (hpos : 0 < s'.events) (told : Told s' log₀ k log) :
    ∃ log', Told s' log₀ (k + 1) log' ∧ Plays s 10
      (scene s cs mono box (some mainThread) taken
        (gathering s start deadline (countOf s' k) (.reading timer)) producer parked [mainThread]
        log)
      (scene s cs mono {} none taken (awaiting (countOf s' (k + 1)) (.queued none)) producer
        (parked ++ [⟨mainThread, some signalled, none⟩]) [] log') := by
  obtain ⟨now, hpass⟩ := h.late hclock hdeadline hfirst hle
  obtain ⟨e, hbatch⟩ := plays_batch (s := s) start deadline (countOf s' k) producer parked log hopen
    hpass
  rw [hpending, countOf_batch hpos] at hbatch
  have told' : Told s' log₀ k (⟨mono, some mainThread, .spanEnded e⟩ ::
      ⟨mono, some mainThread, .record (.timedOut timer.deadline now)⟩ :: log) :=
    ⟨told.batches, told.failure⟩
  exact ⟨_, told'.batch hpending hpos, hbatch⟩

/-- The last park has run out, and the consumer handles the burst. -/
theorem Steady.handle (h : Steady s cs offset first horizon) (start : Int) (deadline : Time)
    (p : Park) (producer : Thread Place) (parked : List Parked) (due : Due s offset timer limit)
    (hfirst : first ≤ limit) (hle : limit ≤ horizon) (hopen : box.shutdown = false)
    (hpending : box.pending.length = s'.events) (hpos : 0 < s'.events) (told : Told s' log₀ k log) :
    ∃ log', Told s' log₀ (k + 1) log' ∧ Plays s 11
      (scene s cs limit box none taken
        (gathering s start deadline (countOf s' k) (.woken false (some (timer, p)))) producer parked
        [mainThread] log)
      (scene s cs limit {} none taken (awaiting (countOf s' (k + 1)) (.queued none)) producer
        (parked ++ [⟨mainThread, some signalled, none⟩]) [] log') := by
  obtain ⟨log', told', hbatch⟩ := h.batch start deadline (timer.expired p) producer parked due.clock
    due.deadline hfirst hle hopen hpending hpos told
  exact ⟨log', told', plays_again.trans hbatch⟩

end

end TimedCondvar.Demo
