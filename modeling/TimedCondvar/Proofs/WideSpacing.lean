import TimedCondvar.Proofs.BurstRuns

/-!
Events that come further apart than the delay. The consumer handles each of them before the next one
comes: at once if there is no delay, and otherwise when its wait for another event is over. So every
event is a burst of its own to the consumer. What holds whenever both threads are parked is listed
in `Lull`.
-/

namespace TimedCondvar.Demo

open Machine

variable {s s' : Settings} {cs : Clocks} {offset first horizon mono : Int}
  {k n r e time left : Nat} {log₀ log : List (Entry Event)} {m m' : ProgramMachine} {place : Place}

/-! ### Without a delay -/

theorem gap_eq_zero (hzero : s.delay.totalNanos = 0) : s.gap.totalNanos = 0 := by
  have hdelay : s.delay = .zero := Duration.totalNanos_injective hzero
  rw [Settings.gap, hdelay]
  rfl

/-- If there is no delay then the deadline of the consumer has passed as soon as it is fixed. -/
theorem Steady.handle_at_once (h : Steady s cs offset first horizon)
    (hzero : s.delay.totalNanos = 0) (box : Inbox) (producer : Thread Place) (parked : List Parked)
    (hfirst : first ≤ mono) (hle : mono ≤ horizon) (hopen : box.shutdown = false)
    (hpending : box.pending.length = s'.events) (hpos : 0 < s'.events) (told : Told s' log₀ k log) :
    ∃ log', Told s' log₀ (k + 1) log' ∧ Plays s 20
      (scene s cs mono box none taken (awaiting (countOf s' k) (.woken true none)) producer parked
        [mainThread] log)
      (scene s cs mono {} none taken (awaiting (countOf s' (k + 1)) (.queued none)) producer
        (parked ++ [⟨mainThread, some signalled, none⟩]) [] log') := by
  have hgap := gap_eq_zero hzero
  obtain ⟨now, hnow, htotal⟩ := h.inStep mono hfirst hle
  have hdeadline := h.deadline hfirst htotal (by omega)
  rw [hzero, Int.natCast_zero, Int.add_zero] at hdeadline
  have hsome : box.pending ≠ [] := by
    apply List.ne_nil_of_length_pos
    omega
  obtain ⟨log', told', hbatch⟩ := h.batch mono (now.saturatingAdd s.delay)
    { clock := s.clock, deadline := now.saturatingAdd s.delay } producer parked rfl hdeadline hfirst
    hle hopen hpending hpos (told.spanOpened mono s.span)
  exact ⟨log', told', ((plays_found hsome).trans (plays_arm hopen hnow)).trans hbatch⟩

/-! ### At rest -/

/-- The settings as they come to a consumer that handles every event by itself. -/
def Settings.singly (s : Settings) : Settings :=
  { s with events := 1, bursts := s.events * s.bursts }

/-- The events of a burst come further apart than the delay. -/
structure Wide (s : Settings) (cs : Clocks) (offset first horizon : Int) : Prop extends
    Steady s cs offset first horizon where
  wide : s.delay.totalNanos < s.spacing.totalNanos

/-- At this place the producer has `left` events to come, and to sleep for `time` in all. -/
inductive Ahead (s : Settings) : Place → Nat → Nat → Prop
  | burst {r : Nat} (hr : r ≤ s.bursts) : Ahead s (.burst r) (timeFor s r) (r * s.events)
  | event {r e : Nat} (hr : r ≤ s.bursts) : Ahead s (.event r e)
      (e * s.spacing.totalNanos + s.gap.totalNanos + timeFor s r) (r * s.events + e)

/-- The machine with no thread left to run, and how many parks can be due at once, after `n`
events. -/
inductive Lull (s : Settings) (cs : Clocks) (offset horizon : Int) (log₀ : List (Entry Event)) :
    Nat → ProgramMachine → Prop
  /-- The consumer waits for the next event. -/
  | waiting {mono u : Int} {n time left : Nat} {place : Place} {parked : List Parked}
      {log : List (Entry Event)} (ahead : Ahead s place time left)
      (hleft : n + left = s.singly.bursts) (hparked : Both none (some u) parked) (hu : mono < u)
      (htime : u + time ≤ horizon) (told : Told s.singly log₀ n log) :
      Lull s cs offset horizon log₀ 1 (scene s cs mono {} none taken
        (awaiting (countOf s.singly n) (.queued none)) (sleeping place) parked [] log)
  /-- The consumer waits for the end of the delay, which comes before the next event. -/
  | closing {mono u v limit start : Int} {n time left : Nat} {place : Place} {box : Inbox}
      {deadline : Time} {timer : Timer} {p : Park} {parked : List Parked} {log : List (Entry Event)}
      (ahead : Ahead s place time left) (hleft : n + 1 + left = s.singly.bursts)
      (hpending : box.pending.length = 1) (hopen : box.shutdown = false)
      (hparked : Both (some v) (some u) parked) (hlimit : limit < u) (htime : u + time ≤ horizon)
      (due : Due s offset timer limit) (heads : Heads mono p limit v)
      (told : Told s.singly log₀ n log) :
      Lull s cs offset horizon log₀ 1 (scene s cs mono box none taken
        (gathering s start deadline (countOf s.singly n) (.queued (some (timer, p))))
        (sleeping place) parked [] log)
  | ended {mono : Int} {log : List (Entry Event)} (told : Told s.singly log₀ s.singly.bursts log) :
      Lull s cs offset horizon log₀ 0 (scene s cs mono { shutdown := true } none {} ⟨.ended, none⟩
        ⟨.ended, none⟩ [] [] (⟨mono, some mainThread, .event (.finished
          (countOf s.singly s.singly.bursts).batches (countOf s.singly s.singly.bursts).handled)⟩ ::
            log))

theorem Lull.turn_eq_none {c : Nat} (h : Lull s cs offset horizon log₀ c m) :
    m.turn s.code = none := by
  cases h <;> rfl

/-! ### The producer runs -/

/-- The producer is awake at this place while the consumer waits. -/
def awake (s : Settings) (cs : Clocks) (mono : Int) (n : Nat) (place : Place)
    (log : List (Entry Event)) : ProgramMachine :=
  scene s cs mono {} none taken (awaiting (countOf s.singly n) (.queued none)) (running place)
    [⟨mainThread, some signalled, none⟩] [producerThread] log

/-- An event comes, and the next one later than the delay. -/
theorem Wide.event (h : Wide s cs offset first horizon)
    (hcode : s.code place = .lock inbox (.stamping r e)) (hfirst : first ≤ mono)
    (hr : r ≤ s.bursts) (hleft : n + 1 + (r * s.events + e) = s.singly.bursts)
    (htime : mono + ((e + 1) * s.spacing.totalNanos + s.gap.totalNanos + timeFor s r : Nat) ≤
      horizon) (told : Told s.singly log₀ n log) :
    ∃ j ≤ 26, ComesToRest s (Lull s cs offset horizon log₀) j 1 (awake s cs mono n place log) := by
  have hlast := h.le_last
  have hwide := h.wide
  rw [Nat.succ_mul] at htime
  have hevent : Plays s 5 (awake s cs mono n place log) _ := plays_event hcode
  have hsleeps := hevent.trans (plays_sleep rfl (Nat.zero_lt_of_lt hwide) (by omega))
  have ahead : Ahead s (.event r e) _ _ := .event hr
  have told' := told.record mono producerThread (.signaled true)
  let parked : List Parked := [⟨producerThread, none, some (mono + s.spacing.totalNanos)⟩]
  -- the producer sleeps by now, and its park is longer than the delay
  rcases Nat.eq_zero_or_pos s.delay.totalNanos with hzero | hdelay
  · obtain ⟨log', told', hhandle⟩ := h.handle_at_once hzero { pending := [stampAt cs mono] }
      (sleeping (.event r e)) parked hfirst (by omega) rfl rfl Nat.one_pos told'
    exact ⟨26, Nat.le_refl _, _, hsleeps.trans hhandle,
      .waiting ahead (by omega) (.inr rfl) (by omega) (by omega) told', rfl⟩
  · obtain ⟨timer, deadline, p, v, log', due, heads, told', hfound⟩ := h.found
      { pending := [stampAt cs mono] } (countOf s.singly n) (sleeping (.event r e)) parked
      (List.cons_ne_nil _ _) rfl hfirst hdelay (by omega) told'
    exact ⟨18, by omega, _, hsleeps.trans hfound,
      .closing ahead hleft rfl rfl (.inr rfl) (by omega) (by omega) due heads told', rfl⟩

/-- No event is left of a burst. Without a delay there is no pause, and the next burst begins. -/
theorem Wide.pause (h : Wide s cs offset first horizon) (bound : Nat)
    (hcode : s.code place = .sleep s.gap (.burst r)) (hr : r ≤ s.bursts)
    (hleft : n + r * s.events = s.singly.bursts)
    (htime : mono + (s.gap.totalNanos + timeFor s r : Nat) ≤ horizon)
    (told : Told s.singly log₀ n log) (hburst : mono + timeFor s r ≤ horizon →
      ∃ j ≤ bound, ∃ c ≤ 1, ComesToRest s (Lull s cs offset horizon log₀) j c
        (awake s cs mono n (.burst r) log)) :
    ∃ j ≤ bound + 1, ∃ c ≤ 1, ComesToRest s (Lull s cs offset horizon log₀) j c
      (awake s cs mono n place log) := by
  have hlast := h.le_last
  rcases Nat.eq_zero_or_pos s.gap.totalNanos with hgap | hgap
  · obtain ⟨j, hj, c, hc, m', hplays, hrest⟩ := hburst (by omega)
    exact ⟨j + 1, by omega, c, hc, m', (plays_no_sleep hcode hgap).trans hplays, hrest⟩
  · exact ⟨1, by omega, 1, Nat.le_refl 1, _, plays_sleep hcode hgap (by omega),
      .waiting (.burst hr) hleft (.inl rfl) (by omega) (by omega) told, rfl⟩

theorem Wide.burst (h : Wide s cs offset first horizon) (hfirst : first ≤ mono) (hr : r ≤ s.bursts)
    (hleft : n + r * s.events = s.singly.bursts) (htime : mono + timeFor s r ≤ horizon)
    (told : Told s.singly log₀ n log) :
    ∃ j ≤ r + 26, ∃ c ≤ 1, ComesToRest s (Lull s cs offset horizon log₀) j c
      (awake s cs mono n (.burst r) log) := by
  induction r with
  | zero =>
      obtain rfl : n = s.singly.bursts := by omega
      have hall : (countOf s.singly s.singly.bursts).handled = s.events * s.bursts := Nat.mul_one _
      exact ⟨13, by omega, 0, by omega, _, plays_end hall, .ended (told.record _ _ _), rfl⟩
  | succ r ih =>
      rw [timeFor_succ] at htime
      rw [Nat.succ_mul] at hleft
      cases he : s.events with
      | zero =>
          have hcode : s.code (.burst (r + 1)) = .sleep s.gap (.burst r) := by
            rw [Settings.code, he, Settings.nextEvent]
          have hleft : n + r * s.events = s.singly.bursts := by omega
          obtain ⟨j, hj, hrest⟩ := h.pause (r + 26) hcode (by omega) hleft (by omega) told
            (ih (by omega) hleft)
          exact ⟨j, by omega, hrest⟩
      | succ e =>
          have hcode : s.code (.burst (r + 1)) = .lock inbox (.stamping r e) := by
            rw [Settings.code, he, Settings.nextEvent]
          obtain ⟨j, hj, hrest⟩ := h.event hcode hfirst (by omega) (by omega) (by rw [← he]; omega)
            told
          exact ⟨j, by omega, 1, Nat.le_refl 1, hrest⟩

/-- The producer wakes up, wherever it slept. -/
theorem Wide.wakes (h : Wide s cs offset first horizon) (ahead : Ahead s place time left)
    (hfirst : first ≤ mono) (hleft : n + left = s.singly.bursts) (htime : mono + time ≤ horizon)
    (told : Told s.singly log₀ n log) :
    ∃ j ≤ legWork s, ∃ c ≤ 1, ComesToRest s (Lull s cs offset horizon log₀) j c
      (awake s cs mono n place log) := by
  have hwork : s.bursts + 30 ≤ legWork s :=
    Nat.add_le_add_right (Nat.le_mul_of_pos_right _ (Nat.succ_pos _)) 30
  cases ahead with
  | burst hr =>
      obtain ⟨j, hj, hrest⟩ := h.burst hfirst hr hleft htime told
      exact ⟨j, by omega, hrest⟩
  | @event r e hr =>
      have hcode : s.code (.event r e) = s.nextEvent r e := rfl
      cases e with
      | zero =>
          obtain ⟨j, hj, hrest⟩ := h.pause (r + 26) hcode hr hleft (by omega) told
            fun htime => h.burst hfirst hr hleft htime told
          exact ⟨j, by omega, hrest⟩
      | succ e =>
          obtain ⟨j, hj, hrest⟩ := h.event hcode hfirst hr (by omega) htime told
          exact ⟨j, by omega, 1, Nat.le_refl 1, hrest⟩

/-! ### From one end of a park to the next -/

/-- The park of the consumer is over first. It was cut, and another follows, or the event is
handled. -/
theorem Wide.next_closing (h : Wide s cs offset first horizon) {u v limit start : Int} {box : Inbox}
    {deadline : Time} {timer : Timer} {p : Park} {parked : List Parked} (hfirst : first ≤ mono)
    (ahead : Ahead s place time left) (hleft : n + 1 + left = s.singly.bursts)
    (hpending : box.pending.length = 1) (hopen : box.shutdown = false)
    (hparked : Both (some v) (some u) parked) (hlimit : limit < u) (htime : u + time ≤ horizon)
    (due : Due s offset timer limit) (heads : Heads mono p limit v)
    (told : Told s.singly log₀ n log) :
    ∃ u' t j c, NextRest s (Lull s cs offset horizon log₀) horizon 1 (scene s cs mono box none taken
      (gathering s start deadline (countOf s.singly n) (.queued (some (timer, p))))
      (sleeping place) parked [] log) u' t j c := by
  have hlt := heads.lt
  have hle := heads.le
  refine h.next_consumer hfirst hparked (by omega) (by omega) (.inl ⟨hlt, rfl⟩) due heads ?_ ?_
  · exact fun p' v' heads' =>
      .closing ahead hleft hpending hopen (.inr rfl) hlimit htime due heads' told
  · rintro rfl
    obtain ⟨log', told', hhandle⟩ := h.handle start deadline p (sleeping place)
      [⟨producerThread, none, some u⟩] due (by omega) (by omega) hopen hpending Nat.one_pos told
    exact ⟨_, hhandle, .waiting ahead hleft (.inr rfl) hlimit htime told', rfl⟩

/-- From rest to rest, unless all is over. -/
theorem Wide.next (h : Wide s cs offset first horizon) {c : Nat} (hfirst : first ≤ m.mono)
    (lull : Lull s cs offset horizon log₀ c m) :
    firstExpiry m.parked = none ∧ c = 0 ∨
      ∃ u t j c', NextRest s (Lull s cs offset horizon log₀) horizon c m u t j c' := by
  cases lull with
  | @waiting mono u n time left place parked log ahead hleft hparked hu htime told =>
      have hfirst : first ≤ mono := hfirst
      obtain ⟨j, hj, c, hc, hrest⟩ := h.wakes ahead (show first ≤ u by omega) hleft htime told
      have hexpiry := firstExpiry_of_none hparked
      refine .inr ⟨u, producerThread, j, c, .later hu (by omega) (by omega) hj hexpiry ?_⟩
      rwa [expire_producer hparked]
  | closing ahead hleft hpending hopen hparked hlimit htime due heads told =>
      exact .inr (h.next_closing hfirst ahead hleft hpending hopen hparked hlimit htime due heads
        told)
  | ended told => exact .inl ⟨rfl, rfl⟩

/-- In the end every event has been handled by itself. -/
theorem Fits.ended_of_lt (h : Fits s offset m)
    (hwide : s.delay.totalNanos < s.spacing.totalNanos) :
    ∃ last, start s m = ⟨last.log.reverse, failureOf last.log⟩ ∧
      Lull s m.clocks offset (m.mono + timeFor s s.bursts) m.log 0 last := by
  obtain ⟨now, last, hlast, hstart⟩ := h.start_eq
  have wide : Wide s m.clocks offset m.mono (m.mono + timeFor s s.bursts) := ⟨h.steady, hwide⟩
  have hleft : 0 + s.bursts * s.events = s.singly.bursts := by
    rw [Nat.zero_add, Nat.mul_comm]
    rfl
  obtain ⟨j, hj, c, hc, hrest⟩ := wide.wakes (.burst (Nat.le_refl s.bursts)) (Int.le_refl m.mono)
    hleft (Int.le_refl _) (told_opening s s.singly m.mono now m.log)
  rw [awake, countOf_zero] at hrest
  have hended := runThreads_of_next rfl Lull.turn_eq_none wide.next hj hc hrest
  rw [← hlast] at hended
  exact ⟨last, hstart, hended⟩

end TimedCondvar.Demo
