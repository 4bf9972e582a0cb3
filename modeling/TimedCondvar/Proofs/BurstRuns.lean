import TimedCondvar.Proofs.Bursts
import TimedCondvar.Proofs.Records

/-!
One batch for each burst. Whenever both threads are parked one of the parks ends first, and the
machine comes to rest again. Between two ends of parks time passes or fewer parks are due, so all is
over in the end, and by then every burst has been handled as one batch.
-/

namespace TimedCondvar.Demo

open Machine

variable {s : Settings} {cs : Clocks} {offset first horizon mono : Int} {k r : Nat}
  {log₀ log : List (Entry Event)} {m m' : ProgramMachine} {R : Nat → ProgramMachine → Prop}

/-! ### From one end of a park to the next -/

/-- The turns it takes at most from an end of a park until all threads are parked again. -/
def legWork (s : Settings) : Nat := s.bursts * (6 * s.events + 1) + 30

theorem le_legWork {j : Nat} (h : j ≤ 30) : j ≤ legWork s := Nat.le_add_left_of_le h

/-- The park that is over next, that of `t`, ends at `u`, and the machine comes to rest again. Time
has passed, or fewer parks are due. -/
structure NextRest (s : Settings) (R : Nat → ProgramMachine → Prop) (horizon : Int) (c : Nat)
    (m : ProgramMachine) (u : Int) (t : ThreadId) (j c' : Nat) : Prop where
  expiry : firstExpiry m.parked = some (u, t)
  rest : ComesToRest s R j c' (m.expire u t)
  work : j ≤ legWork s
  le : m.mono ≤ u
  le_horizon : u ≤ horizon
  less : 2 * (horizon - u) + c' < 2 * (horizon - m.mono) + c

section

variable {box : Inbox} {start : Int} {deadline : Time} {timer : Timer} {p : Park} {e c j c' : Nat}
  {u v limit : Int} {parked : List Parked} {t : ThreadId}

theorem NextRest.later (hlt : m.mono < u) (hle : u ≤ horizon) (hc : c' ≤ 2) (hj : j ≤ legWork s)
    (hexpiry : firstExpiry m.parked = some (u, t))
    (hrest : ComesToRest s R j c' (m.expire u t)) : NextRest s R horizon 1 m u t j c' :=
  ⟨hexpiry, hrest, hj, Int.le_of_lt hlt, hle, by omega⟩

theorem Fair.next_idle (h : Fair s cs offset first horizon) (hfirst : first ≤ mono)
    (hbursts : k + r = s.bursts) (hparked : Both none (some u) parked) (hu : mono < u)
    (htime : u + timeFor s r ≤ horizon) (told : Told s log₀ k log) :
    ∃ u t j c, NextRest s (Rest s cs offset horizon log₀) horizon 1 (scene s cs mono {} none taken
      (awaiting (countOf s k) (.queued none)) (sleeping (.burst r)) parked [] log) u t j c := by
  obtain ⟨j, hj, c, hc, hrest⟩ := h.burst (show first ≤ u by omega) hbursts htime told
  have hwork : r * (6 * s.events + 1) ≤ s.bursts * (6 * s.events + 1) :=
    Nat.mul_le_mul_right _ (by omega)
  have hexpiry := firstExpiry_of_none hparked
  refine ⟨u, producerThread, j, c, .later hu (by omega) (by omega) ?_ hexpiry ?_⟩
  · rw [legWork]
    omega
  · rwa [expire_producer hparked]

/-- The producer comes first: another event, or the pause behind the last of them. -/
theorem Fair.next_between (h : Fair s cs offset first horizon) (hfirst : first ≤ mono)
    (hbursts : k + 1 + r = s.bursts) (hpos : 0 < s.events)
    (hpending : box.pending.length + e = s.events) (hopen : box.shutdown = false)
    (hspacing : 0 < s.spacing.totalNanos) (hu : mono < u) (hle : limit ≤ u + s.delay.totalNanos)
    (htime : u + (e * s.spacing.totalNanos + s.gap.totalNanos + timeFor s r : Nat) ≤ horizon)
    (due : Due s offset timer limit) (heads : Heads mono p limit v) (huv : u ≤ v)
    (told : Told s log₀ k log) :
    ∃ u' t j c, NextRest s (Rest s cs offset horizon log₀) horizon 1 (scene s cs mono box none taken
      (gathering s start deadline (countOf s k) (.queued (some (timer, p))))
      (sleeping (.event r e))
      [⟨producerThread, none, some u⟩, ⟨mainThread, some signalled, some v⟩] [] log) u' t j c := by
  have hlast := h.le_last
  obtain ⟨hdelay, hclose⟩ := h.close hpos
  have hgap := h.gap (show first ≤ u by omega) (by omega)
  -- `if_pos huv`: of two parks that end together the one that stands first in the list is over first
  cases e with
  | zero =>
      have hsleep : Plays s 1 (scene s cs u box none taken
        (gathering s start deadline (countOf s k) (.queued (some (timer, p))))
        (running (.event r 0)) [⟨mainThread, some signalled, some v⟩] [producerThread] log) _ :=
        plays_sleep rfl (by omega) (by omega)
      obtain ⟨c, hc, hdue⟩ : ∃ c ≤ 2, u < v ∧ c = 1 ∨ u = v ∧ c = 2 := by
        rcases Int.lt_or_eq_of_le huv with hlater | hnow
        · exact ⟨1, by omega, .inl ⟨hlater, rfl⟩⟩
        · exact ⟨2, by omega, .inr ⟨hnow, rfl⟩⟩
      exact ⟨u, producerThread, 1, c, .later hu (by omega) hc (le_legWork (by omega)) (if_pos huv)
        ⟨_, hsleep, .behind hbursts hpos hpending hopen (.inl rfl) (by omega) (by omega) hdue due
          heads told, rfl⟩⟩
  | succ e =>
      rw [Nat.succ_mul] at htime
      have hevent : Plays s 5 (scene s cs u box none taken
        (gathering s start deadline (countOf s k) (.queued (some (timer, p))))
        (running (.event r (e + 1))) [⟨mainThread, some signalled, some v⟩] [producerThread] log)
        _ := plays_event rfl
      obtain ⟨timer', deadline', p', v', due', heads', hheard⟩ := h.heard
        { box with pending := box.pending ++ [stampAt cs u] } start deadline (timer, p)
        (countOf s k) (sleeping (.event r e))
        [⟨producerThread, none, some (u + s.spacing.totalNanos)⟩]
        (⟨u, some producerThread, .record (.signaled true)⟩ :: log) hopen
        (show first ≤ u by omega) (by omega) (by omega)
      have hall : (box.pending ++ [stampAt cs u]).length + e = s.events := by
        rw [List.length_append, List.length_singleton]
        omega
      refine ⟨u, producerThread, 14, 1, .later hu (by omega) (by omega) (le_legWork (by omega))
        (if_pos huv)
        ⟨_, (hevent.trans (plays_sleep rfl hspacing (by omega))).trans hheard, ?_, rfl⟩⟩
      exact .between hbursts hpos hall hopen hspacing (by omega) (by omega) (by omega) (by omega)
        due' heads' (told.record u producerThread (.signaled true))

/-- The consumer comes first. If its park was cut then another follows, and otherwise its wait is
over. -/
theorem Steady.next_consumer (h : Steady s cs offset first horizon) {from_ : Int} {count : Count}
    {place : Place} (hfirst : first ≤ mono) (hparked : Both (some v) (some u) parked) (hvu : v < u)
    (hlimit : limit ≤ horizon) (hdue : mono < v ∧ c = 1 ∨ mono = v ∧ c = 2)
    (due : Due s offset timer limit) (heads : Heads from_ p limit v)
    (hagain : ∀ p' v', Heads v p' limit v' → R 1 (scene s cs v box none taken
      (gathering s start deadline count (.queued (some (timer, p')))) (sleeping place)
      [⟨producerThread, none, some u⟩, ⟨mainThread, some signalled, some v'⟩] [] log))
    (hover : v = limit → ComesToRest s R 11 1 (scene s cs v box none taken
      (gathering s start deadline count (.woken false (some (timer, p)))) (sleeping place)
      [⟨producerThread, none, some u⟩] [mainThread] log)) :
    ∃ u' t j c', NextRest s R horizon c (scene s cs mono box none taken
      (gathering s start deadline count (.queued (some (timer, p)))) (sleeping place) parked []
      log) u' t j c' := by
  have hv := heads.le
  obtain ⟨j, hj, hrest⟩ : ∃ j ≤ 11, ComesToRest s R j 1 (scene s cs v box none taken
      (gathering s start deadline count (.woken false (some (timer, p)))) (sleeping place)
      [⟨producerThread, none, some u⟩] [mainThread] log) := by
    rcases Int.lt_or_eq_of_le hv with hcut | hlast
    · obtain ⟨p', v', heads', hplays⟩ := h.again box start deadline count (sleeping place)
        [⟨producerThread, none, some u⟩] log due heads hcut (by omega) hlimit
      exact ⟨3, by omega, _, hplays, hagain p' v' heads', rfl⟩
    · exact ⟨11, Nat.le_refl _, hover hlast⟩
  rw [← expire_consumer hparked] at hrest
  have hmono : mono ≤ v := by omega
  have hless : 2 * (horizon - v) + (1 : Nat) < 2 * (horizon - mono) + c := by omega
  exact ⟨v, mainThread, j, 1, firstExpiry_of_lt hparked hvu, hrest, le_legWork (by omega), hmono,
    by omega, hless⟩

/-- The park of the consumer is over before the next event. It was cut, and another follows. -/
theorem Fair.next_between_cut (h : Fair s cs offset first horizon) (hfirst : first ≤ mono)
    (hbursts : k + 1 + r = s.bursts) (hpos : 0 < s.events)
    (hpending : box.pending.length + e = s.events) (hopen : box.shutdown = false)
    (hspacing : 0 < s.spacing.totalNanos) (hlimit : u ≤ limit)
    (hle : limit ≤ u + s.delay.totalNanos)
    (htime : u + (e * s.spacing.totalNanos + s.gap.totalNanos + timeFor s r : Nat) ≤ horizon)
    (due : Due s offset timer limit) (heads : Heads mono p limit v) (hvu : v < u)
    (told : Told s log₀ k log) :
    ∃ u' t j c, NextRest s (Rest s cs offset horizon log₀) horizon 1 (scene s cs mono box none taken
      (gathering s start deadline (countOf s k) (.queued (some (timer, p))))
      (sleeping (.event r e))
      [⟨producerThread, none, some u⟩, ⟨mainThread, some signalled, some v⟩] [] log) u' t j c := by
  have hv := heads.lt
  have hgap := h.gap (show first ≤ u by omega) (by omega)
  refine h.next_consumer hfirst (.inr rfl) hvu (by omega) (.inl ⟨hv, rfl⟩) due heads ?_ ?_
  · exact fun p' v' heads' =>
      .between hbursts hpos hpending hopen hspacing hvu hlimit hle htime due heads' told
  · rintro rfl
    omega

/-- Behind a burst the consumer comes first. -/
theorem Fair.next_behind (h : Fair s cs offset first horizon) (hfirst : first ≤ mono) {from_ : Int}
    (hbursts : k + 1 + r = s.bursts) (hpos : 0 < s.events)
    (hpending : box.pending.length = s.events) (hopen : box.shutdown = false)
    (hparked : Both (some v) (some u) parked) (hlt : limit < u)
    (htime : u + timeFor s r ≤ horizon) (hdue : mono < v ∧ c = 1 ∨ mono = v ∧ c = 2)
    (due : Due s offset timer limit) (heads : Heads from_ p limit v) (told : Told s log₀ k log) :
    ∃ u' t j c', NextRest s (Rest s cs offset horizon log₀) horizon c (scene s cs mono box none
      taken (gathering s start deadline (countOf s k) (.queued (some (timer, p))))
      (sleeping (.burst r)) parked [] log) u' t j c' := by
  have hv := heads.le
  refine h.next_consumer hfirst hparked (by omega) (by omega) hdue due heads ?_ ?_
  · exact fun p' v' heads' => .behind hbursts hpos hpending hopen (.inr rfl) hlt htime
      (.inl ⟨heads'.lt, rfl⟩) due heads' told
  · rintro rfl
    obtain ⟨log', told', hhandle⟩ := h.handle start deadline p (sleeping (.burst r))
      [⟨producerThread, none, some u⟩] due (by omega) (by omega) hopen hpending hpos told
    exact ⟨_, hhandle, .idle hbursts (.inr rfl) hlt htime told', rfl⟩

/-- From rest to rest, unless all is over. -/
theorem Fair.next (h : Fair s cs offset first horizon) (hfirst : first ≤ m.mono)
    (rest : Rest s cs offset horizon log₀ c m) :
    firstExpiry m.parked = none ∧ c = 0 ∨
      ∃ u t j c', NextRest s (Rest s cs offset horizon log₀) horizon c m u t j c' := by
  cases rest with
  | idle hbursts hparked hu htime told =>
      exact .inr (h.next_idle hfirst hbursts hparked hu htime told)
  | @between _ u v _ _ _ _ _ _ _ _ _ _ hbursts hpos hpending hopen hspacing hu hlimit hle htime
      due heads told =>
      by_cases huv : u ≤ v
      · exact .inr (h.next_between hfirst hbursts hpos hpending hopen hspacing hu hle htime due
          heads huv told)
      · exact .inr (h.next_between_cut hfirst hbursts hpos hpending hopen hspacing hlimit hle htime
          due heads (Int.not_le.mp huv) told)
  | behind hbursts hpos hpending hopen hparked hlt htime hdue due heads told =>
      exact .inr (h.next_behind hfirst hbursts hpos hpending hopen hparked hlt htime hdue due heads
        told)
  | ended told => exact .inl ⟨rfl, rfl⟩

end

/-! ### The whole run -/

theorem Rest.turn_eq_none {c : Nat} (h : Rest s cs offset horizon log₀ c m) :
    m.turn s.code = none := by
  cases h <;> rfl

theorem elapse_succ {work n : Nat} {u : Int} {t : ThreadId}
    (h : firstExpiry m.parked = some (u, t)) : m.elapse s.code work none (n + 1) =
      ((m.expire u t).settle s.code work).elapse s.code work none n := by
  rw [Machine.elapse, h]
  rfl

/-- As long as parks end there is less and less to come, and so all is over in the end. -/
theorem elapse_of_next {work : Nat} (hwork : legWork s ≤ work)
    (hturn : ∀ {c : Nat} {m : ProgramMachine}, R c m → m.turn s.code = none)
    (hnext : ∀ {c : Nat} {m : ProgramMachine}, first ≤ m.mono → R c m →
      firstExpiry m.parked = none ∧ c = 0 ∨ ∃ u t j c', NextRest s R horizon c m u t j c')
    (n : Nat) {c : Nat} (hfirst : first ≤ m.mono) (rest : R c m)
    (hn : 2 * (horizon - m.mono) + c ≤ n) : R 0 (m.elapse s.code work none n) := by
  induction n generalizing m c with
  | zero =>
      rcases hnext hfirst rest with ⟨-, rfl⟩ | ⟨u, t, j, c', next⟩
      · exact rest
      · have hless := next.less
        have hle := next.le_horizon
        omega
  | succ n ih =>
      rcases hnext hfirst rest with ⟨hnone, rfl⟩ | ⟨u, t, j, c', next⟩
      · rwa [Machine.elapse, hnone]
      · obtain ⟨m', hplays, rest', hmono⟩ := next.rest
        have hmono : m'.mono = u := hmono
        have hle := next.le
        have hless := next.less
        rw [elapse_succ next.expiry, hplays.settle_eq (hturn rest') (Nat.le_trans next.work hwork)]
        exact ih (by omega) rest' (by omega)

theorem legWork_lt_work (s : Settings) : legWork s + 5 ≤ work s := by
  have hmul : s.bursts * (6 * s.events + 1) ≤ s.bursts * (64 * (s.events + 2)) :=
    Nat.mul_le_mul_left _ (by omega)
  rw [Nat.mul_left_comm] at hmul
  rw [legWork, work]
  omega

/-- The whole run, if it comes to rest once both threads have begun. -/
theorem runThreads_of_next {j c : Nat} (hhorizon : horizon = mono + timeFor s s.bursts)
    (hturn : ∀ {c : Nat} {m : ProgramMachine}, R c m → m.turn s.code = none)
    (hnext : ∀ {c : Nat} {m : ProgramMachine}, mono ≤ m.mono → R c m →
      firstExpiry m.parked = none ∧ c = 0 ∨ ∃ u t j c', NextRest s R horizon c m u t j c')
    (hj : j ≤ legWork s) (hc : c ≤ 1)
    (hrest : ComesToRest s R j c (scene s cs mono {} none taken (awaiting {} (.queued none))
      (running (.burst s.bursts)) [⟨mainThread, some signalled, none⟩] [producerThread] log)) :
    R 0 (runThreads s (scene s cs mono {} none {} (running .entering) (running (.burst s.bursts))
      [] [mainThread, producerThread] log)) := by
  obtain ⟨m', hplays, rest, hmono⟩ := hrest
  have hmono : m'.mono = mono := hmono
  have hwork := legWork_lt_work s
  have hlifetime : lifetime s = timeFor s s.bursts + s.delay.totalNanos := rfl
  rw [Demo.runThreads, (plays_start.trans hplays).settle_eq (hturn rest) (by omega)]
  exact elapse_of_next (by omega) hturn hnext _ (by omega) rest (by omega)

theorem Fair.runThreads (h : Fair s cs offset mono horizon)
    (hhorizon : horizon = mono + timeFor s s.bursts) (told : Told s log₀ 0 log) :
    Rest s cs offset horizon log₀ 0 (runThreads s (scene s cs mono {} none {} (running .entering)
      (running (.burst s.bursts)) [] [mainThread, producerThread] log)) := by
  obtain ⟨j, hj, c, hc, hrest⟩ := h.burst (r := s.bursts) (Int.le_refl mono) (Nat.zero_add _)
    (Int.le_of_eq hhorizon.symm) told
  rw [countOf_zero] at hrest
  exact runThreads_of_next hhorizon Rest.turn_eq_none h.next hj hc hrest

/-- The log of a run goes on from what was told before. -/
theorem mem_log_runThreads {entry : Entry Event} (h : entry ∈ m.log) :
    entry ∈ (runThreads s m).log := by
  have hstep {m m' : ProgramMachine} {t : ThreadId} (hs : m.step s.code t = some m')
      (h : entry ∈ m.log) : entry ∈ m'.log := by
    rw [log_of_step hs]
    exact List.mem_append_right _ h
  exact elapse_keeps (P := fun m => entry ∈ m.log) hstep (fun _ _ h => h) _ _ _
    (settle_keeps (P := fun m => entry ∈ m.log) hstep _ h)

/-- A machine on which the program can run: there are no threads on it yet, its one mutex is free
and its inbox is empty. Until the last sleep of the producer ends the clock that the program is set
to goes along with the park clock, and that instant is in range. -/
structure Fits (s : Settings) (offset : Int) (m : ProgramMachine) : Prop where
  mutexes : m.mutexes = [{ state := {} }]
  condvars : m.condvars = []
  threads : m.threads = []
  parked : m.parked = []
  line : m.line = []
  nonneg : 0 ≤ m.mono
  inStep : ∀ mono, m.mono ≤ mono → mono ≤ m.mono + timeFor s s.bursts →
    InStep s.clock offset { m with mono := mono }
  le_last : m.mono + timeFor s s.bursts ≤ lastInstant

theorem Fits.steady (h : Fits s offset m) :
    Steady s m.clocks offset m.mono (m.mono + timeFor s s.bursts) :=
  ⟨h.inStep, h.nonneg, h.le_last⟩

/-- What the program tells before its threads run. -/
def opening (s : Settings) (mono : Int) (now : Time) (log : List (Entry Event)) :
    List (Entry Event) :=
  let warning := if s.delay ≤ s.spacing then [.event (.wideSpacing s.spacing s.delay)] else []
  ⟨mono, some mainThread, .event (.starting s)⟩ ::
    ⟨mono, some mainThread, .record (.bound s.clock now)⟩ ::
      ((warning.map (⟨mono, some mainThread, ·⟩)).reverse ++ log)

theorem told_opening (s s' : Settings) (mono : Int) (now : Time) (log : List (Entry Event)) :
    Told s' log 0 (opening s mono now log) := by
  rw [opening]
  split
  · exact ⟨rfl, rfl⟩
  · exact ⟨rfl, rfl⟩

theorem start_of_bind {condvar : CondvarId} (h : (m.write mainThread
      (if s.delay ≤ s.spacing then [.event (.wideSpacing s.spacing s.delay)] else [])).bind
        mainThread s.clock = (m', .ok condvar)) :
    ∃ last, last = runThreads s (spawnBoth s (m'.write mainThread [.event (.starting s)])) ∧
      start s m = ⟨last.log.reverse, failureOf last.log⟩ :=
  ⟨_, rfl, by rw [start, h]⟩

/-- The program binds its condition variable and runs both threads. -/
theorem Fits.start_eq (h : Fits s offset m) : ∃ now last,
    last = runThreads s (scene s m.clocks m.mono {} none {} (running .entering)
      (running (.burst s.bursts)) [] [mainThread, producerThread] (opening s m.mono now m.log)) ∧
    start s m = ⟨last.log.reverse, failureOf last.log⟩ := by
  obtain ⟨now, hnow, -⟩ := h.inStep m.mono (Int.le_refl _) (by omega)
  obtain ⟨hmutexes, hcondvars, hthreads, hparked, hline⟩ := h
  obtain ⟨mono, clocks, mutexes, condvars, threads, parked, line, log⟩ := m
  dsimp only at *
  subst hmutexes hcondvars hthreads hparked hline
  have hbind (notes : List (Note Event)) : Machine.bind
      (Machine.write (⟨mono, clocks, [{ state := {} }], [], [], [], [], log⟩ : ProgramMachine)
        mainThread notes) mainThread s.clock =
      (⟨mono, clocks, [{ state := {} }], [{ clock := s.clock }], [], [], [],
        ⟨mono, some mainThread, .record (.bound s.clock now)⟩ ::
          ((notes.map (⟨mono, some mainThread, ·⟩)).reverse ++ log)⟩, .ok 0) := by
    rw [Machine.bind]
    dsimp only [Machine.write]
    rw [hnow]
    rfl
  obtain ⟨last, hlast, hstart⟩ := start_of_bind (hbind _)
  exact ⟨now, last, hlast, hstart⟩

theorem Rest.ended_of_zero (h : Rest s cs offset horizon log₀ 0 m) : Told s log₀ s.bursts m.log ∧
    ∃ mono log, m.log = ⟨mono, some mainThread,
      .event (.finished (countOf s s.bursts).batches (countOf s s.bursts).handled)⟩ :: log := by
  cases h with
  | behind _ _ _ _ _ _ _ hdue => omega
  | ended told => exact ⟨⟨told.batches, told.failure⟩, _, _, rfl⟩

theorem Fits.ended_of_le (h : Fits s offset m) (hclose : 0 < s.events →
      0 < s.delay.totalNanos ∧ s.spacing.totalNanos ≤ s.delay.totalNanos) :
    ∃ last, start s m = ⟨last.log.reverse, failureOf last.log⟩ ∧
      Rest s m.clocks offset (m.mono + timeFor s s.bursts) m.log 0 last := by
  obtain ⟨now, last, hlast, hstart⟩ := h.start_eq
  have fair : Fair s m.clocks offset m.mono (m.mono + timeFor s s.bursts) := ⟨h.steady, hclose⟩
  have hrest := fair.runThreads rfl (told_opening s s m.mono now m.log)
  rw [← hlast] at hrest
  exact ⟨last, hstart, hrest⟩

theorem Fits.ended (h : Fits s offset m) (hclose : 0 < s.events → s.spacing < s.delay) :
    ∃ last, start s m = ⟨last.log.reverse, failureOf last.log⟩ ∧
      Rest s m.clocks offset (m.mono + timeFor s s.bursts) m.log 0 last := by
  refine h.ended_of_le fun hpos => ?_
  have hlt : s.spacing.totalNanos < s.delay.totalNanos := hclose hpos
  exact ⟨Nat.zero_lt_of_lt hlt, Nat.le_of_lt hlt⟩

/-- The batches of a whole run, each by its number and its length. -/
def allBatches (s : Settings) : List (Nat × Nat) :=
  if s.events = 0 then [] else (List.range s.bursts).map fun burst => (burst + 1, s.events)

theorem reverse_batchesOf (s : Settings) (k : Nat) : (batchesOf s k).reverse =
    if s.events = 0 then [] else (List.range k).map fun burst => (burst + 1, s.events) := by
  split
  · rename_i hzero
    cases k with
    | zero => rfl
    | succ k => rw [batchesOf, if_pos hzero, List.reverse_nil]
  · rename_i hne
    induction k with
    | zero => rfl
    | succ k ih =>
        rw [batchesOf, if_neg hne, List.reverse_cons, ih, List.range_succ, List.map_append]
        rfl

theorem Told.reverse (h : Told s log₀ s.bursts log) :
    batchesIn log.reverse = batchesIn log₀.reverse ++ allBatches s := by
  have hreverse (log : List (Entry Event)) : batchesIn log.reverse = (batchesIn log).reverse :=
    List.filterMap_reverse
  rw [hreverse, hreverse, h.batches, List.reverse_append, reverse_batchesOf, allBatches]

/-- If the events of a burst come closer together than the delay, on a clock that goes along with
the park clock, then each burst is handled as one batch, which has all its events, and the program
ends. Bursts without events are no batches. -/
theorem one_batch_for_each_burst (h : Fits s offset m)
    (hclose : 0 < s.events → s.spacing < s.delay) :
    batchesIn (start s m).log = batchesIn m.log.reverse ++ allBatches s ∧
    (start s m).failure = failureOf m.log ∧
    ∃ mono, (start s m).log.getLast? = some ⟨mono, some mainThread,
      .event (.finished (if s.events = 0 then 0 else s.bursts) (s.bursts * s.events))⟩ := by
  obtain ⟨last, hstart, rest⟩ := h.ended hclose
  obtain ⟨told, mono, log, hlog⟩ := rest.ended_of_zero
  rw [hstart]
  refine ⟨told.reverse, told.failure, mono, ?_⟩
  dsimp only
  rw [hlog, List.getLast?_reverse]
  rfl

/-- All clocks of the program by itself go along with the park clock. -/
theorem fits_machine (log : List (Entry Event)) (h : origin + timeFor s s.bursts ≤ lastInstant) :
    Fits s 0 { machine with log := log } := by
  have hnonneg : 0 ≤ origin := by decide
  have hearliest : Time.earliest.totalNanos ≤ origin := by decide
  refine ⟨rfl, rfl, rfl, rfl, rfl, hnonneg, fun mono hle hlt => ?_, h⟩
  have hget : clocks.get s.clock = ⟨origin, origin, 1, 1, none⟩ := by
    cases s.clock <;> rfl
  have hzero : mono + (origin - origin) = mono := by rw [Int.sub_self, Int.add_zero]
  have hstep := inStep_of_rate_one (m := { machine with mono := mono, log := log }) hget
    (Int.le_trans (Int.le_trans hearliest hle) (Int.le_of_eq hzero.symm))
    (Int.le_trans (Int.le_of_eq hzero) (Int.le_trans hlt h))
  rwa [Int.sub_self] at hstep

/-- A delay of three slices, on a clock that is not the park clock. -/
def unhurried : Settings := { delay := .ofMillis 600, clock := .boottime }

theorem one_batch_for_each_burst_unhurried : Fits unhurried 0 machine ∧
    (0 < unhurried.events → unhurried.spacing < unhurried.delay) ∧
    batchesIn (start unhurried machine).log = [(1, 20), (2, 20), (3, 20)] := by
  have hfits : Fits unhurried 0 machine := fits_machine [] (by decide)
  have hclose : 0 < unhurried.events → unhurried.spacing < unhurried.delay := fun _ => by decide
  obtain ⟨hbatches, -, -⟩ := one_batch_for_each_burst hfits hclose
  exact ⟨hfits, hclose, hbatches⟩

/-- The same of the program in an environment whose settings are in order. -/
theorem batchesIn_run {env : Environment} (hs : Settings.ofEnvironment env = .ok s)
    (hclose : 0 < s.events → s.spacing < s.delay)
    (hrange : origin + timeFor s s.bursts ≤ lastInstant) :
    batchesIn (run env).log = allBatches s ∧ (run env).failure = none := by
  obtain ⟨last, hstart, rest⟩ := (fits_machine (machine.write mainThread
    [.event (.logging (Logging.ofEnvironment env).json)]).log hrange).ended hclose
  obtain ⟨told, -⟩ := rest.ended_of_zero
  have hrun : run env = ⟨last.log.reverse, failureOf last.log⟩ := by
    rw [run, hs]
    exact hstart
  rw [hrun]
  exact ⟨told.reverse, told.failure⟩

end TimedCondvar.Demo
