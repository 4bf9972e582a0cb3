import TimedCondvar.Proofs.Pauses
import TimedCondvar.Proofs.Policies
import TimedCondvar.Proofs.Schedules
import TimedCondvar.Proofs.SkewBudget

/-!
How many parks run out while time passes. No park is empty, and the next park of a thread begins
when the last one is over, so in a timely run no thread sees more of its parks run out than there
are nanoseconds. A world lets as many of them run out as may come, and its threads do as many steps
as they may have before them. So it is never cut short when it lets time pass: it comes to where no
park is left to run out.
-/

namespace TimedCondvar

namespace Machine

variable {σ κ ε : Type} {code : κ → Command σ κ ε} {m m' : Machine σ κ ε} {t : ThreadId}
  {th : Thread κ} {e : Event} {c : Cause} {hs : List (Machine σ κ ε × Cause)}

/-! ### No park is empty -/

theorem Fresh.paced (h : Fresh m) : Paced m := by
  refine ⟨fun {t th} ht => ?_⟩
  obtain ⟨⟨place, hc⟩, -⟩ := h.threads th (List.mem_of_getElem? ht)
  rw [Thread.Paced, hc]
  trivial

theorem Paced.act (h : Paced m) (hact : Act m e m') : Paced m' := by
  cases hact with
  | spawn place =>
      refine ⟨fun {t th} ht => ?_⟩
      rw [getElem?_threads_spawn] at ht
      split at ht
      · cases ht
        trivial
      · exact h.thread ht
  | bind thread clock => exact h.congr (bind_threads ..)
  | notify thread condvar all => exact h.wake (woke_notify m thread condvar all)
  | modify mutex f => exact h.congr rfl
  | log log => exact h.congr rfl

theorem Paced.next (h : Paced m) (hm : Next code m e m') : Paced m' := by
  cases hm with
  | own ho =>
      cases ho with
      | step hstep =>
          obtain ⟨th, ht, hs⟩ := stepped_of_step hstep
          exact h.stepped ht hs
      | @expire p u instant hp hu hle => exact h.wake (woke_expire m instant p.thread)
      | tick instant => exact h.congr rfl
      | clocks clocks => exact h.congr rfl
  | act hact => exact h.act hact

theorem History.paced (history : History code m hs m') (h : Paced m) : Paced m' :=
  history.invariant (fun hm h => h.next hm.next) h

/-- A park that a step enters is to end later. -/
theorem Paced.mem_parked (h : Paced m) (ht : m.threads[t]? = some th)
    (hs : Stepped code m t th m') {p : Parked} (hp : p ∈ m'.parked) :
    p ∈ m.parked ∨ ∀ u, p.wakeAt = some u → m.mono < u := by
  have entered {q : Parked} (hq : ∀ u, q.wakeAt = some u → m.mono < u)
      (hp : p ∈ m.parked ++ [q]) : p ∈ m.parked ∨ ∀ u, p.wakeAt = some u → m.mono < u := by
    rcases List.mem_append.mp hp with hp | hp
    · exact .inl hp
    · obtain rfl := List.mem_singleton.mp hp
      exact .inr hq
  cases hs with
  | @notify place condvar all next hc hcode =>
      rw [parked_notify] at hp
      exact .inl (List.mem_of_mem_filter hp)
  | sleep hc hcode hl =>
      have hpos := Nat.pos_of_ne_zero fun h0 => hl (Duration.totalNanos_injective h0)
      exact entered (fun u hu => lt_of_wakeAt hpos hu) hp
  | @park condvar deadline timed next mutex hc hg =>
      refine entered (fun u hu => ?_) hp
      cases timed with
      | none => cases hu
      | some timed =>
          have hpaced := h.thread ht
          rw [Thread.Paced, hc] at hpaced
          exact lt_of_wakeAt hpaced hu
  | _ => exact .inl hp

/-! ### One nanosecond for each park -/

/-- From the instant `start` on, `n` parks of thread `t` have run out, each at an instant of its
own. A park that it is in has yet another one before it. -/
structure Spread (t : ThreadId) (start : Int) (n : Nat) (m : Machine σ κ ε) : Prop where
  le : start + n ≤ m.mono
  lt : ∀ {p : Parked} {u : Int}, p ∈ m.parked → p.thread = t → p.wakeAt = some u → start + n < u

theorem Settled.spread (h : Settled code m) (t : ThreadId) : Spread t m.mono 0 m where
  le := Int.le_of_eq (Int.add_zero _)
  lt hp _ hu := by
    have hlt := h.2 _ hp _ hu
    simpa using hlt

theorem expiries_concat (hs : List (Machine σ κ ε × Cause)) (m : Machine σ κ ε) (c : Cause) :
    expiries t (events code (hs ++ [(m, c)])) =
      expiries t (events code hs) + if c.shown code m = .expired t then 1 else 0 := by
  rw [expiries, expiries, events, events, List.map_append, List.count_append, List.map_singleton,
    List.count_singleton]
  simp only [beq_iff_eq]

variable {start : Int} {n : Nat}

/-- No time goes back, and no park is entered that is already over. -/
theorem Spread.keep (h : Spread t start n m) (hmono : m.mono ≤ m'.mono)
    (hparked : ∀ p ∈ m'.parked, p ∈ m.parked ∨ ∀ u, p.wakeAt = some u → m.mono < u) :
    Spread t start n m' where
  le := Int.le_trans h.le hmono
  lt hp ht hu := by
    rcases hparked _ hp with hp | hlate
    · exact h.lt hp ht hu
    · exact Int.lt_of_le_of_lt h.le (hlate _ hu)

theorem Spread.next (hm : Timely code m c m') (hpunctual : Punctual m) (hpaced : Paced m)
    (h : Spread t start n m) :
    Spread t start (n + if c.shown code m = .expired t then 1 else 0) m' := by
  have hmono := hpunctual.mono_le hm
  cases hm with
  | @step u m' hstep =>
      obtain ⟨th, hu, hs⟩ := stepped_of_step hstep
      rw [Cause.shown, if_neg (shown_ne_expired u t)]
      exact h.keep hmono fun p hp => hpaced.mem_parked hu hs hp
  | @expire p u hrest hp hu hfirst =>
      have hexpired : Spread t start n (m.expire u p.thread) :=
        h.keep hmono fun q hq => .inl (List.mem_of_mem_filter hq)
      by_cases hpt : p.thread = t
      · rw [Cause.shown, if_pos (congrArg Event.expired hpt)]
        refine ⟨?_, fun {q v} hq hqt hv => ?_⟩
        · have hlt : start + n < u := h.lt hp hpt hu
          show start + (n + 1 : Nat) ≤ u
          omega
        · -- the thread is parked no longer
          have hne := (List.mem_filter.mp hq).2
          simp [hqt, hpt] at hne
      · rw [Cause.shown, if_neg fun he => hpt (Event.expired.inj he)]
        exact hexpired
  | tick instant hrest hle hbefore => exact h.keep hmono fun p hp => .inl hp
  | clocks clocks => exact h.keep hmono fun p hp => .inl hp
  | @act e m' hact =>
      have hne : e ≠ .expired t := by
        rintro rfl
        cases hact
      rw [Cause.shown, if_neg hne]
      exact h.keep hmono fun p hp => .inl (hact.mem_parked hp)

theorem History.spread (history : History code m hs m') (hpunctual : Punctual m) (hpaced : Paced m)
    (h : Spread t start 0 m) : Spread t start (expiries t (events code hs)) m' := by
  induction history with
  | nil => exact h
  | snoc history move ih =>
      rw [expiries_concat]
      exact ih.next move (history.punctual hpunctual) (history.paced hpaced)

/-- No thread sees more of its parks run out than nanoseconds pass. -/
theorem History.expiries_le (history : History code m hs m') (hpunctual : Punctual m)
    (hpaced : Paced m) (hsettled : Settled code m) (t : ThreadId) :
    (expiries t (events code hs) : Int) ≤ m'.mono - m.mono := by
  have hle := (history.spread hpunctual hpaced (hsettled.spread t)).le
  omega

/-! ### Enough is enough

A world that could do more steps, or let more parks run out, would do the same. -/

theorem settle_of_le {n' : Nat} (hturn : (m.settle code n).turn code = none) (hle : n ≤ n') :
    m.settle code n' = m.settle code n := by
  induction n generalizing m n' with
  | zero =>
      have hnone : m.turn code = none := hturn
      cases n' with
      | zero => rfl
      | succ n' =>
          show m.settle code (n' + 1) = m
          rw [settle, hnone]
  | succ n ih =>
      obtain ⟨n', rfl⟩ : ∃ k, n' = k + 1 := ⟨n' - 1, by omega⟩
      rw [settle] at hturn
      rw [settle, settle]
      cases hm : m.turn code with
      | none => rfl
      | some m' =>
          rw [hm] at hturn
          exact ih hturn (Nat.le_of_succ_le_succ hle)

theorem AtRest.turn_eq_none (h : AtRest code m) : m.turn code = none :=
  List.findSome?_eq_none_iff.mpr fun t _ => h.idle t

theorem elapse_of_passed {work n : Nat} {target : Int}
    (hpassed : ∀ p ∈ m.parked, ∀ u, p.wakeAt = some u → target < u) :
    m.elapse code work (some target) n = m := by
  cases n with
  | zero => rfl
  | succ n =>
      rw [elapse]
      cases hfirst : firstExpiry m.parked with
      | none => rfl
      | some first =>
          obtain ⟨u, t⟩ := first
          obtain ⟨p, hp, -, hu⟩ := exists_parked_of_firstExpiry hfirst
          have hlt := hpassed p hp u hu
          simp [Int.not_le.mpr hlt]

theorem Ready.elapse_of_le {m : ScriptMachine} {work work' n n' : Nat} {target : Int} (h : Ready m)
    (hrest : AtRest Script.code m) (hwork : m.allowance ≤ work) (hwork' : work ≤ work')
    (hn : m.room target m.mono ≤ n) (hn' : n ≤ n') :
    m.elapse Script.code work' (some target) n' = m.elapse Script.code work (some target) n := by
  induction n generalizing m n' with
  | zero =>
      rw [elapse_of_passed fun p hp u hu => h.lt_of_no_room (Nat.le_zero.mp hn) hp hu]
      rfl
  | succ n ih =>
      obtain ⟨n', rfl⟩ : ∃ k, n' = k + 1 := ⟨n' - 1, by omega⟩
      rw [Machine.elapse, Machine.elapse]
      cases hfirst : firstExpiry m.parked with
      | none => rfl
      | some first =>
          obtain ⟨u, t⟩ := first
          dsimp only
          split
          · rename_i hdue
            have hdue : u ≤ target := by simpa using hdue
            obtain ⟨hreaches, hrest₁, -⟩ := h.expires hrest hwork hfirst
            have hroom := h.room_expires_lt hrest hwork hfirst hdue
            rw [settle_of_le hrest₁.turn_eq_none hwork']
            exact ih hreaches.ready hrest₁ (Nat.le_trans hreaches.allowance_le hwork)
              (Nat.le_of_lt_succ (Nat.lt_of_lt_of_le hroom hn)) (Nat.le_of_succ_le_succ hn')
          · rfl

/-! ### No busy loop -/

/-- A wait that is about to park does so upon its last reading: for some time, for no more than is
left by that reading, and on any clock but the park clock for a slice at most. -/
theorem Trace.park_bounds {condvar : CondvarId} {clock : Clock} {deadline : Time} {es : List Event}
    {timer : Timer} {p : Park}
    (trace : Trace t condvar (.reading { clock, deadline }) es (.parking (some (timer, p)))) :
    ∃ now, (readings t es).getLast? = some (.ok now) ∧ 0 < p.length.totalNanos ∧
      (p.length.totalNanos : Int) ≤ deadline.totalNanos - now.totalNanos ∧
      (clock ≠ .monotonic → p.length ≤ parkSlice) := by
  obtain ⟨rs, -, ⟨-, r, hr, hpass⟩, -⟩ := trace.budgeted
  obtain ⟨now, rfl, hlate, rfl⟩ := Timer.exists_park_of_pass hpass
  have hreadings : readings t es = rs ++ [.ok now] := hr
  have hahead : now < deadline := Time.not_le.mp hlate
  have hlength := (clock.park_length (deadline.durationSince now)).1
  have hdistance := Time.totalNanos_durationSince deadline now
  refine ⟨now, by simp [hreadings], ?_, ?_, ?_⟩
  · exact Clock.park_length_pos (Time.durationSince_pos hahead)
  · rw [Time.lt_iff_totalNanos] at hahead
    show ((clock.park (deadline.durationSince now)).length.totalNanos : Int) ≤ _
    omega
  · intro hclock
    exact Clock.park_length_le hclock

/-- Nothing loops without rest, whatever the clocks do. In every run, a park that a wait with a
deadline enters is not empty, not for more than is left by the reading before it, and on any clock
but the park clock not for more than a slice. In every run, a predicate wait of any policy parks
between any two evaluations of its condition, but for the last one if that follows a time-out. In
every timely run, no more parks of a thread run out from a settled machine on than nanoseconds pass.
And a world that lets some time pass comes to its end settled, with no more parks run out than that,
and would not do anything else if it could do more. -/
theorem no_busy_loop (code : κ → Command σ κ ε) (μ : Type) {m₀ : Machine σ κ ε} (hfresh : Fresh m₀)
    (t : ThreadId) :
    (∀ (es₀ es : List Event) (m₁ m₂ m : Machine σ κ ε) (call : Call κ) (cv : Condvar)
        (deadline : Time) (timer : Timer) (p : Park),
      Run (Next code) m₀ es₀ m₁ → Registers code t call cv m₁ m₂ →
      call.deadline = some deadline → Run (Next code) m₂ es m →
      (∀ condvar how, .returned t condvar how ∉ es) →
      m.threads[t]? = some (call.thread (.parking (some (timer, p)))) →
      ∃ now, (readings t es).getLast? = some (.ok now) ∧ 0 < p.length.totalNanos ∧
        (p.length.totalNanos : Int) ≤ deadline.totalNanos - now.totalNanos ∧
        (cv.clock ≠ .monotonic → p.length ≤ parkSlice)) ∧
    (∀ (es₀ : List Event) (hs : List (Machine σ κ ε × Cause)) (m m' : Machine σ κ ε)
        (w : PredicateWait code μ) (mutex : MutexId) (policy : Policy) (memory : μ),
      Run (Next code) m₀ es₀ m → w.Stands t mutex m (.running policy.start memory) →
      Chronicle code m hs m' →
      (∃ phase, w.Stands t mutex m' phase ∧ phase.done = false ∧ Spaced (deeds code t hs)) ∨
      ∃ before after m₁ result memory', hs = before ++ after ∧ Chronicle code m before m₁ ∧
        w.Stands t mutex m₁ (.running (.done result) memory') ∧ Paused (deeds code t before)) ∧
    (∀ (hs₀ hs : List (Machine σ κ ε × Cause)) (m m' : Machine σ κ ε), History code m₀ hs₀ m →
      Settled code m → History code m hs m' →
      (expiries t (events code hs) : Int) ≤ m'.mono - m.mono) ∧
    ∀ (monotonic monotonicRaw boottime realtime : Int) (w : World) (length : Duration),
      World.Reached (World.start monotonic monotonicRaw boottime realtime) w →
      ∃ m' : ScriptMachine, (w.perform (.advance length)).1.machine = { m' with log := [] } ∧
        (∃ hs, History Script.code w.machine hs m' ∧
          ∀ u, expiries u (events Script.code hs) ≤ length.totalNanos) ∧
        Settled Script.code m' ∧ m'.mono = w.machine.mono + length.totalNanos ∧
        ∀ work n, w.work ≤ work → w.machine.threads.length * (length.totalNanos + 1) ≤ n →
          { w.machine.elapse Script.code work (some (w.machine.mono + length.totalNanos)) n with
            mono := w.machine.mono + length.totalNanos } = m' := by
  refine ⟨?_, ?_, ?_, ?_⟩
  · intro es₀ es m₁ m₂ m call cv deadline timer p run₀ hregisters hdeadline run hin ht
    have hs₂ : Sound m₂ :=
      (run₀.invariant Sound.next hfresh.sound).next (.own (.step hregisters.step))
    have ht₂ := hregisters.registered
    rw [hdeadline] at ht₂
    obtain ⟨stage, hstage, -, trace⟩ := run.trace hs₂ ht₂ (registered_ne_entering _ _) hin
    obtain rfl : stage = .parking (some (timer, p)) := by simpa [Call.thread, hstage] using ht
    exact trace.park_bounds
  · intro es₀ hs m m' w mutex policy memory run₀ hstands chronicle
    have hsound := run₀.invariant Sound.next hfresh.sound
    rcases PredicateWait.Pausing.follow hsound hstands chronicle with
      ⟨phase, hstands', hdone, hpausing⟩ | hend
    · exact .inl ⟨phase, hstands', hdone, hpausing.spaced hdone⟩
    · exact .inr hend
  · intro hs₀ hs m m' history₀ hsettled history
    exact history.expiries_le (history₀.punctual hfresh.punctual) (history₀.paced hfresh.paced)
      hsettled t
  · intro monotonic monotonicRaw boottime realtime w length hreached
    obtain ⟨-, hquiet⟩ := hreached.quiet (World.quiet_start ..)
    have hsettles := World.advance_settles length hquiet.ready hquiet.allowance_le hquiet.settled
    obtain ⟨hs, history⟩ := hsettles.history
    refine ⟨w.machine.advance Script.code w.work length, rfl, ⟨hs, history, fun u => ?_⟩,
      hsettles.settled, rfl, fun work n hwork hn => ?_⟩
    · have hle := history.expiries_le hquiet.ready.punctual hquiet.ready.paced hquiet.settled u
      have hmono : (w.machine.advance Script.code w.work length).mono =
          w.machine.mono + length.totalNanos := rfl
      omega
    · rw [hquiet.ready.elapse_of_le hquiet.settled.1 hquiet.allowance_le hwork
        (World.room_le_of_settled length hquiet.settled) hn]
      rfl

/-- The predicate wait of a script for a condition that never holds, until three nanoseconds. -/
def lateLook : PredicateWait Script.code Tally :=
  .ofScript ((PredicateWait.futile (.upTo (Time.new 0 3))).moveTo .fetching)
    (.upTo (Time.new 0 3)) .never none

/-- The script parks once, for the three nanoseconds, and looks again as it has timed out. A new
world that lets a second pass has settled at its end. -/
theorem no_busy_loop_of_late_look : ∃ (m₀ m₁ m₂ m m' m₃ : ScriptMachine) (es₀ es : List Event)
    (hs₀ hs before after : List (ScriptMachine × Cause)) (call : Call Script.Place) (cv : Condvar)
    (timer : Timer) (p : Park) (now : Time) (result : Except SyncError Bool) (tally : Tally),
    Fresh m₀ ∧ Run (Next Script.code) m₀ es₀ m₁ ∧ Registers Script.code 0 call cv m₁ m₂ ∧
    call.deadline = some (Time.new 0 3) ∧ Run (Next Script.code) m₂ es m ∧
    (∀ condvar how, .returned 0 condvar how ∉ es) ∧
    m.threads[0]? = some (call.thread (.parking (some (timer, p)))) ∧
    (readings 0 es).getLast? = some (.ok now) ∧ 0 < p.length.totalNanos ∧
    (p.length.totalNanos : Int) ≤ (Time.new 0 3).totalNanos - now.totalNanos ∧
    History Script.code m₀ hs₀ (PredicateWait.entry (.upTo (Time.new 0 3))) ∧
    lateLook.Stands 0 0 (PredicateWait.entry (.upTo (Time.new 0 3)))
      (.running (Policy.upTo (Time.new 0 3)).start {}) ∧
    Chronicle Script.code (PredicateWait.entry (.upTo (Time.new 0 3))) hs m' ∧
    deeds Script.code 0 hs = [.evaluated, .parked, .ranOut, .evaluated] ∧ hs = before ++ after ∧
    lateLook.Stands 0 0 m₃ (.running (.done result) tally) ∧
    Paused (deeds Script.code 0 before) ∧ Settled Script.code m₀ ∧ m'.mono = 3 ∧
    (expiries 0 (events Script.code (hs₀ ++ hs)) : Int) ≤ m'.mono - m₀.mono ∧
    World.Reached (World.start 0 0 0 0) (World.start 0 0 0 0) ∧
    ∃ m'' : ScriptMachine, Settled Script.code m'' ∧ m''.mono = 1000000000 := by
  obtain ⟨hs₀, history₀⟩ := PredicateWait.exists_history_entry (.upTo (Time.new 0 3))
  -- looks and waits
  have waits : History Script.code (PredicateWait.entry (.upTo (Time.new 0 3))) _ _ :=
    .of_course [.step 0, .step 0] rfl
  obtain ⟨m₁, m₂, m, m', hs, es₁, es, call, timer, p, hwaits, hregisters, hdeadline, run, hin, ht,
      history, hdeeds, hmono, hover⟩ :
      ∃ (m₁ m₂ m m' : ScriptMachine) (hs : List (ScriptMachine × Cause)) (es₁ es : List Event)
        (call : Call Script.Place) (timer : Timer) (p : Park),
        Run (Next Script.code) (PredicateWait.entry (.upTo (Time.new 0 3))) es₁ m₁ ∧
        Registers Script.code 0 call ⟨.boottime, {}⟩ m₁ m₂ ∧
        call.deadline = some (Time.new 0 3) ∧ Run (Next Script.code) m₂ es m ∧
        es.any Event.isReturned = false ∧
        m.threads[0]? = some (call.thread (.parking (some (timer, p)))) ∧
        History Script.code (PredicateWait.entry (.upTo (Time.new 0 3))) hs m' ∧
        deeds Script.code 0 hs = [.evaluated, .parked, .ranOut, .evaluated] ∧ m'.mono = 3 ∧
        ∀ phase, lateLook.Stands 0 0 m' phase → phase.done = true := by
    refine ⟨_, _, _, _, _, _, _, ⟨0, some (Time.new 0 3), _, 0⟩, _, _, waits.run,
      ⟨rfl, rfl, rfl, rfl⟩, rfl, (Run.of_play [.step 0] rfl).mono .own, rfl, rfl,
      -- registers, reads, parks; runs out, reads, leaves and looks again
      waits.trans (.of_course [.step 0, .step 0, .step 0, .expire 0, .step 0, .step 0, .step 0,
        .step 0] rfl), rfl, rfl, fun phase hstands => ?_⟩
    cases phase with
    | running state memory =>
        obtain ⟨place, hplace, hcode⟩ := hstands.exists_place
        cases hplace
        cases state with
        | done result => rfl
        | _ => cases hcode
    | waiting policy deadline stage memory => cases hstands
  have hin := not_mem_of_any_isReturned hin 0
  have hsettled : Settled Script.code (World.start 0 0 0 0).machine :=
    (World.quiet_start 0 0 0 0).settled
  have hentry : lateLook.Stands 0 0 (PredicateWait.entry (.upTo (Time.new 0 3)))
      (.running (Policy.upTo (Time.new 0 3)).start {}) := PredicateWait.stands_entry _
  have hfresh := World.fresh_start 0 0 0 0
  obtain ⟨hparks, hpauses, hexpiries, hworlds⟩ := no_busy_loop Script.code Tally hfresh 0
  obtain ⟨now, hnow, hpos, hle, -⟩ := hparks _ es m₁ m₂ m call _ _ timer p
    (history₀.run.trans hwaits) hregisters hdeadline run hin ht
  obtain ⟨m'', -, -, hsettled'', hmono'', -⟩ := hworlds 0 0 0 0 _ (.ofMillis 1000) .start
  rcases hpauses _ hs _ m' lateLook 0 (.upTo (Time.new 0 3)) {} history₀.run hentry
    history.chronicle with ⟨phase, hstands, hdone, -⟩ |
      ⟨before, after, m₃, result, tally, hsplit, -, hstands, hpaused⟩
  · rw [hover phase hstands] at hdone
    cases hdone
  · exact ⟨_, m₁, m₂, m, m', m₃, _, es, hs₀, hs, before, after, call, _, timer, p, now, result,
      tally, hfresh, history₀.run.trans hwaits, hregisters, hdeadline, run, hin, ht, hnow, hpos,
      hle, history₀, hentry, history.chronicle, hdeeds, hsplit, hstands, hpaused, hsettled, hmono,
      hexpiries [] (hs₀ ++ hs) _ m' .nil hsettled (history₀.trans history), .start, m'',
      hsettled'', hmono''⟩

end Machine

end TimedCondvar
