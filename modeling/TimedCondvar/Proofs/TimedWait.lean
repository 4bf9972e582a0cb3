import TimedCondvar.Proofs.Calls
import TimedCondvar.Proofs.Worlds

/-!
When a timed wait runs out. A wait with a deadline reads its clock once before each park. It reports
that it timed out exactly if a reading has reached the deadline, and it does so at the first such
reading: all that it does from there on is return. Nothing is asked of the clock, and nothing of
how parks end.
-/

namespace TimedCondvar

theorem Time.not_le {a b : Time} : ¬a ≤ b ↔ b < a := by
  rw [le_iff_totalNanos, lt_iff_totalNanos]
  omega

namespace Timer

/-- The reading leaves time to the deadline. -/
def Early (deadline : Time) (reading : Except ClockError Time) : Prop :=
  ∃ now, reading = .ok now ∧ now < deadline

theorem Early.lt {deadline now : Time} (h : Early deadline (.ok now)) : now < deadline := by
  obtain ⟨_, h, hlt⟩ := h
  cases h
  exact hlt

/-- The end of a wait that ends upon a reading. -/
def ending (clock : Clock) (deadline : Time) : Except ClockError Time → WaitEnd
  | .error e => .failed e
  | .ok now => if deadline ≤ now then .timedOut deadline now else .skewed clock deadline now

theorem early_of_park {timer : Timer} {reading : Except ClockError Time} {p : Park}
    (h : timer.pass reading = .park p) : Early timer.deadline reading := by
  cases reading with
  | error e => cases h
  | ok now =>
      rw [pass] at h
      split at h
      · cases h
      · rename_i hlt
        exact ⟨now, rfl, Time.not_le.mp hlt⟩

theorem ending_of_finish {timer : Timer} {reading : Except ClockError Time} {how : WaitEnd}
    (h : timer.pass reading = .finish how) : how = ending timer.clock timer.deadline reading := by
  cases reading with
  | error e =>
      cases h
      rfl
  | ok now =>
      rw [pass] at h
      split at h
      · rename_i hle
        cases h
        rw [ending, if_pos hle]
      · rename_i hlt
        split at h
        · cases h
          rw [ending, if_neg hlt]
        · cases h

/-- Only a reading that has reached the deadline makes a wait time out. -/
theorem result_ending_eq_timedOut_iff {clock : Clock} {deadline : Time}
    {reading : Except ClockError Time} :
    (ending clock deadline reading).result = .ok .timedOut ↔
      ∃ now, reading = .ok now ∧ deadline ≤ now := by
  cases reading with
  | error e => simp [ending, WaitEnd.result]
  | ok now =>
      rw [ending]
      split
      · rename_i hle
        simp [WaitEnd.result, hle]
      · rename_i hlt
        simp [WaitEnd.result, hlt]

end Timer

namespace Machine

variable {σ κ ε : Type}

/-! ### Readings and parks -/

/-- The readings that thread `t` took, in order. -/
def readings (t : ThreadId) (es : List Event) : List (Except ClockError Time) :=
  es.filterMap fun
    | .read u r => if u = t then some r else none
    | _ => none

/-- The readings and the parks of thread `t`, in order. -/
def attempts (t : ThreadId) (es : List Event) : List Event :=
  es.filter fun
    | .read u _ | .parked u => u = t
    | _ => false

/-- How often thread `t` parked. -/
def parks (t : ThreadId) (es : List Event) : Nat := (attempts t es).count (.parked t)

/-- Readings with a park behind each. -/
def alternation (t : ThreadId) (rs : List (Except ClockError Time)) : List Event :=
  rs.flatMap fun r => [.read t r, .parked t]

section

variable {t : ThreadId} {e : Event} (es : List Event)

theorem readings_concat_read (r : Except ClockError Time) :
    readings t (es ++ [.read t r]) = readings t es ++ [r] := by
  simp [readings]

theorem attempts_concat_read (r : Except ClockError Time) :
    attempts t (es ++ [.read t r]) = attempts t es ++ [.read t r] := by
  simp [attempts]

theorem readings_concat_parked : readings t (es ++ [.parked t]) = readings t es := by
  simp [readings]

theorem attempts_concat_parked :
    attempts t (es ++ [.parked t]) = attempts t es ++ [.parked t] := by
  simp [attempts]

/-- Other events are no attempts. -/
theorem attempts_concat_of_not (h : ∀ r, e ≠ .read t r) (h' : e ≠ .parked t) :
    readings t (es ++ [e]) = readings t es ∧ attempts t (es ++ [e]) = attempts t es := by
  cases e with
  | read u r =>
      have hu : u ≠ t := fun hu => h r (hu ▸ rfl)
      simp [readings, attempts, hu]
  | parked u =>
      have hu : u ≠ t := fun hu => h' (hu ▸ rfl)
      simp [readings, attempts, hu]
  | _ => simp [readings, attempts]

theorem alternation_concat (rs : List (Except ClockError Time)) (r : Except ClockError Time) :
    alternation t (rs ++ [r]) = alternation t rs ++ [.read t r] ++ [.parked t] := by
  simp [alternation]

theorem count_alternation (rs : List (Except ClockError Time)) :
    (alternation t rs).count (.parked t) = rs.length := by
  induction rs with
  | nil => rfl
  | cons r rs ih =>
      change (.read t r :: .parked t :: alternation t rs).count _ = _
      simp [ih]

end

/-! ### What a timed wait does

Between two parks all readings were early, and each of them was followed by a park. A pass adds one
reading; if it does not add a park as well, the wait is over. -/

/-- All readings were early, and each was followed by a park. -/
def AllParked (t : ThreadId) (deadline : Time) (rs : List (Except ClockError Time))
    (as : List Event) : Prop :=
  as = alternation t rs ∧ ∀ r ∈ rs, Timer.Early deadline r

/-- The last reading was `r`, and the thread has not parked since. -/
def LastRead (t : ThreadId) (deadline : Time) (rs : List (Except ClockError Time))
    (as : List Event) (r : Except ClockError Time) : Prop :=
  ∃ rs', rs = rs' ++ [r] ∧ as = alternation t rs' ++ [.read t r] ∧
    ∀ r' ∈ rs', Timer.Early deadline r'

/-- A wait for a deadline on a clock, by its stage, its readings `rs`, and its readings and parks
`as`. -/
def Timed (t : ThreadId) (clock : Clock) (deadline : Time) (rs : List (Except ClockError Time))
    (as : List Event) : Stage → Prop
  | .reading timer =>
    (timer.clock = clock ∧ timer.deadline = deadline) ∧ AllParked t deadline rs as
  | .parking (some (timer, _)) => (timer.clock = clock ∧ timer.deadline = deadline) ∧
    ∃ r, Timer.Early deadline r ∧ LastRead t deadline rs as r
  | .queued (some (timer, _)) | .woken _ (some (timer, _)) =>
    (timer.clock = clock ∧ timer.deadline = deadline) ∧ AllParked t deadline rs as ∧ rs ≠ []
  | .leaving how => how = .notified ∧ AllParked t deadline rs as ∨
    ∃ r, how = Timer.ending clock deadline r ∧ LastRead t deadline rs as r
  | _ => False

section

variable {t : ThreadId} {clock : Clock} {deadline : Time} {rs : List (Except ClockError Time)}
  {as : List Event} {stage stage' : Stage}

theorem AllParked.read (h : AllParked t deadline rs as) (r : Except ClockError Time) :
    LastRead t deadline (rs ++ [r]) (as ++ [.read t r]) r :=
  ⟨rs, rfl, by rw [h.1], h.2⟩

theorem LastRead.park {r : Except ClockError Time} (h : LastRead t deadline rs as r)
    (hr : Timer.Early deadline r) : AllParked t deadline rs (as ++ [.parked t]) ∧ rs ≠ [] := by
  obtain ⟨rs', rfl, rfl, hearly⟩ := h
  refine ⟨⟨(alternation_concat rs' r).symm, fun r' hr' => ?_⟩, by simp⟩
  rcases List.mem_append.mp hr' with hr' | hr'
  · exact hearly r' hr'
  · exact List.mem_singleton.mp hr' ▸ hr

theorem Timed.pass {timer : Timer} (h : Timed t clock deadline rs as (.reading timer))
    (r : Except ClockError Time) : Timed t clock deadline (rs ++ [r]) (as ++ [.read t r])
      (.ofPass timer (timer.pass r)) := by
  obtain ⟨⟨rfl, rfl⟩, hall⟩ := h
  cases hpass : timer.pass r with
  | park p => exact ⟨⟨rfl, rfl⟩, r, Timer.early_of_park hpass, hall.read r⟩
  | finish how => exact .inr ⟨r, Timer.ending_of_finish hpass, hall.read r⟩

/-- An event that is no attempt leaves a wait where it stands. -/
theorem Timed.quiet {e : Event} {es : List Event}
    (h : Timed t clock deadline (readings t es) (attempts t es) stage)
    (hr : ∀ r, e ≠ .read t r) (hp : e ≠ .parked t) :
    Timed t clock deadline (readings t (es ++ [e])) (attempts t (es ++ [e])) stage := by
  rw [(attempts_concat_of_not es hr hp).1, (attempts_concat_of_not es hr hp).2]
  exact h

/-- What one move leaves true. -/
theorem Timed.moved {condvar : CondvarId} {e : Event} {es : List Event}
    (h : Timed t clock deadline (readings t es) (attempts t es) stage)
    (hm : Moved t condvar e stage stage') :
    Timed t clock deadline (readings t (es ++ [e])) (attempts t (es ++ [e])) stage' := by
  cases hm with
  | stay hc => exact h.quiet (fun _ he => hc (he ▸ rfl)) fun he => hc (he ▸ rfl)
  | read timer r =>
      rw [readings_concat_read, attempts_concat_read]
      exact h.pass r
  | park timed =>
      -- the park goes with the reading before it, which was early or there were no park
      rw [readings_concat_parked, attempts_concat_parked]
      cases timed with
      | none => exact h.elim
      | some timed =>
          obtain ⟨htimer, r, hr, hlast⟩ := h
          exact ⟨htimer, hlast.park hr⟩
  | @notified timed threads result ht =>
      have h' := h.quiet (e := .woke condvar threads result) (fun _ => nofun) nofun
      cases timed with
      | none => exact h'.elim
      | some timed => exact h'
  | expired timed => exact h.quiet (e := .expired t) (fun _ => nofun) nofun
  | retake notified timed =>
      have h' := h.quiet (e := .silent) (fun _ => nofun) nofun
      cases timed with
      | none => exact h'.elim
      | some timed =>
          obtain ⟨htimer, hall, -⟩ := h'
          cases notified with
          | true => exact .inl ⟨rfl, hall⟩
          | false => exact ⟨htimer, hall⟩

theorem Trace.timed {condvar : CondvarId} {es : List Event} {timer : Timer}
    (h : Trace t condvar (.reading timer) es stage) :
    Timed t timer.clock timer.deadline (readings t es) (attempts t es) stage := by
  induction h with
  | nil => exact ⟨⟨rfl, rfl⟩, rfl, fun _ hr => nomatch hr⟩
  | snoc trace hm ih => exact ih.moved hm

theorem AllParked.count (h : AllParked t deadline rs as) : as.count (.parked t) = rs.length := by
  rw [h.1, count_alternation]

/-- Each park comes behind a reading of its own, which was early. -/
theorem Timed.attempts (h : Timed t clock deadline rs as stage) :
    as <+: alternation t rs ∧
      ∀ r ∈ rs.take (as.count (.parked t)), Timer.Early deadline r := by
  -- either every reading was followed by a park, or the last one has still to be
  have all (h : AllParked t deadline rs as) : as <+: alternation t rs ∧
      ∀ r ∈ rs.take (as.count (.parked t)), Timer.Early deadline r := by
    refine ⟨h.1 ▸ List.prefix_rfl, fun r hr => h.2 r ?_⟩
    exact List.mem_of_mem_take hr
  have last {r : Except ClockError Time} (h : LastRead t deadline rs as r) :
      as <+: alternation t rs ∧
        ∀ r ∈ rs.take (as.count (.parked t)), Timer.Early deadline r := by
    obtain ⟨rs', rfl, rfl, hearly⟩ := h
    refine ⟨?_, fun r' hr' => hearly r' ?_⟩
    · rw [alternation_concat]
      exact List.prefix_append ..
    · simpa [count_alternation] using hr'
  match stage, h with
  | .reading _, h => exact all h.2
  | .parking (some _), ⟨_, _, _, h⟩ => exact last h
  | .queued (some _), h => exact all h.2.1
  | .woken _ (some _), h => exact all h.2.1
  | .leaving _, .inl h => exact all h.2
  | .leaving _, .inr ⟨_, _, h⟩ => exact last h

/-- How a timed wait ends: notified, or as its last reading says. -/
theorem Timed.ending {how : WaitEnd} (h : Timed t clock deadline rs as (.leaving how)) :
    how = .notified ∧ (∀ r ∈ rs, Timer.Early deadline r) ∨
    ∃ rs' r, rs = rs' ++ [r] ∧ how = Timer.ending clock deadline r ∧
      ∀ r' ∈ rs', Timer.Early deadline r' := by
  rcases h with ⟨hhow, hall⟩ | ⟨r, hhow, rs', hrs, -, hearly⟩
  · exact .inl ⟨hhow, hall.2⟩
  · exact .inr ⟨rs', r, hrs, hhow, hearly⟩

theorem Timed.result_eq_timedOut_iff {how : WaitEnd}
    (h : Timed t clock deadline rs as (.leaving how)) :
    how.result = .ok .timedOut ↔ ∃ now, rs.getLast? = some (.ok now) ∧ deadline ≤ now := by
  rcases h.ending with ⟨rfl, hearly⟩ | ⟨rs', r, rfl, rfl, -⟩
  · refine ⟨nofun, fun ⟨now, hlast, hle⟩ => ?_⟩
    exact absurd hle (Time.not_le.mpr (hearly _ (List.mem_of_getLast? hlast)).lt)
  · rw [Timer.result_ending_eq_timedOut_iff]
    simp

/-- Once a reading has reached the deadline, the wait is over. -/
theorem Timed.timedOut {now : Time} (h : Timed t clock deadline rs as stage)
    (hlast : rs.getLast? = some (.ok now)) (hle : deadline ≤ now) :
    stage = .leaving (.timedOut deadline now) := by
  have late : ¬Timer.Early deadline (.ok now) := fun h => Time.not_le.mpr h.lt hle
  have hmem : .ok now ∈ rs := List.mem_of_getLast? hlast
  match stage, h with
  | .reading _, h => exact absurd (h.2.2 _ hmem) late
  | .parking (some _), ⟨_, r, hr, rs', hrs, _, _⟩ =>
      obtain rfl : r = .ok now := by simpa [hrs] using hlast
      exact absurd hr late
  | .queued (some _), h => exact absurd (h.2.1.2 _ hmem) late
  | .woken _ (some _), h => exact absurd (h.2.1.2 _ hmem) late
  | .leaving _, .inl h => exact absurd (h.2.2 _ hmem) late
  | .leaving _, .inr ⟨r, hhow, rs', hrs, _, _⟩ =>
      obtain rfl : r = .ok now := by simpa [hrs] using hlast
      rw [hhow, Timer.ending, if_pos hle]

/-- A wait whose first reading has reached the deadline never parks. -/
theorem Timed.count_eq_zero {now : Time} (h : Timed t clock deadline rs as stage)
    (hfirst : rs.head? = some (.ok now)) (hle : deadline ≤ now) : as.count (.parked t) = 0 := by
  obtain ⟨rs', rfl⟩ := List.head?_eq_some_iff.mp hfirst
  refine Nat.eq_zero_of_not_pos fun hpos => ?_
  have hmem : .ok now ∈ (.ok now :: rs').take (as.count (.parked t)) := by
    rw [List.take_cons hpos]
    exact List.mem_cons_self
  exact Time.not_le.mpr (h.attempts.2 _ hmem).lt hle

/-- A wait that has not parked has not given its mutex up. -/
theorem Timed.not_released {call : Call κ} (h : Timed t clock deadline rs as stage)
    (hnot : as.count (.parked t) = 0) : (call.thread stage).control.released = false := by
  match stage, h with
  | .reading _, _ | .parking _, _ | .leaving _, _ => rfl
  | .queued (some _), h =>
      rw [h.2.1.count, List.length_eq_zero_iff] at hnot
      exact absurd hnot h.2.2
  | .woken _ (some _), h =>
      rw [h.2.1.count, List.length_eq_zero_iff] at hnot
      exact absurd hnot h.2.2

end

/-! ### Runs -/

variable {code : κ → Command σ κ ε} {m m' : Machine σ κ ε} {t : ThreadId} {call : Call κ}

/-- Where a wait stands once it is registered. -/
theorem thread_of_register {cv : Condvar} (hcv : m.condvars[call.condvar]? = some cv)
    (ht : m.threads[t]? = some (call.thread .entering))
    (hno : cv.binding.conflict? call.mutex = none) (hstep : m.step code t = some m') :
    m'.threads[t]? = some (call.thread (.registered cv.clock call.deadline)) := by
  obtain ⟨th, hth, hs⟩ := stepped_of_step hstep
  obtain rfl : call.thread .entering = th := by simpa [ht] using hth
  cases hs with
  | @register condvar deadline next offered cv' hc hg hcv' hno' =>
      cases hc
      obtain rfl : cv' = cv := by simpa [hcv'] using hcv
      exact getElem?_set_self_of_getElem? ht _
  | @reject condvar deadline next offered bound waiters cv' hc hg hcv' h =>
      cases hc
      cases hg
      obtain rfl : cv' = cv := by simpa [hcv'] using hcv
      rw [hno] at h
      cases h
  | calm line hc hcalm => cases hc
  | _ hc => cases hc

/-- In every run, from the step on with which a wait with a deadline registers and as long as it
has not returned: every park comes behind a reading of the clock of the condition variable, and
that reading was ahead of the deadline. The wait ends with a time-out just if its last reading has
reached the deadline, and at that reading it is over: what is left to do is the step that returns.
All other ends are a notification, and a last reading that failed or was ahead of the deadline with
the skew budget used up. A wait whose first reading has reached the deadline does not park, and as
long as a wait has not parked it holds its mutex. -/
theorem timed_wait_of_run {m₀ m₁ m₂ m₃ : Machine σ κ ε} {es₀ es : List Event} {cv : Condvar}
    {deadline : Time} (hfresh : Fresh m₀) (hrun₀ : Run (Next code) m₀ es₀ m₁)
    (hcv : m₁.condvars[call.condvar]? = some cv) (hdeadline : call.deadline = some deadline)
    (ht : m₁.threads[t]? = some (call.thread .entering))
    (hno : cv.binding.conflict? call.mutex = none) (hstep : m₁.step code t = some m₂)
    (hrun : Run (Next code) m₂ es m₃) (hin : ∀ condvar how, .returned t condvar how ∉ es) :
    ∃ stage, m₃.threads[t]? = some (call.thread stage) ∧
      attempts t es <+: alternation t (readings t es) ∧
      (∀ r ∈ (readings t es).take (parks t es), ∃ now, r = .ok now ∧ now < deadline) ∧
      (∀ timer, stage = .reading timer → timer.clock = cv.clock ∧ timer.deadline = deadline) ∧
      (∀ how, stage = .leaving how → (how.result = .ok .timedOut ↔
        ∃ now, (readings t es).getLast? = some (.ok now) ∧ deadline ≤ now)) ∧
      (∀ now, (readings t es).getLast? = some (.ok now) → deadline ≤ now →
        stage = .leaving (.timedOut deadline now) ∧
        ∃ m₄, m₃.step code t = some m₄ ∧
          m₄.threads[t]? = some ⟨.running (call.next (.ok .timedOut)), some call.mutex⟩) ∧
      (∀ how, stage = .leaving how →
        how = .notified ∧ (∀ r ∈ readings t es, ∃ now, r = .ok now ∧ now < deadline) ∨
        ∃ rs r, readings t es = rs ++ [r] ∧ how = Timer.ending cv.clock deadline r ∧
          ∀ r' ∈ rs, ∃ now, r' = .ok now ∧ now < deadline) ∧
      (∀ now, (readings t es).head? = some (.ok now) → deadline ≤ now → parks t es = 0) ∧
      (parks t es = 0 → m₃.holder? call.mutex = some (some t)) := by
  have hs₂ : Sound m₂ := (hrun₀.invariant Sound.next hfresh.sound).next (.own (.step hstep))
  have ht₂ := thread_of_register hcv ht hno hstep
  rw [hdeadline] at ht₂
  obtain ⟨stage, ht₃, -, trace⟩ := hrun.trace hs₂ ht₂ nofun hin
  have hs₃ : Sound m₃ := hrun.invariant Sound.next hs₂
  have h : Timed t cv.clock deadline (readings t es) (attempts t es) stage := trace.timed
  refine ⟨stage, ht₃, h.attempts.1, h.attempts.2, ?_, ?_, fun now hlast hle => ?_, ?_, ?_, ?_⟩
  · rintro timer rfl
    exact h.1
  · rintro how rfl
    exact h.result_eq_timedOut_iff
  · obtain rfl := h.timedOut hlast hle
    exact ⟨rfl, _, step_of_leaving ht₃ rfl, by
      rw [setControl, List.getElem?_modify_eq, setBinding, ht₃]
      rfl⟩
  · rintro how rfl
    exact h.ending
  · exact fun now hfirst hle => h.count_eq_zero hfirst hle
  · intro hnot
    exact hs₃.guarded.holder ht₃ (holding_of_not_released (h.not_released hnot))

/-- A script that waits on the boot clock until 300 milliseconds. -/
def slicedWait : Script.Place :=
  { condvar := 0, clock := .boottime, mutex := 0
    rest := [{ operation := .waitUntil (Time.new 0 300000000) }] }

/-- The first park of the script is cut to a slice. The second one ends at the deadline, on both
clocks. -/
theorem timed_wait_of_slices : ∃ (es₀ es : List Event) (m₁ m₂ m₃ : ScriptMachine)
    (call : Call Script.Place) (cv : Condvar) (deadline : Time),
    Fresh (World.start 0 0 0 0).machine ∧
    Run (Next Script.code) (World.start 0 0 0 0).machine es₀ m₁ ∧
    m₁.condvars[call.condvar]? = some cv ∧ call.deadline = some deadline ∧
    m₁.threads[0]? = some (call.thread .entering) ∧ cv.binding.conflict? call.mutex = none ∧
    m₁.step Script.code 0 = some m₂ ∧ Run (Next Script.code) m₂ es m₃ ∧
    (∀ condvar how, .returned 0 condvar how ∉ es) ∧ parks 0 es = 2 ∧
    m₃.threads[0]? = some (call.thread (.leaving (.timedOut deadline deadline))) := by
  have spawned : Run (Next Script.code) (World.start 0 0 0 0).machine _ _ :=
    (Run.nil.snoc (.act (.bind none .boottime))).snoc (.act (.spawn slicedWait))
  -- locks and waits
  have waits := spawned.play [.step 0, .step 0] rfl
  obtain ⟨m₁, m₂, m₃, call, cv, waits, hcv, hdeadline, ht, hno, hstep, run⟩ :
      ∃ (m₁ m₂ m₃ : ScriptMachine) (call : Call Script.Place) (cv : Condvar),
        Run (Next Script.code) (World.start 0 0 0 0).machine _ m₁ ∧
        m₁.condvars[call.condvar]? = some cv ∧ call.deadline = some (Time.new 0 300000000) ∧
        m₁.threads[0]? = some (call.thread .entering) ∧ cv.binding.conflict? call.mutex = none ∧
        m₁.step Script.code 0 = some m₂ ∧ Run (Next Script.code) m₂
          [.read 0 (.ok (Time.new 0 0)), .parked 0, .expired 0, .silent,
            .read 0 (.ok (Time.new 0 250000000)), .parked 0, .expired 0, .silent,
            .read 0 (.ok (Time.new 0 300000000))] m₃ :=
    ⟨_, _, _, ⟨0, some (Time.new 0 300000000), _, 0⟩, ⟨.boottime, {}⟩, waits, rfl, rfl, rfl, rfl,
      rfl, (Run.of_play [.step 0, .step 0, .expire 0, .step 0, .step 0, .step 0, .expire 0,
        .step 0, .step 0] rfl).mono .own⟩
  obtain ⟨stage, hstage, -, -, -, -, hend, -⟩ := timed_wait_of_run (World.fresh_start 0 0 0 0)
    waits hcv hdeadline ht hno hstep run (by simp)
  obtain ⟨rfl, -⟩ := hend (Time.new 0 300000000) rfl (by decide)
  exact ⟨_, _, m₁, m₂, m₃, call, cv, _, World.fresh_start 0 0 0 0, waits, hcv, hdeadline, ht, hno,
    hstep, run, by simp, rfl, hstage⟩

end Machine

end TimedCondvar
