import TimedCondvar.Proofs.Distances
import TimedCondvar.Proofs.Timely

/-!
Waits whose clock goes along with the park clock. Such a wait is over when the park clock has moved
on by what was left to the deadline, in however many parks that was: the last park is the one that
is not cut, and it ends at the deadline on both clocks. So cutting a wait into slices is seen in
nothing but the number of its parks.
-/

namespace TimedCondvar

namespace Machine

variable {σ κ ε : Type} {code : κ → Command σ κ ε} {m m' : Machine σ κ ε} {t : ThreadId}
  {condvar : CondvarId} {stage stage' : Stage} {e : Event} {es : List Event}

/-- The clock reads `offset` more than the park clock. -/
def InStep (clock : Clock) (offset : Int) (m : Machine σ κ ε) : Prop :=
  ∃ now, m.clocks.now m.mono clock = .ok now ∧ now.totalNanos = m.mono + offset

/-- A clock without a fault goes along with the park clock if it runs at rate one. -/
theorem inStep_of_rate_one {clock : Clock} {base anchor : Int}
    (h : m.clocks.get clock = ⟨base, anchor, 1, 1, none⟩)
    (hle : Time.earliest.totalNanos ≤ m.mono + (base - anchor))
    (hlt : m.mono + (base - anchor) ≤ Time.max.totalNanos) : InStep clock (base - anchor) m := by
  have hreading : (m.clocks.get clock).reading m.mono = m.mono + (base - anchor) := by
    rw [h, VirtualClock.reading, Int.mul_one, Int.fdiv_one]
    dsimp only
    omega
  have hreply : (m.clocks.get clock).reply m.mono = .time
      (Int.fdiv (m.mono + (base - anchor)) nanosPerSec)
      (Int.fmod (m.mono + (base - anchor)) nanosPerSec) := by
    rw [VirtualClock.reply, hreading, h]
    rfl
  rw [InStep, Clocks.now, hreply]
  exact clock.now_of_nanos hle hlt

/-- What is to come of a wait whose clock goes along with the park clock: it runs out when the park
clock stands at `limit`, after `parks` parks. -/
structure Plan where
  clock : Clock
  deadline : Time
  offset : Int
  limit : Int
  parks : Nat

namespace Plan

variable {plan : Plan}

/-- A park that ends at the instant `u`, as the plan has it. It is the last one if it is not cut. -/
structure Heading (plan : Plan) (timer : Timer) (p : Park) (parks : Nat) (u : Int) : Prop where
  isFor : timer.IsFor plan.clock plan.deadline
  retries : timer.retries = 0
  limit_eq : plan.limit = plan.deadline.totalNanos - plan.offset
  le : u ≤ plan.limit
  uncut : p.capped = false → u = plan.limit
  counted : parks + plan.clock.parks (plan.limit - u).toNat = plan.parks

/-- A wait on its way to the end that the plan has for it. -/
def OnTime (plan : Plan) (t : ThreadId) (m : Machine σ κ ε) (es : List Event) : Stage → Prop
  | .reading timer => timer.IsFor plan.clock plan.deadline ∧ m.mono ≤ plan.limit ∧
      (m.mono = plan.limit ∨
        timer.retries = 0 ∧ plan.limit = plan.deadline.totalNanos - plan.offset) ∧
      Machine.parks t es + plan.clock.parks (plan.limit - m.mono).toNat = plan.parks
  | .parking (some (timer, p)) =>
      plan.Heading timer p (Machine.parks t es + 1) (m.mono + p.length.totalNanos)
  | .queued (some (timer, p)) =>
      ∃ u, m.ParkedUntil t (some u) ∧ plan.Heading timer p (Machine.parks t es) u
  | .woken false (some (timer, p)) => plan.Heading timer p (Machine.parks t es) m.mono
  | .woken true (some _) => m.mono ≤ plan.limit
  | .leaving how => m.mono ≤ plan.limit ∧ (how = .notified ∨ m.mono = plan.limit ∧
      Machine.parks t es = plan.parks ∧
      ∃ now, how = .timedOut plan.deadline now ∧ plan.deadline ≤ now)
  | _ => False

/-- The plan of a wait that begins when the park clock stands at `start`. -/
def startingAt (start : Int) (clock : Clock) (deadline : Time) (offset : Int) : Plan :=
  let limit := max start (deadline.totalNanos - offset)
  { clock, deadline, offset, limit, parks := clock.parks (limit - start).toNat }

theorem onTime_startingAt (t : ThreadId) (m : Machine σ κ ε) (clock : Clock) (deadline : Time)
    (offset : Int) : (startingAt m.mono clock deadline offset).OnTime t m []
      (.reading { clock, deadline }) := by
  refine ⟨⟨rfl, rfl⟩, Int.le_max_left .., ?_, Nat.zero_add _⟩
  rcases Int.le_total (deadline.totalNanos - offset) m.mono with hle | hle
  · exact .inl (Int.max_eq_left hle).symm
  · exact .inr ⟨rfl, Int.max_eq_right hle⟩

theorem OnTime.within (h : plan.OnTime t m es stage) : Within t plan.limit m stage := by
  match stage, h with
  | .reading _, h => exact h.2.1
  | .woken false (some _), h => exact h.le
  | .parking (some (timer, p)), h => exact Int.le_trans (by omega) h.le
  | .queued (some _), ⟨u, hu, h⟩ => exact ⟨u, hu, h.le⟩
  | .woken true (some _), h => exact h
  | .leaving _, h => exact h.1

/-- A reading of a clock in step: it has reached the deadline at the limit, and before that it
leads to a park on the way there. -/
theorem OnTime.read {timer : Timer} (h : plan.OnTime t m es (.reading timer))
    (hle : plan.deadline.totalNanos - plan.offset ≤ plan.limit)
    (hstep : InStep plan.clock plan.offset m) (hmono : m'.mono = m.mono) :
    plan.OnTime t m' (es ++ [.read t (m.clocks.now m.mono timer.clock)])
      (.ofPass timer (timer.pass (m.clocks.now m.mono timer.clock))) := by
  obtain ⟨hfor, hlimit, hcase, hcount⟩ := h
  obtain ⟨now, hnow, hstep⟩ := hstep
  have hparks : Machine.parks t (es ++ [.read t (.ok now)]) = Machine.parks t es := by
    simp [Machine.parks, attempts_concat_read]
  rw [hfor.1, hnow, Timer.pass, hfor.2]
  by_cases hlate : plan.deadline ≤ now
  · have hover := Time.le_iff_totalNanos.mp hlate
    have hend : m.mono = plan.limit := by omega
    rw [if_pos hlate]
    refine ⟨by omega, .inr ⟨by omega, ?_, now, rfl, hlate⟩⟩
    rw [hend, Int.sub_self] at hcount
    rw [hparks]
    exact hcount
  · have hahead := Time.not_le.mp hlate
    have hlt := Time.lt_iff_totalNanos.mp hahead
    obtain ⟨hretries, heq⟩ : timer.retries = 0 ∧
        plan.limit = plan.deadline.totalNanos - plan.offset := by
      rcases hcase with hend | hcase
      · omega
      · exact hcase
    have hleft : (plan.limit - m.mono).toNat =
        (plan.deadline.durationSince now).totalNanos := by
      have hdistance := Time.totalNanos_durationSince plan.deadline now
      omega
    rw [if_neg hlate, hretries, if_neg (Nat.not_lt_zero _), hfor.1]
    rw [hleft, Clock.parks_eq_add_one (Time.durationSince_pos hahead)] at hcount
    obtain ⟨hlength, huncut⟩ := plan.clock.park_length (plan.deadline.durationSince now)
    refine ⟨hfor, hretries, heq, by omega, fun hcapped => ?_, ?_⟩
    · rw [huncut hcapped]
      omega
    · have hleft' : (plan.limit - (m'.mono +
          (plan.clock.park (plan.deadline.durationSince now)).length.totalNanos)).toNat =
            (plan.deadline.durationSince now).totalNanos -
              (plan.clock.park (plan.deadline.durationSince now)).length.totalNanos := by
        omega
      rw [hparks, hleft', ← hcount]
      omega

theorem OnTime.goes (hrange : plan.deadline.totalNanos - plan.offset ≤ lastInstant)
    (hle : plan.deadline.totalNanos - plan.offset ≤ plan.limit) (hpunctual : Punctual m)
    (hstep : InStep plan.clock plan.offset m) (hgoes : Goes t condvar m m' e stage stage')
    (h : plan.OnTime t m es stage) : plan.OnTime t m' (es ++ [e]) stage' := by
  have quiet (hr : ∀ r, e ≠ .read t r) (hp : e ≠ .parked t) :
      Machine.parks t (es ++ [e]) = Machine.parks t es := by
    rw [Machine.parks, (attempts_concat_of_not es hr hp).2]
    rfl
  cases hgoes with
  | stay hc hq hmono =>
      have hparks := quiet (fun _ he => hc (he ▸ rfl)) fun he => hc (he ▸ rfl)
      match stage, h with
      | .reading _, h | .woken false (some _), h | .parking (some _), h | .woken true (some _), h
      | .leaving _, h =>
          simp only [OnTime, hmono, hparks]
          exact h
      | .queued (some timed), _ => exact absurd rfl (hq _)
  | rest timed hc hmono hpark =>
      have hparks := quiet (fun _ he => hc (he ▸ rfl)) fun he => hc (he ▸ rfl)
      match timed, h with
      | some _, ⟨u, hu, h⟩ => exact ⟨u, hpark _ hu, hparks ▸ h⟩
  | read timer hmono => exact h.read hle hstep hmono
  | park timed hmono hpark =>
      match timed, h with
      | some (timer, p), h =>
          refine ⟨m.mono + p.length.totalNanos, ?_, ?_⟩
          · have hend : m.wakeAt p.length = some (m.mono + p.length.totalNanos) :=
              if_pos (Int.le_trans h.le (h.limit_eq ▸ hrange))
            exact hend ▸ hpark
          · have hparks : Machine.parks t (es ++ [.parked t]) = Machine.parks t es + 1 := by
              simp [Machine.parks, attempts_concat_parked]
            exact hparks ▸ h
  | notified timed result ht hmono =>
      match timed, h with
      | some _, ⟨u, ⟨q, hq⟩, h⟩ =>
          have hcurrent : m.mono ≤ u := hpunctual.current hq rfl
          exact Int.le_trans (Int.le_of_eq hmono) (Int.le_trans hcurrent h.le)
  | expired timed hpark =>
      obtain ⟨u, hu, h⟩ := h
      cases hpunctual.sound.parking.parkedUntil_unique hu hpark
      have hparks := quiet (fun _ he => nomatch he) fun he => nomatch he
      rw [OnTime, hparks]
      exact h
  | retake notified timed hmono =>
      have hparks := quiet (fun _ he => nomatch he) fun he => nomatch he
      match notified, timed, h with
      | true, some _, h => exact ⟨Int.le_trans (Int.le_of_eq hmono) h, .inl rfl⟩
      | false, some (timer, p), h =>
          refine ⟨h.isFor, hmono ▸ h.le, ?_, by rw [hparks, hmono]; exact h.counted⟩
          cases hcapped : p.capped with
          | false => exact .inl (hmono.trans (h.uncut hcapped))
          | true => exact .inr ⟨by rw [Timer.expired, if_pos hcapped]; exact h.retries, h.limit_eq⟩

end Plan

section

variable {call : Call κ} {cv : Condvar} {deadline entry : Time}

/-- In every timely run, on every clock: a wait whose clock reads `entry` when it registers and goes
along with the park clock from there, and that no notification wakes, times out when exactly the
time from `entry` to the deadline has passed, after as many parks as the clock makes of that time.
A notification before that makes it return at once. Where it runs out is where a single park for
all of that time would have ended. -/
theorem slicing_invisible {m₀ m₁ m₂ : Machine σ κ ε} {hs₀ hs : List (Machine σ κ ε × Cause)}
    (hfresh : Fresh m₀) (history₀ : History code m₀ hs₀ m₁)
    (hregisters : Registers code t call cv m₁ m₂) (hdeadline : call.deadline = some deadline)
    (hrange : m₂.mono + (deadline.totalNanos - entry.totalNanos) ≤ lastInstant)
    (history : History code m₂ hs m)
    (hstep : ∀ x ∈ hs, InStep cv.clock (entry.totalNanos - m₂.mono) x.1) :
    (entry < deadline → m₂.wakeAt (deadline.durationSince entry) =
      some (m₂.mono + (deadline.durationSince entry).totalNanos)) ∧
    ((∃ stage, Underway code t call hs m stage ∧
        m.mono ≤ m₂.mono + (deadline.durationSince entry).totalNanos ∧
        (∀ instant ∈ told code t hs, instant = m.mono) ∧
        (Settled code m → told code t hs = [] ∧
          m.mono < m₂.mono + (deadline.durationSince entry).totalNanos)) ∨
      ∃ before m₃ how, Returns code t call hs before m₃ how ∧
        (how = .notified ∧ told code t before = [m₃.mono] ∧
            m₃.mono ≤ m₂.mono + (deadline.durationSince entry).totalNanos ∨
          (∃ now, how = .timedOut deadline now ∧ deadline ≤ now) ∧ told code t before = [] ∧
            m₃.mono = m₂.mono + (deadline.durationSince entry).totalNanos ∧
            parks t (events code before) =
              cv.clock.parks (deadline.durationSince entry).totalNanos)) := by
  let plan := Plan.startingAt m₂.mono cv.clock deadline (entry.totalNanos - m₂.mono)
  have hdistance := Time.totalNanos_durationSince deadline entry
  have hlimit : plan.limit = m₂.mono + (deadline.durationSince entry).totalNanos := by
    change max _ _ = _
    omega
  have h₂ : Punctual m₂ := hregisters.punctual (history₀.punctual hfresh.punctual)
  have ht₂ := hregisters.registered
  rw [hdeadline] at ht₂
  have hparks : plan.parks = cv.clock.parks (deadline.durationSince entry).totalNanos := by
    change cv.clock.parks (plan.limit - m₂.mono).toNat = _
    rw [hlimit]
    congr 1
    omega
  rw [← hlimit, ← hparks]
  refine ⟨fun hahead => ?_, ?_⟩
  · rw [hlimit, wakeAt, if_pos]
    rw [Time.lt_iff_totalNanos] at hahead
    omega
  have hrange' : plan.deadline.totalNanos - plan.offset ≤ lastInstant := by
    change deadline.totalNanos - (entry.totalNanos - m₂.mono) ≤ lastInstant
    omega
  rcases history.follow (I := fun m es stage => plan.OnTime t m es stage) h₂ ht₂
    (registered_ne_entering _ _) hstep (Plan.onTime_startingAt ..)
    (fun hm _ hstep hgoes h => h.goes hrange' (Int.le_max_right ..) hm hstep hgoes) with
    ⟨stage, hway, hreg, h, htold⟩ | ⟨before, m₃, how, hret, h, htold⟩
  · have hdue : told code t hs = m.due stage := htold
    refine .inl ⟨stage, hway, h.within.mono_le (history.punctual h₂), fun instant hmem => ?_,
      fun hsettled => ⟨?_, h.within.lt_of_settled hway.thread hreg hsettled⟩⟩
    · rw [hdue] at hmem
      exact eq_of_mem_due hmem
    · obtain ⟨timed, rfl⟩ := hsettled.queued hway.thread hreg
      exact hdue
  · have hdue : told code t before = m₃.due (.leaving how) := htold
    refine .inr ⟨before, m₃, how, hret, ?_⟩
    rcases h.2 with rfl | ⟨hend, hparks, now, rfl, hlate⟩
    · exact .inl ⟨rfl, hdue, h.1⟩
    · exact .inr ⟨⟨now, rfl, hlate⟩, hdue, hend, hparks⟩

end

/-- A script that waits on the boot clock until one nanosecond after half a second. -/
def oddWait : Script.Place :=
  { condvar := 0, clock := .boottime, mutex := 0
    rest := [{ operation := .waitUntil (Time.new 0 500000001) }] }

/-- Two slices and a nanosecond take three parks, and the time-out comes at that nanosecond. -/
theorem slicing_invisible_of_two_slices : ∃ (m₀ m₁ m₂ m : ScriptMachine)
    (hs₀ hs before : List (ScriptMachine × Cause)) (call : Call Script.Place) (cv : Condvar)
    (entry : Time), Fresh m₀ ∧ History Script.code m₀ hs₀ m₁ ∧
    Registers Script.code 0 call cv m₁ m₂ ∧ cv.clock = .boottime ∧
    call.deadline = some (Time.new 0 500000001) ∧
    m₂.mono + ((Time.new 0 500000001).totalNanos - entry.totalNanos) ≤ lastInstant ∧
    History Script.code m₂ hs m ∧
    (∀ x ∈ hs, InStep cv.clock (entry.totalNanos - m₂.mono) x.1) ∧
    ∃ m₃ how, Returns Script.code 0 call hs before m₃ how ∧ how.result = .ok .timedOut ∧
      m₃.mono = 500000001 ∧ parks 0 (events Script.code before) = 3 := by
  have hfresh := World.fresh_start 0 0 0 0
  have spawned : History Script.code (World.start 0 0 0 0).machine _ _ :=
    (History.nil.snoc (.act (.bind none .boottime))).snoc (.act (.spawn oddWait))
  -- locks and waits
  have waits := spawned.trans (.of_course [.step 0, .step 0] rfl)
  obtain ⟨m₁, m₂, m, hs₀, hs, call, cv, history₀, hregisters, hclock, hdeadline, hmono, history,
      hquiet, hclocks, hover⟩ :
      ∃ (m₁ m₂ m : ScriptMachine) (hs₀ hs : List (ScriptMachine × Cause))
        (call : Call Script.Place) (cv : Condvar),
        History Script.code (World.start 0 0 0 0).machine hs₀ m₁ ∧
        Registers Script.code 0 call cv m₁ m₂ ∧ cv.clock = .boottime ∧
        call.deadline = some (Time.new 0 500000001) ∧ m₂.mono = 0 ∧
        History Script.code m₂ hs m ∧ told Script.code 0 hs = [] ∧
        (hs.all fun x => x.1.clocks.get .boottime = ⟨0, 0, 1, 1, none⟩ ∧ 0 ≤ x.1.mono ∧
          x.1.mono ≤ 500000001) ∧
        ∀ stage, m.threads[0]? ≠ some (call.thread stage) :=
    -- each park ends, its thread takes the mutex and reads its clock; then it parks or returns
    ⟨_, _, _, _, _, ⟨0, some (Time.new 0 500000001), _, 0⟩, ⟨.boottime, {}⟩, waits,
      ⟨rfl, rfl, rfl, rfl⟩, rfl, rfl, rfl, .of_course [.step 0, .step 0, .expire 0, .step 0,
        .step 0, .step 0, .expire 0, .step 0, .step 0, .step 0, .expire 0, .step 0, .step 0,
        .step 0] rfl, rfl, rfl, fun _ => nofun⟩
  have hstep : ∀ x ∈ hs, InStep cv.clock (Time.zero.totalNanos - m₂.mono) x.1 := by
    intro x hx
    obtain ⟨hget, hle, hlt⟩ := of_decide_eq_true (List.all_eq_true.mp hclocks x hx)
    have hzero : Time.zero.totalNanos = 0 := by decide
    have hlow : Time.earliest.totalNanos ≤ 0 := by decide
    have hhigh : 500000001 ≤ Time.max.totalNanos := by decide
    rw [hclock, hmono]
    exact inStep_of_rate_one hget (by omega) (by omega)
  have hdistance : ((Time.new 0 500000001).durationSince Time.zero).totalNanos = 500000001 := by
    decide
  have hrange : m₂.mono + ((Time.new 0 500000001).totalNanos - Time.zero.totalNanos) ≤
      lastInstant := by
    rw [hmono]
    decide
  obtain ⟨-, ⟨stage, hway, -⟩ | ⟨before, m₃, how, hret, hend⟩⟩ :=
    slicing_invisible hfresh history₀ hregisters hdeadline hrange history hstep
  · exact absurd hway.thread (hover stage)
  · rw [hmono, hclock, hdistance] at hend
    rcases hend with ⟨-, htold, -⟩ | ⟨⟨now, htimedOut, -⟩, -, hend, hparks⟩
    · -- no notification woke the thread
      obtain ⟨after, rfl⟩ := hret.move
      rw [told_append, htold] at hquiet
      cases hquiet
    · exact ⟨_, m₁, m₂, m, hs₀, hs, before, call, cv, Time.zero, hfresh, history₀, hregisters,
        hclock, hdeadline, hrange, history, hstep, m₃, how, hret, by rw [htimedOut]; rfl, hend,
        hparks⟩

end Machine

end TimedCondvar
