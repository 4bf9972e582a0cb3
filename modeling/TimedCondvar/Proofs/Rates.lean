import Mathlib.Tactic.Linarith
import Mathlib.Tactic.Ring
import TimedCondvar.Proofs.Slices

/-!
Waits on a clock that runs at a rate of its own. A park that is not cut is for all the time left by
its clock, so if the clock is half as fast as the park clock or faster, at least half of that time
is gone when the park is over. Rounding plays no part in this if the time left is counted exactly,
in parts of a nanosecond: that is the gap. From a slice on it takes thirty parks until no gap is left,
and a wait may retry more often than that.
-/

namespace TimedCondvar

namespace VirtualClock

/-- The time from the instant `i` of the park clock until the clock reaches the deadline, without
rounding, in parts of a nanosecond as many as the denominator of the rate. -/
def gap (c : VirtualClock) (deadline : Time) (i : Int) : Int :=
  (deadline.totalNanos - c.base) * c.den - (i - c.anchor) * c.num

/-- The clock runs at half the rate of the park clock or faster. -/
structure HalfFast (c : VirtualClock) : Prop where
  den_pos : 0 < c.den
  half_le : c.den ≤ 2 * c.num

variable {c : VirtualClock} {deadline : Time} {i length : Int}

theorem HalfFast.num_nonneg (h : c.HalfFast) : 0 ≤ c.num := by
  have hpos := h.den_pos
  have hhalf := h.half_le
  omega

theorem gap_add (c : VirtualClock) (deadline : Time) (i length : Int) :
    c.gap deadline (i + length) = c.gap deadline i - length * c.num := by
  simp only [gap]
  ring

/-- The time left by the clock is the gap, rounded up to nanoseconds. -/
theorem gap_bounds (h : 0 < c.den) (deadline : Time) (i : Int) :
    c.gap deadline i ≤ (deadline.totalNanos - c.reading i) * c.den ∧
      (deadline.totalNanos - c.reading i - 1) * c.den < c.gap deadline i := by
  rw [gap, reading, Int.fdiv_eq_ediv_of_nonneg _ (Int.le_of_lt h)]
  have hle := Int.ediv_mul_le ((i - c.anchor) * c.num) (Int.ne_of_gt h)
  have hlt := Int.lt_ediv_add_one_mul_self ((i - c.anchor) * c.num) h
  constructor <;> linarith

theorem gap_pos_iff (h : 0 < c.den) :
    0 < c.gap deadline i ↔ c.reading i < deadline.totalNanos := by
  obtain ⟨hle, hlt⟩ := c.gap_bounds h deadline i
  constructor <;> intro hpos <;> nlinarith

/-- A park for all the time left halves the gap, and takes half a nanosecond off it at least. -/
theorem gap_of_park (h : c.HalfFast) (hpos : 0 < c.gap deadline i)
    (hall : length = deadline.totalNanos - c.reading i) :
    2 * c.gap deadline (i + length) ≤ c.gap deadline i ∧
      2 * c.gap deadline (i + length) ≤ 2 * c.gap deadline i - c.den := by
  have hlength : 1 ≤ length := by
    have := (gap_pos_iff h.den_pos).mp hpos
    omega
  have hle := (c.gap_bounds h.den_pos deadline i).1
  have hgone : length * c.den ≤ length * (2 * c.num) :=
    Int.mul_le_mul_of_nonneg_left h.half_le (by omega)
  have hone : 1 * c.den ≤ length * c.den :=
    Int.mul_le_mul_of_nonneg_right hlength (Int.le_of_lt h.den_pos)
  rw [← hall] at hle
  rw [gap_add]
  constructor <;> linarith

/-- A clock that is not faster than the park clock does not pass the deadline in a park. -/
theorem reading_le_of_park (h : c.HalfFast) (hslow : c.num ≤ c.den)
    (hnonneg : 0 ≤ length) (hle : length ≤ deadline.totalNanos - c.reading i) :
    c.reading (i + length) ≤ deadline.totalNanos := by
  have hlow := (c.gap_bounds h.den_pos deadline i).2
  have hhigh := (c.gap_bounds h.den_pos deadline (i + length)).1
  have hgone : length * c.num ≤ length * c.den := Int.mul_le_mul_of_nonneg_left hslow hnonneg
  have hleft : length * c.den ≤ (deadline.totalNanos - c.reading i) * c.den :=
    Int.mul_le_mul_of_nonneg_right hle (Int.le_of_lt h.den_pos)
  rw [gap_add] at hhigh
  have hback : (-1) * c.den < (deadline.totalNanos - c.reading (i + length)) * c.den := by linarith
  have := lt_of_mul_lt_mul_right hback (Int.le_of_lt h.den_pos)
  omega

end VirtualClock

/-- Bounds on what is left, in halves of a nanosecond: a step down halves the bound, and the last
one leaves nothing. -/
def reach : Nat → Nat
  | 0 => 0
  | 1 => 1
  | n + 2 => 2 * reach (n + 1)

@[simp] theorem reach_zero : reach 0 = 0 := rfl

@[simp] theorem reach_one : reach 1 = 1 := rfl

theorem reach_add_two (n : Nat) : reach (n + 2) = 2 * reach (n + 1) := rfl

/-- Thirty steps come down from a slice. -/
theorem slice_le_reach : parkSlice.totalNanos ≤ reach 29 := by
  decide

namespace Machine

variable {σ κ ε : Type} {code : κ → Command σ κ ε} {m m' : Machine σ κ ε} {t : ThreadId}
  {condvar : CondvarId} {stage stage' : Stage} {e : Event}

/-- The clock reads what its course has it read, and a park upon that reading has an end. -/
def Follows (clock : Clock) (course : VirtualClock) (deadline : Time) (m : Machine σ κ ε) : Prop :=
  ∃ now, m.clocks.now m.mono clock = .ok now ∧ now.totalNanos = course.reading m.mono ∧
    (now < deadline →
      m.mono + (clock.park (deadline.durationSince now)).length.totalNanos ≤ lastInstant)

/-- A clock without a fault follows its course as long as the readings are times. -/
theorem follows_of_get {clock : Clock} {course : VirtualClock} {deadline : Time}
    (h : m.clocks.get clock = course) (hfault : course.fault = none)
    (hle : Time.earliest.totalNanos ≤ course.reading m.mono)
    (hlt : course.reading m.mono ≤ Time.max.totalNanos)
    (hrange : m.mono + (deadline.totalNanos - course.reading m.mono) ≤ lastInstant) :
    Follows clock course deadline m := by
  obtain ⟨now, hnow, hreading⟩ := clock.now_of_nanos hle hlt
  refine ⟨now, ?_, hreading, fun hahead => ?_⟩
  · rw [Clocks.now, h, VirtualClock.reply, hfault]
    exact hnow
  · have hlength := (clock.park_length (deadline.durationSince now)).1
    have hdistance := Time.totalNanos_durationSince deadline now
    rw [Time.lt_iff_totalNanos] at hahead
    omega

/-- A wait that comes closer to its deadline with each park, and what it is to stay within: `limit`
on the park clock, and `latest` on its own clock if that is not the faster one. -/
structure Chase where
  clock : Clock
  course : VirtualClock
  deadline : Time
  limit : Int
  latest : Int

namespace Chase

variable {chase : Chase}

/-- A timer that has paid for as many steps down as the gap is small. -/
def Paid (chase : Chase) (timer : Timer) (i : Int) : Prop :=
  timer.retries = 0 ∨ ∃ n, timer.retries + n = 30 ∧
    2 * chase.course.gap chase.deadline i ≤ reach n * chase.course.den

/-- The timer that the wait goes on with when the park clock stands at `i`. -/
structure OnWay (chase : Chase) (timer : Timer) (i : Int) : Prop where
  isFor : timer.IsFor chase.clock chase.deadline
  le : i ≤ chase.limit
  near : i * chase.course.den + 2 * chase.course.gap chase.deadline i ≤
    chase.limit * chase.course.den
  paid : chase.Paid timer i
  notPast : chase.course.num ≤ chase.course.den → chase.course.reading i ≤ chase.latest

/-- As long as there is a gap, the budget is not spent. -/
theorem OnWay.retries_lt {timer : Timer} {i : Int} (h : chase.OnWay timer i)
    (hpos : 0 < chase.course.gap chase.deadline i) : timer.retries < 30 := by
  rcases h.paid with hzero | ⟨n, hn, hgap⟩
  · omega
  · cases n with
    | zero =>
        simp only [reach_zero] at hgap
        omega
    | succ n => omega

/-- A park for no more than all the time left ends by `limit`. -/
theorem OnWay.le_of_park {timer : Timer} {i length : Int} (h : chase.OnWay timer i)
    (hhalf : chase.course.HalfFast) (hpos : 0 < chase.course.gap chase.deadline i)
    (hle : length ≤ chase.deadline.totalNanos - chase.course.reading i) :
    i + length ≤ chase.limit := by
  have hnear := h.near
  have hgap := (VirtualClock.gap_bounds hhalf.den_pos chase.deadline i).2
  have hahead := (VirtualClock.gap_pos_iff hhalf.den_pos).mp hpos
  have hlt : (i + 2 * (chase.deadline.totalNanos - chase.course.reading i - 1)) *
      chase.course.den < chase.limit * chase.course.den := by linarith
  have hend := lt_of_mul_lt_mul_right hlt (Int.le_of_lt hhalf.den_pos)
  omega

/-- A park that is not cut pays for one step down. -/
theorem OnWay.paid_of_uncut {timer : Timer} {i length : Int} (h : chase.OnWay timer i)
    (hhalf : chase.course.HalfFast) (hpos : 0 < chase.course.gap chase.deadline i)
    (hall : length = chase.deadline.totalNanos - chase.course.reading i)
    (hslice : length ≤ parkSlice.totalNanos) :
    chase.Paid { timer with retries := timer.retries + 1 } (i + length) := by
  obtain ⟨hhalved, hless⟩ := VirtualClock.gap_of_park hhalf hpos hall
  apply Or.inr
  rcases h.paid with hzero | ⟨n, hn, hgap⟩
  · -- the first park of its kind is for a slice at most
    refine ⟨29, ?_, ?_⟩
    · show timer.retries + 1 + 29 = 30
      omega
    · have hleft := (VirtualClock.gap_bounds hhalf.den_pos chase.deadline i).1
      have hreach : length ≤ reach 29 := by
        have hle := slice_le_reach
        omega
      rw [← hall] at hleft
      calc 2 * chase.course.gap chase.deadline (i + length)
          ≤ length * chase.course.den := Int.le_trans hhalved hleft
        _ ≤ reach 29 * chase.course.den :=
          Int.mul_le_mul_of_nonneg_right hreach (Int.le_of_lt hhalf.den_pos)
  · match n with
    | 0 =>
        simp only [reach_zero] at hgap
        omega
    | 1 =>
        refine ⟨0, hn, ?_⟩
        simp only [reach_one, reach_zero] at hgap ⊢
        omega
    | n + 2 =>
        refine ⟨n + 1, by rw [← hn]; exact Nat.add_right_comm .., ?_⟩
        rw [reach_add_two] at hgap
        push_cast at hgap
        linarith

/-- A park comes closer to the deadline, on either clock. -/
theorem OnWay.park {timer : Timer} {i : Int} {now : Time} (h : chase.OnWay timer i)
    (hclock : chase.clock ≠ .monotonic) (hhalf : chase.course.HalfFast)
    (hlatest : chase.deadline.totalNanos ≤ chase.latest)
    (hnow : now.totalNanos = chase.course.reading i) (hahead : now < chase.deadline) :
    chase.OnWay (timer.expired (chase.clock.park (chase.deadline.durationSince now)))
      (i + (chase.clock.park (chase.deadline.durationSince now)).length.totalNanos) := by
  have hpos : 0 < chase.course.gap chase.deadline i := by
    rw [VirtualClock.gap_pos_iff hhalf.den_pos, ← hnow]
    exact Time.lt_iff_totalNanos.mp hahead
  have hdistance := Time.totalNanos_durationSince chase.deadline now
  have hleft : ((chase.deadline.durationSince now).totalNanos : Int) =
      chase.deadline.totalNanos - chase.course.reading i := by
    rw [Time.lt_iff_totalNanos] at hahead
    omega
  have hlength := (chase.clock.park_length (chase.deadline.durationSince now)).1
  generalize hpark : chase.clock.park (chase.deadline.durationSince now) = p at hlength ⊢
  have hle : (p.length.totalNanos : Int) ≤ chase.deadline.totalNanos - chase.course.reading i := by
    omega
  refine ⟨h.isFor, h.le_of_park hhalf hpos hle, ?_, ?_, fun hslow => ?_⟩
  · have hgone : p.length.totalNanos * chase.course.den ≤
        p.length.totalNanos * (2 * chase.course.num) :=
      Int.mul_le_mul_of_nonneg_left hhalf.half_le (Int.natCast_nonneg _)
    have hnear := h.near
    rw [VirtualClock.gap_add]
    linarith
  · rcases chase.clock.park_eq (chase.deadline.durationSince now) with
      ⟨huncut, hslice⟩ | ⟨-, -, hcut⟩
    · obtain rfl := hpark.symm.trans huncut
      exact h.paid_of_uncut hhalf hpos hleft (Int.ofNat_le.mpr (hslice hclock))
    · obtain rfl := hpark.symm.trans hcut
      -- the budget is not touched, and the gap does not grow
      have hgone : 0 ≤ (parkSlice.totalNanos : Int) * chase.course.num :=
        Int.mul_nonneg (Int.natCast_nonneg _) hhalf.num_nonneg
      rcases h.paid with hzero | ⟨n, hn, hgap⟩
      · exact .inl hzero
      · refine .inr ⟨n, hn, ?_⟩
        rw [VirtualClock.gap_add]
        linarith
  · exact Int.le_trans
      (VirtualClock.reading_le_of_park hhalf hslow (Int.natCast_nonneg _) hle) hlatest

/-- A wait on its way, at each stage. A park ends where the timer that goes on from it is again on
its way. -/
def Holds (chase : Chase) (t : ThreadId) (m : Machine σ κ ε) : Stage → Prop
  | .reading timer => chase.OnWay timer m.mono
  | .parking (some (timer, p)) =>
      chase.OnWay (timer.expired p) (m.mono + p.length.totalNanos) ∧
        m.mono + p.length.totalNanos ≤ lastInstant
  | .queued (some (timer, p)) =>
      ∃ u, m.ParkedUntil t (some u) ∧ chase.OnWay (timer.expired p) u
  | .woken false (some (timer, p)) => chase.OnWay (timer.expired p) m.mono
  | .woken true (some _) => m.mono ≤ chase.limit
  | .leaving how => m.mono ≤ chase.limit ∧ (how = .notified ∨
      ∃ now, how = .timedOut chase.deadline now ∧ chase.deadline ≤ now ∧
        (chase.course.num ≤ chase.course.den → now.totalNanos ≤ chase.latest))
  | _ => False

theorem Holds.within (h : chase.Holds t m stage) : Within t chase.limit m stage := by
  match stage, h with
  | .reading _, h | .woken false (some _), h => exact h.le
  | .parking (some (timer, p)), h => exact Int.le_trans (by omega) h.1.le
  | .queued (some _), ⟨u, hu, h⟩ => exact ⟨u, hu, h.le⟩
  | .woken true (some _), h => exact h
  | .leaving _, h => exact h.1

/-- A reading before the deadline leads to a park, since the budget is not spent. -/
theorem Holds.read {timer : Timer} (h : chase.Holds t m (.reading timer))
    (hclock : chase.clock ≠ .monotonic) (hhalf : chase.course.HalfFast)
    (hlatest : chase.deadline.totalNanos ≤ chase.latest)
    (hfollows : Follows chase.clock chase.course chase.deadline m) (hmono : m'.mono = m.mono) :
    chase.Holds t m' (.ofPass timer (timer.pass (m.clocks.now m.mono timer.clock))) := by
  obtain ⟨now, hnow, hreading, hrange⟩ := hfollows
  have hway : chase.OnWay timer m.mono := h
  rw [hway.isFor.1, hnow, Timer.pass, hway.isFor.2]
  by_cases hlate : chase.deadline ≤ now
  · rw [if_pos hlate]
    refine ⟨hmono ▸ hway.le, .inr ⟨now, rfl, hlate, fun hslow => ?_⟩⟩
    rw [hreading]
    exact hway.notPast hslow
  · have hahead := Time.not_le.mp hlate
    have hpos : 0 < chase.course.gap chase.deadline m.mono := by
      rw [VirtualClock.gap_pos_iff hhalf.den_pos, ← hreading]
      exact Time.lt_iff_totalNanos.mp hahead
    have hbudget : timer.retries ≤ clockSkewRetries :=
      Nat.le_trans (Nat.le_of_lt (hway.retries_lt hpos)) (by decide)
    rw [if_neg hlate, if_neg (Nat.not_lt.mpr hbudget), hway.isFor.1]
    simp only [Stage.ofPass, Holds, hmono]
    exact ⟨hway.park hclock hhalf hlatest hreading hahead, hrange hahead⟩

theorem Holds.goes (hclock : chase.clock ≠ .monotonic) (hhalf : chase.course.HalfFast)
    (hlatest : chase.deadline.totalNanos ≤ chase.latest) (hpunctual : Punctual m)
    (hfollows : Follows chase.clock chase.course chase.deadline m)
    (hgoes : Goes t condvar m m' e stage stage') (h : chase.Holds t m stage) :
    chase.Holds t m' stage' := by
  cases hgoes with
  | stay hc hq hmono =>
      match stage, h with
      | .reading _, h | .woken false (some _), h | .parking (some _), h | .woken true (some _), h
      | .leaving _, h =>
          simp only [Holds, hmono]
          exact h
      | .queued (some timed), _ => exact absurd rfl (hq _)
  | rest timed hc hmono hpark =>
      match timed, h with
      | some _, ⟨u, hu, h⟩ => exact ⟨u, hpark _ hu, h⟩
  | read timer hmono => exact h.read hclock hhalf hlatest hfollows hmono
  | park timed hmono hpark =>
      match timed, h with
      | some (timer, p), ⟨hway, hrange⟩ =>
          refine ⟨m.mono + p.length.totalNanos, ?_, hway⟩
          have hend : m.wakeAt p.length = some (m.mono + p.length.totalNanos) := if_pos hrange
          exact hend ▸ hpark
  | notified timed result ht hmono =>
      match timed, h with
      | some _, ⟨u, ⟨q, hq⟩, h⟩ =>
          have hcurrent : m.mono ≤ u := hpunctual.current hq rfl
          exact Int.le_trans (Int.le_of_eq hmono) (Int.le_trans hcurrent h.le)
  | expired timed hpark =>
      obtain ⟨u, hu, h⟩ := h
      cases hpunctual.sound.parking.parkedUntil_unique hu hpark
      exact h
  | retake notified timed hmono =>
      match notified, timed, h with
      | true, some _, h => exact ⟨Int.le_trans (Int.le_of_eq hmono) h, .inl rfl⟩
      | false, some (timer, p), h =>
          show chase.OnWay (timer.expired p) m'.mono
          rw [hmono]
          exact h

/-- The wait that begins when the park clock stands at `start`: it is over once twice the time left
by its clock is gone. -/
def startingAt (start : Int) (clock : Clock) (course : VirtualClock) (deadline : Time) : Chase where
  clock := clock
  course := course
  deadline := deadline
  limit := start + 2 * max 0 (deadline.totalNanos - course.reading start)
  latest := max (course.reading start) deadline.totalNanos

theorem onWay_startingAt (start : Int) (clock : Clock) {course : VirtualClock} (deadline : Time)
    (hpos : 0 < course.den) :
    (startingAt start clock course deadline).OnWay { clock, deadline } start := by
  have hgap := (VirtualClock.gap_bounds hpos deadline start).1
  have hleft : (deadline.totalNanos - course.reading start) * course.den ≤
      max 0 (deadline.totalNanos - course.reading start) * course.den :=
    Int.mul_le_mul_of_nonneg_right (Int.le_max_right ..) (Int.le_of_lt hpos)
  refine ⟨⟨rfl, rfl⟩, ?_, ?_, .inl rfl, fun _ => Int.le_max_left ..⟩
  · show start ≤ start + 2 * max 0 (deadline.totalNanos - course.reading start)
    omega
  · show start * course.den + 2 * course.gap deadline start ≤
      (start + 2 * max 0 (deadline.totalNanos - course.reading start)) * course.den
    linarith

end Chase

section

variable {call : Call κ} {cv : Condvar} {deadline : Time} {course : VirtualClock}

/-- In every timely run: a wait whose clock is not the park clock, and runs at half its rate or
faster, returns once twice the time left by its clock at its registration is gone. It is told to by
a notification, or has timed out. It never gives up. If its clock is not faster than the park clock,
it times out when its clock reads the deadline, unless that had passed before. -/
theorem skew_budget_suffices {m₀ m₁ m₂ : Machine σ κ ε} {hs₀ hs : List (Machine σ κ ε × Cause)}
    (hfresh : Fresh m₀) (history₀ : History code m₀ hs₀ m₁)
    (hregisters : Registers code t call cv m₁ m₂) (hclock : cv.clock ≠ .monotonic)
    (hdeadline : call.deadline = some deadline) (hhalf : course.HalfFast)
    (history : History code m₂ hs m)
    (hfollows : ∀ x ∈ hs, Follows cv.clock course deadline x.1) :
    (∃ stage, Underway code t call hs m stage ∧
      m.mono ≤ m₂.mono + 2 * max 0 (deadline.totalNanos - course.reading m₂.mono) ∧
      (∀ instant ∈ told code t hs, instant = m.mono) ∧
      (Settled code m → told code t hs = [] ∧
        m.mono < m₂.mono + 2 * max 0 (deadline.totalNanos - course.reading m₂.mono))) ∨
    ∃ before m₃ how, Returns code t call hs before m₃ how ∧
      m₃.mono ≤ m₂.mono + 2 * max 0 (deadline.totalNanos - course.reading m₂.mono) ∧
      (how = .notified ∧ told code t before = [m₃.mono] ∨
        told code t before = [] ∧ ∃ now, how = .timedOut deadline now ∧ deadline ≤ now ∧
          (course.num ≤ course.den → course.reading m₂.mono ≤ deadline.totalNanos →
            now = deadline)) := by
  let chase := Chase.startingAt m₂.mono cv.clock course deadline
  have h₂ : Punctual m₂ := hregisters.punctual (history₀.punctual hfresh.punctual)
  have ht₂ := hregisters.registered
  rw [hdeadline] at ht₂
  rcases history.follow (I := fun m _ stage => chase.Holds t m stage) h₂ ht₂
    (registered_ne_entering _ _) hfollows (Chase.onWay_startingAt _ _ _ hhalf.den_pos)
    (fun hm _ hfollows hgoes h => h.goes hclock hhalf (Int.le_max_right ..) hm hfollows hgoes) with
    ⟨stage, hway, hreg, h, htold⟩ | ⟨before, m₃, how, hret, h, htold⟩
  · have hdue : told code t hs = m.due stage := htold
    refine .inl ⟨stage, hway, h.within.mono_le (history.punctual h₂), fun instant hmem => ?_,
      fun hsettled => ⟨?_, h.within.lt_of_settled hway.thread hreg hsettled⟩⟩
    · rw [hdue] at hmem
      exact eq_of_mem_due hmem
    · obtain ⟨timed, rfl⟩ := hsettled.queued hway.thread hreg
      exact hdue
  · have hdue : told code t before = m₃.due (.leaving how) := htold
    refine .inr ⟨before, m₃, how, hret, h.1, ?_⟩
    rcases h.2 with rfl | ⟨now, rfl, hlate, hlatest⟩
    · exact .inl ⟨rfl, hdue⟩
    · refine .inr ⟨hdue, now, rfl, hlate, fun hslow hentry => ?_⟩
      apply Time.totalNanos_injective
      have hnotPast : now.totalNanos ≤ max (course.reading m₂.mono) deadline.totalNanos :=
        hlatest hslow
      have hover : deadline.totalNanos ≤ now.totalNanos := Time.le_iff_totalNanos.mp hlate
      omega

end

/-- A script that waits on the boot clock until three nanoseconds. -/
def shortWait : Script.Place :=
  { condvar := 0, clock := .boottime, mutex := 0
    rest := [{ operation := .waitUntil (Time.new 0 3) }] }

/-- The clocks of a new world, the boot clock at half its rate. -/
def halfRate : Clocks :=
  (World.start 0 0 0 0).machine.clocks.modify (·.setRate 0 1 2) .boottime

/-- At half the rate it takes three parks to come to the third nanosecond, which is the sixth of the
park clock. -/
theorem skew_budget_suffices_at_half_rate : ∃ (m₀ m₁ m₂ m : ScriptMachine)
    (hs₀ hs before : List (ScriptMachine × Cause)) (call : Call Script.Place) (cv : Condvar)
    (course : VirtualClock), Fresh m₀ ∧ History Script.code m₀ hs₀ m₁ ∧
    Registers Script.code 0 call cv m₁ m₂ ∧ cv.clock = .boottime ∧
    call.deadline = some (Time.new 0 3) ∧ course.HalfFast ∧ course.num < course.den ∧
    History Script.code m₂ hs m ∧ (∀ x ∈ hs, Follows cv.clock course (Time.new 0 3) x.1) ∧
    ∃ m₃, Returns Script.code 0 call hs before m₃ (.timedOut (Time.new 0 3) (Time.new 0 3)) ∧
      m₃.mono ≤ 6 := by
  have hfresh := World.fresh_start 0 0 0 0
  have slowed : History Script.code (World.start 0 0 0 0).machine _ _ :=
    History.nil.snoc (.clocks halfRate)
  have spawned := (slowed.snoc (.act (.bind none .boottime))).snoc (.act (.spawn shortWait))
  -- locks and waits
  have waits := spawned.trans (.of_course [.step 0, .step 0] rfl)
  obtain ⟨m₁, m₂, m, hs₀, hs, call, cv, history₀, hregisters, hclock, hdeadline, hmono, history,
      hquiet, hclocks, hover⟩ :
      ∃ (m₁ m₂ m : ScriptMachine) (hs₀ hs : List (ScriptMachine × Cause))
        (call : Call Script.Place) (cv : Condvar),
        History Script.code (World.start 0 0 0 0).machine hs₀ m₁ ∧
        Registers Script.code 0 call cv m₁ m₂ ∧ cv.clock = .boottime ∧
        call.deadline = some (Time.new 0 3) ∧ m₂.mono = 0 ∧
        History Script.code m₂ hs m ∧ told Script.code 0 hs = [] ∧
        (hs.all fun x => x.1.clocks.get .boottime = ⟨0, 0, 1, 2, none⟩ ∧
          0 ≤ x.1.mono ∧ x.1.mono ≤ 6) ∧
        ∀ stage, m.threads[0]? ≠ some (call.thread stage) :=
    -- each park ends, its thread takes the mutex and reads its clock; then it parks or returns
    ⟨_, _, _, _, _, ⟨0, some (Time.new 0 3), _, 0⟩, ⟨.boottime, {}⟩, waits,
      ⟨rfl, rfl, rfl, rfl⟩, rfl, rfl, rfl, .of_course [.step 0, .step 0, .expire 0, .step 0,
        .step 0, .step 0, .expire 0, .step 0, .step 0, .step 0, .expire 0, .step 0, .step 0,
        .step 0] rfl, rfl, rfl, fun stage hthread => by cases hthread⟩
  have hfollows : ∀ x ∈ hs, Follows cv.clock ⟨0, 0, 1, 2, none⟩ (Time.new 0 3) x.1 := by
    intro x hx
    obtain ⟨hget, hle, hlt⟩ := of_decide_eq_true (List.all_eq_true.mp hclocks x hx)
    have hreading : VirtualClock.reading ⟨0, 0, 1, 2, none⟩ x.1.mono = x.1.mono / 2 := by
      rw [VirtualClock.reading, Int.fdiv_eq_ediv_of_nonneg _ (by decide)]
      dsimp only
      omega
    have hlow : Time.earliest.totalNanos ≤ 0 := by decide
    have hhigh : 6 ≤ Time.max.totalNanos := by decide
    have hthree : (Time.new 0 3).totalNanos = 3 := by decide
    rw [hclock]
    apply follows_of_get hget rfl <;> rw [hreading]
    · omega
    · omega
    · show x.1.mono + ((Time.new 0 3).totalNanos - x.1.mono / 2) ≤ Time.max.totalNanos
      omega
  have hhalf : VirtualClock.HalfFast ⟨0, 0, 1, 2, none⟩ := ⟨by decide, by decide⟩
  have hclock' : cv.clock ≠ .monotonic := by
    rw [hclock]
    decide
  rcases skew_budget_suffices hfresh history₀ hregisters hclock' hdeadline hhalf history
    hfollows with ⟨stage, hway, -⟩ | ⟨before, m₃, how, hret, hle, hend⟩
  · exact absurd hway.thread (hover stage)
  · rw [hmono] at hle hend
    rcases hend with ⟨-, htold⟩ | ⟨-, now, rfl, -, hexact⟩
    · -- no notification woke the thread
      obtain ⟨after, rfl⟩ := hret.move
      rw [told_append, htold] at hquiet
      cases hquiet
    · obtain rfl := hexact (by decide) (by decide)
      exact ⟨_, m₁, m₂, m, hs₀, hs, before, call, cv, _, hfresh, history₀, hregisters, hclock,
        hdeadline, hhalf, by decide, history, hfollows, m₃, hret, hle⟩

end Machine

end TimedCondvar
