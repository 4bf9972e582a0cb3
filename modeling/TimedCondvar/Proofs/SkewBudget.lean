import TimedCondvar.Proofs.Distances
import TimedCondvar.Proofs.Notifications

/-!
How often a timed wait parks again. A park that runs out before the bound clock has reached the
deadline is paid from a budget, unless it was cut to a slice. So the readings of a wait tell what is
left of the budget: `Timer.uncut` says of a reading whether the park behind it was for all the time
left, and the timer counts those readings and no others. The wait gives up at the first reading that
finds the budget spent, and for no other reason.
-/

namespace TimedCondvar

namespace Timer

/-- Whether a wait that parks upon this reading parks for all the time left. -/
def uncut (clock : Clock) (deadline : Time) : Except ClockError Time → Bool
  | .ok now => !(clock.park (deadline.durationSince now)).capped
  | .error _ => false

/-- The timer of a wait whose parks, one behind each of the readings, have all run out. -/
def behind (clock : Clock) (deadline : Time) (rs : List (Except ClockError Time)) : Timer :=
  ⟨clock, deadline, rs.countP (uncut clock deadline)⟩

/-- Readings upon which a wait parked: the budget was not spent before any of them. -/
structure Paid (clock : Clock) (deadline : Time) (rs : List (Except ClockError Time)) : Prop where
  ok : ∀ r ∈ rs, ∃ now, r = .ok now
  before_le : rs.dropLast.countP (uncut clock deadline) ≤ clockSkewRetries

variable {clock : Clock} {deadline : Time} {rs : List (Except ClockError Time)}
  {r : Except ClockError Time} {p : Park} {how : WaitEnd}

theorem uncut_of_pass (h : (behind clock deadline rs).pass r = .park p) :
    uncut clock deadline r = !p.capped := by
  obtain ⟨now, rfl, -, rfl⟩ := exists_park_of_pass h
  rfl

/-- A park that runs out is counted if it was not cut. -/
theorem expired_behind (h : (behind clock deadline rs).pass r = .park p) :
    (behind clock deadline rs).expired p = behind clock deadline (rs ++ [r]) := by
  simp only [behind, expired, List.countP_append, List.countP_singleton, uncut_of_pass h]
  cases p.capped <;> rfl

theorem retries_le_of_pass (h : (behind clock deadline rs).pass r = .park p) :
    rs.countP (uncut clock deadline) ≤ clockSkewRetries := by
  obtain ⟨now, rfl, -, -⟩ := exists_park_of_pass h
  rw [pass] at h
  split at h
  · cases h
  · split at h
    · cases h
    · rename_i hspent
      exact Nat.le_of_not_lt hspent

theorem Paid.nil : Paid clock deadline [] := ⟨by simp, by simp⟩

theorem Paid.concat (hpaid : Paid clock deadline rs)
    (h : (behind clock deadline rs).pass r = .park p) : Paid clock deadline (rs ++ [r]) := by
  refine ⟨?_, ?_⟩
  · intro r' hr'
    rcases List.mem_append.mp hr' with hr' | hr'
    · exact hpaid.ok r' hr'
    · obtain ⟨now, hnow, -, -⟩ := exists_park_of_pass h
      exact ⟨now, (List.mem_singleton.mp hr').trans hnow⟩
  · rw [List.dropLast_concat]
    exact retries_le_of_pass h

/-- One park more than the retries can be paid. -/
theorem Paid.countP_le (h : Paid clock deadline rs) :
    rs.countP (uncut clock deadline) ≤ clockSkewRetries + 1 := by
  rcases List.eq_nil_or_concat rs with rfl | ⟨rs', r, rfl⟩
  · simp
  · have hle := h.before_le
    rw [List.concat_eq_append] at hle ⊢
    rw [List.dropLast_concat] at hle
    have hone : [r].countP (uncut clock deadline) ≤ 1 := List.countP_le_length
    rw [List.countP_append]
    omega

/-- A reading that ends a wait shows too much skew just if it is ahead of the deadline and the
budget is spent. -/
theorem result_signaled_of_finish (h : (behind clock deadline rs).pass r = .finish how) :
    how.result = .ok .signaled ↔
      (∃ now, r = .ok now ∧ now < deadline) ∧
        clockSkewRetries < rs.countP (uncut clock deadline) := by
  cases r with
  | error e =>
      cases h
      simp [WaitEnd.result]
  | ok now =>
      simp only [pass] at h
      split at h
      · rename_i hle
        cases h
        have hnot : ¬now < deadline := fun hlt => Time.not_le.mpr hlt hle
        simp [WaitEnd.result, hnot]
      · rename_i hlt
        split at h
        · rename_i hspent
          cases h
          have hnow : now < deadline := Time.not_le.mp hlt
          have hspent : clockSkewRetries < rs.countP (uncut clock deadline) := hspent
          simp [WaitEnd.result, hnow, hspent]
        · cases h

end Timer

open Timer

namespace Machine

variable {σ κ ε : Type}

/-! ### What a wait has done

The readings of a wait, and how often it parked, its parks ran out and it was notified. -/

/-- How often a park of thread `t` ran out. -/
def expiries (t : ThreadId) (es : List Event) : Nat := es.count (.expired t)

structure Account where
  readings : List (Except ClockError Time)
  parks : Nat
  expiries : Nat
  wakeups : Nat

def account (t : ThreadId) (es : List Event) : Account :=
  ⟨readings t es, parks t es, expiries t es, wakeups t es⟩

section

variable {t : ThreadId} {e : Event} (es : List Event)

theorem account_concat_of_not (h : ¬e.Concerns t) : account t (es ++ [e]) = account t es := by
  cases e with
  | silent => simp [account, readings, parks, attempts, expiries, wakeups]
  | woke condvar threads result =>
      have ht : t ∉ threads := h
      simp [account, readings, parks, attempts, expiries, wakeups, ht]
  | read u r =>
      have hu : u ≠ t := h
      simp [account, readings, parks, attempts, expiries, wakeups, hu]
  | parked u =>
      have hu : u ≠ t := h
      simp [account, readings, parks, attempts, expiries, wakeups, hu]
  | expired u =>
      have hu : u ≠ t := h
      simp [account, readings, parks, attempts, expiries, wakeups, hu]
  | returned u condvar how => simp [account, readings, parks, attempts, expiries, wakeups]

theorem account_concat_read (r : Except ClockError Time) : account t (es ++ [.read t r]) =
    { account t es with readings := (account t es).readings ++ [r] } := by
  simp [account, readings, parks, attempts, expiries, wakeups]

theorem account_concat_parked : account t (es ++ [.parked t]) =
    { account t es with parks := (account t es).parks + 1 } := by
  simp [account, readings, parks, attempts, expiries, wakeups]

theorem account_concat_expired : account t (es ++ [.expired t]) =
    { account t es with expiries := (account t es).expiries + 1 } := by
  simp [account, readings, parks, attempts, expiries, wakeups]

theorem account_concat_woke (condvar : CondvarId) {threads : List ThreadId} (result : WakeResult)
    (h : t ∈ threads) : account t (es ++ [.woke condvar threads result]) =
      { account t es with wakeups := (account t es).wakeups + 1 } := by
  simp [account, readings, parks, attempts, expiries, wakeups, h]

end

/-! ### The budget at every stage

All parks but the last have run out, and what they cost is what the timer has counted. A wait that
has read and not parked since stands behind a pass of that timer. -/

/-- The last reading of the wait led to a pass of its timer. -/
structure Passed (clock : Clock) (deadline : Time) (rs : List (Except ClockError Time))
    (rs' : List (Except ClockError Time)) (pass : Timer.Pass) : Prop where
  paid : Paid clock deadline rs'
  exists_reading : ∃ r, rs = rs' ++ [r] ∧ (behind clock deadline rs').pass r = pass

/-- What the account of a wait is at each stage. -/
def Budgeted (clock : Clock) (deadline : Time) (a : Account) : Stage → Prop
  | .reading timer => timer = behind clock deadline a.readings ∧ Paid clock deadline a.readings ∧
      a.parks = a.readings.length ∧ a.expiries = a.readings.length ∧ a.wakeups = 0
  | .parking (some (timer, p)) => ∃ rs, timer = behind clock deadline rs ∧
      Passed clock deadline a.readings rs (.park p) ∧
      a.parks = rs.length ∧ a.expiries = rs.length ∧ a.wakeups = 0
  | .queued (some (timer, p)) => ∃ rs, timer = behind clock deadline rs ∧
      Passed clock deadline a.readings rs (.park p) ∧
      a.parks = rs.length + 1 ∧ a.expiries = rs.length ∧ a.wakeups = 0
  | .woken notified (some (timer, p)) => ∃ rs, timer = behind clock deadline rs ∧
      Passed clock deadline a.readings rs (.park p) ∧ a.parks = rs.length + 1 ∧
      a.expiries = rs.length + (!notified).toNat ∧ a.wakeups = notified.toNat
  | .leaving how =>
      (how = .notified ∧ Paid clock deadline a.readings ∧ a.parks = a.readings.length ∧
        a.expiries + 1 = a.readings.length ∧ a.wakeups = 1) ∨
      ∃ rs, Passed clock deadline a.readings rs (.finish how) ∧
        a.parks = rs.length ∧ a.expiries = rs.length ∧ a.wakeups = 0
  | _ => False

section

variable {t : ThreadId} {clock : Clock} {deadline : Time} {stage stage' : Stage}
  {rs rs' : List (Except ClockError Time)} {p : Park}

theorem Passed.parked (h : Passed clock deadline rs rs' (.park p)) :
    Paid clock deadline rs ∧ rs.length = rs'.length + 1 ∧
      (behind clock deadline rs').expired p = behind clock deadline rs := by
  obtain ⟨hpaid, r, rfl, hpass⟩ := h
  exact ⟨hpaid.concat hpass, by simp, expired_behind hpass⟩

theorem Budgeted.moved {condvar : CondvarId} {e : Event} {es : List Event}
    (h : Budgeted clock deadline (account t es) stage) (hm : Moved t condvar e stage stage') :
    Budgeted clock deadline (account t (es ++ [e])) stage' := by
  cases hm with
  | stay hc =>
      rw [account_concat_of_not es hc]
      exact h
  | read timer r =>
      obtain ⟨rfl, hpaid, hparks, hexpiries, hwakeups⟩ := h
      rw [account_concat_read]
      generalize account t es = a at *
      cases hpass : (behind clock deadline a.readings).pass r with
      | park p =>
          exact ⟨a.readings, rfl, ⟨hpaid, r, rfl, hpass⟩, hparks, hexpiries, hwakeups⟩
      | finish how =>
          exact .inr ⟨a.readings, ⟨hpaid, r, rfl, hpass⟩, hparks, hexpiries, hwakeups⟩
  | park timed =>
      rw [account_concat_parked]
      cases timed with
      | none => exact h.elim
      | some timed =>
          obtain ⟨rs, htimer, hpassed, hparks, hexpiries, hwakeups⟩ := h
          exact ⟨rs, htimer, hpassed, congrArg (· + 1) hparks, hexpiries, hwakeups⟩
  | notified timed result ht =>
      rw [account_concat_woke es condvar result ht]
      cases timed with
      | none => exact h.elim
      | some timed =>
          obtain ⟨rs, htimer, hpassed, hparks, hexpiries, hwakeups⟩ := h
          exact ⟨rs, htimer, hpassed, hparks, hexpiries, congrArg (· + 1) hwakeups⟩
  | expired timed =>
      rw [account_concat_expired]
      obtain ⟨rs, htimer, hpassed, hparks, hexpiries, hwakeups⟩ := h
      exact ⟨rs, htimer, hpassed, hparks, congrArg (· + 1) hexpiries, hwakeups⟩
  | retake notified timed =>
      rw [account_concat_of_not es (e := .silent) nofun]
      cases timed with
      | none => exact h.elim
      | some timed =>
          obtain ⟨rs, htimer, hpassed, hparks, hexpiries, hwakeups⟩ := h
          obtain ⟨hpaid, hlength, hexpired⟩ := hpassed.parked
          cases notified with
          | true =>
              refine .inl ⟨rfl, hpaid, hparks.trans hlength.symm, ?_, hwakeups⟩
              rw [hexpiries, hlength]
              rfl
          | false =>
              refine ⟨?_, hpaid, hparks.trans hlength.symm, hexpiries.trans hlength.symm, hwakeups⟩
              rw [htimer, hexpired]

theorem Trace.budgeted {condvar : CondvarId} {es : List Event}
    (h : Trace t condvar (.reading { clock, deadline }) es stage) :
    Budgeted clock deadline (account t es) stage := by
  induction h with
  | nil => exact ⟨rfl, .nil, rfl, rfl, rfl⟩
  | snoc trace hm ih => exact ih.moved hm

variable {a : Account}

/-- Either all the parks behind the readings were paid for, or the last reading ended the wait. -/
theorem Budgeted.paid_or_over (h : Budgeted clock deadline a stage) :
    (Paid clock deadline a.readings ∧ a.parks ≤ a.readings.length) ∨
      ∃ how rs, stage = .leaving how ∧ Passed clock deadline a.readings rs (.finish how) ∧
        a.parks = rs.length ∧ a.expiries = rs.length ∧ a.wakeups = 0 := by
  match stage, h with
  | .reading _, ⟨_, hpaid, hparks, _, _⟩ => exact .inl ⟨hpaid, Nat.le_of_eq hparks⟩
  | .parking (some _), ⟨rs, _, hpassed, hparks, _, _⟩ =>
      obtain ⟨hpaid, hlength, -⟩ := hpassed.parked
      exact .inl ⟨hpaid, by omega⟩
  | .queued (some _), ⟨rs, _, hpassed, hparks, _, _⟩ =>
      obtain ⟨hpaid, hlength, -⟩ := hpassed.parked
      exact .inl ⟨hpaid, by omega⟩
  | .woken _ (some _), ⟨rs, _, hpassed, hparks, _, _⟩ =>
      obtain ⟨hpaid, hlength, -⟩ := hpassed.parked
      exact .inl ⟨hpaid, by omega⟩
  | .leaving how, .inl ⟨_, hpaid, hparks, _, _⟩ => exact .inl ⟨hpaid, Nat.le_of_eq hparks⟩
  | .leaving how, .inr ⟨rs, hpassed, hcounts⟩ => exact .inr ⟨how, rs, rfl, hpassed, hcounts⟩

/-- The parks for all the time left are one more than the retries at most. -/
theorem Budgeted.countP_parks_le (h : Budgeted clock deadline a stage) :
    (a.readings.take a.parks).countP (uncut clock deadline) ≤ clockSkewRetries + 1 := by
  rcases h.paid_or_over with ⟨hpaid, -⟩ | ⟨how, rs, -, ⟨hpaid, r, hr, -⟩, hparks, -⟩
  · exact Nat.le_trans ((List.take_sublist _ _).countP_le) hpaid.countP_le
  · rw [hr, hparks, List.take_left]
    exact hpaid.countP_le

/-- The budget is found spent: the park behind `last` was the last one it could pay, and the reading
after that park is still ahead of the deadline. -/
def FoundSpent (clock : Clock) (deadline : Time) (rs : List (Except ClockError Time)) : Prop :=
  ∃ before last now after, rs = before ++ last :: .ok now :: after ∧
    uncut clock deadline last = true ∧
    (before ++ [last]).countP (uncut clock deadline) = clockSkewRetries + 1 ∧ now < deadline

theorem foundSpent_of_passed {how : WaitEnd} (h : Passed clock deadline rs rs' (.finish how))
    (hresult : how.result = .ok .signaled) :
    rs'.countP (uncut clock deadline) = clockSkewRetries + 1 ∧ FoundSpent clock deadline rs := by
  obtain ⟨hpaid, r, rfl, hpass⟩ := h
  obtain ⟨⟨now, rfl, hnow⟩, hspent⟩ := (result_signaled_of_finish hpass).mp hresult
  have hcount : rs'.countP (uncut clock deadline) = clockSkewRetries + 1 :=
    Nat.le_antisymm hpaid.countP_le hspent
  refine ⟨hcount, ?_⟩
  rcases List.eq_nil_or_concat rs' with rfl | ⟨before, last, rfl⟩
  · cases hcount
  · rw [List.concat_eq_append] at *
    refine ⟨before, last, now, [], by simp, ?_, hcount, hnow⟩
    -- without the last park the budget would not be spent
    have hbefore := hpaid.before_le
    rw [List.dropLast_concat] at hbefore
    by_contra hcut
    simp [hcut] at hcount
    omega

theorem Budgeted.over_of_foundSpent (h : Budgeted clock deadline a stage)
    (hspent : FoundSpent clock deadline a.readings) :
    a.wakeups = 0 ∧ ∃ how, stage = .leaving how ∧ how.result = .ok .signaled := by
  obtain ⟨before, last, now, after, hreadings, -, hcount, hnow⟩ := hspent
  -- readings upon which the wait parked do not go on once the budget is spent
  have short {rs : List (Except ClockError Time)} (hpaid : Paid clock deadline rs)
      (hbefore : before ++ [last] <+: rs) : rs = before ++ [last] := by
    obtain ⟨rest, rfl⟩ := hbefore
    rcases List.eq_nil_or_concat rest with rfl | ⟨rest, r, rfl⟩
    · exact List.append_nil _
    · have hle := hpaid.before_le
      rw [List.concat_eq_append, ← List.append_assoc, List.dropLast_concat, List.countP_append,
        hcount] at hle
      omega
  rcases h.paid_or_over with ⟨hpaid, -⟩ | ⟨how, rs, rfl, ⟨hpaid, r, hr, hpass⟩, -, -, hwakeups⟩
  · have hall := short hpaid ⟨.ok now :: after, by simp [hreadings]⟩
    rw [hreadings] at hall
    simp at hall
  · rw [hr] at hreadings
    obtain ⟨hrs, rfl⟩ : rs = before ++ [last] ∧ r = .ok now := by
      rcases List.eq_nil_or_concat after with rfl | ⟨after, r', rfl⟩
      · have hsplit : rs ++ [r] = (before ++ [last]) ++ [.ok now] := by simp [hreadings]
        exact List.append_singleton_inj.mp hsplit
      · rw [List.concat_eq_append] at hreadings
        have hsplit : rs ++ [r] = (before ++ last :: .ok now :: after) ++ [r'] := by
          simp [hreadings]
        obtain ⟨hrs, -⟩ := List.append_singleton_inj.mp hsplit
        have hall := short hpaid ⟨.ok now :: after, by simp [hrs]⟩
        rw [hrs] at hall
        simp at hall
    refine ⟨hwakeups, how, rfl, (result_signaled_of_finish hpass).mpr ⟨⟨now, rfl, hnow⟩, ?_⟩⟩
    rw [hrs, hcount]
    omega

/-- On the park clock no park is cut, so each of them is paid for. -/
theorem Paid.length_le (h : Paid .monotonic deadline rs) : rs.length ≤ clockSkewRetries + 1 := by
  have hall : rs.countP (uncut .monotonic deadline) = rs.length := by
    rw [List.countP_eq_length]
    intro r hr
    obtain ⟨now, rfl⟩ := h.ok r hr
    rfl
  rw [← hall]
  exact h.countP_le

theorem Budgeted.length_le (h : Budgeted .monotonic deadline a stage) :
    a.parks ≤ clockSkewRetries + 1 ∧ a.readings.length ≤ clockSkewRetries + 2 ∧
      (a.readings.length = clockSkewRetries + 2 → ∃ how, stage = .leaving how) := by
  rcases h.paid_or_over with ⟨hpaid, hparks⟩ | ⟨how, rs, hstage, ⟨hpaid, r, hr, -⟩, hparks, -⟩
  · have hle := Paid.length_le hpaid
    refine ⟨by omega, by omega, fun hall => ?_⟩
    omega
  · have hle := Paid.length_le hpaid
    rw [hr, List.length_append, List.length_singleton, hparks]
    exact ⟨hle, Nat.succ_le_succ hle, fun _ => ⟨how, hstage⟩⟩

end

/-! ### Runs -/

/-- How often thread `t` parked for all the time left. -/
def uncutParks (clock : Clock) (deadline : Time) (t : ThreadId) (es : List Event) : Nat :=
  ((readings t es).take (parks t es)).countP (uncut clock deadline)

/-- How many of these parks ran out. -/
def uncutExpiries (clock : Clock) (deadline : Time) (t : ThreadId) (es : List Event) : Nat :=
  ((readings t es).take (expiries t es)).countP (uncut clock deadline)

variable {code : κ → Command σ κ ε} {t : ThreadId} {call : Call κ}

/-- In every run, from the step on with which a wait with a deadline registers and as long as it
has not returned: it parks for all the time left once more than it may retry at most, where each of
its parks is the one for the time left after its last reading. It is about to return as signaled
without having been notified just if all those parks have run out and the reading after the last
of them succeeded and is ahead of the deadline. Parks that were cut play no part in this. On the
park clock no park is cut, and the wait ends with that many parks and one reading more at the
latest. -/
theorem skew_budget_of_run {m₀ m₁ m₂ m₃ : Machine σ κ ε} {es₀ es : List Event} {cv : Condvar}
    {deadline : Time} (hfresh : Fresh m₀) (hrun₀ : Run (Next code) m₀ es₀ m₁)
    (hcv : m₁.condvars[call.condvar]? = some cv) (hdeadline : call.deadline = some deadline)
    (ht : m₁.threads[t]? = some (call.thread .entering))
    (hno : cv.binding.conflict? call.mutex = none) (hstep : m₁.step code t = some m₂)
    (hrun : Run (Next code) m₂ es m₃) (hin : ∀ condvar how, .returned t condvar how ∉ es) :
    ∃ stage, m₃.threads[t]? = some (call.thread stage) ∧
      (∀ how, stage = .leaving how → ∃ m₄, m₃.step code t = some m₄ ∧
        m₄.threads[t]? = some (call.returned how)) ∧
      (∀ timer p, stage = .parking (some (timer, p)) → ∃ now,
        (readings t es).getLast? = some (.ok now) ∧
          p = cv.clock.park (deadline.durationSince now)) ∧
      clockSkewRetries + 1 = 65 ∧
      uncutParks cv.clock deadline t es ≤ clockSkewRetries + 1 ∧
      ((wakeups t es = 0 ∧ ∃ how, stage = .leaving how ∧ how.result = .ok .signaled) ↔
        uncutExpiries cv.clock deadline t es = clockSkewRetries + 1 ∧
          FoundSpent cv.clock deadline (readings t es)) ∧
      (cv.clock = .monotonic → parks t es ≤ clockSkewRetries + 1 ∧
        (readings t es).length ≤ clockSkewRetries + 2 ∧
        ((readings t es).length = clockSkewRetries + 2 → ∃ how, stage = .leaving how)) := by
  have hs₂ : Sound m₂ := (hrun₀.invariant Sound.next hfresh.sound).next (.own (.step hstep))
  have ht₂ := thread_of_register hcv ht hno hstep
  rw [hdeadline] at ht₂
  obtain ⟨stage, ht₃, -, trace⟩ := hrun.trace hs₂ ht₂ nofun hin
  have h : Budgeted cv.clock deadline (account t es) stage := trace.budgeted
  refine ⟨stage, ht₃, ?_, ?_, rfl, h.countP_parks_le, ⟨?_, ?_⟩, ?_⟩
  · rintro how rfl
    refine ⟨_, step_of_leaving ht₃ rfl, ?_⟩
    rw [setControl, List.getElem?_modify_eq, setBinding, ht₃]
    rfl
  · rintro timer p rfl
    obtain ⟨rs, -, ⟨-, r, hr, hpass⟩, -⟩ := h
    obtain ⟨now, rfl, -, hp⟩ := exists_park_of_pass hpass
    have hlast : readings t es = rs ++ [.ok now] := hr
    exact ⟨now, by simp [hlast], hp⟩
  · rintro ⟨hwakeups, how, rfl, hresult⟩
    rcases h with ⟨-, -, -, -, hone⟩ | ⟨rs, hpassed, -, hexpiries, -⟩
    · exact absurd (hone.symm.trans hwakeups) Nat.one_ne_zero
    · obtain ⟨hcount, hspent⟩ := foundSpent_of_passed hpassed hresult
      obtain ⟨-, r, hr, -⟩ := hpassed
      have hreadings : readings t es = rs ++ [r] := hr
      have hexpired : expiries t es = rs.length := hexpiries
      refine ⟨?_, hspent⟩
      rw [uncutExpiries, hreadings, hexpired, List.take_left, hcount]
  · rintro ⟨-, hspent⟩
    exact h.over_of_foundSpent hspent
  · intro hclock
    rw [hclock] at h
    exact h.length_le

/-- Clocks that stand still. -/
def stalledAt (nanos : Int) : Clocks :=
  let clock : VirtualClock := ⟨0, 0, 1, 1, some (.time 0 nanos)⟩
  ⟨clock, clock, clock, clock⟩

/-- A thread reads, parks, runs out and takes its mutex again, `n` times. -/
def passes (n : Nat) : List Turn :=
  (List.replicate n [.step 0, .step 0, .expire 0, .step 0]).flatten

-- the run has some 260 moves, and they are computed
set_option maxRecDepth 4000 in
/-- The first park of the script is cut to a slice. Then the clock stops ahead of the deadline, and
the wait gives up after 65 parks for the time left. -/
theorem skew_budget_of_stalled_clock : ∃ (es₀ es : List Event) (m₁ m₂ m₃ : ScriptMachine)
    (call : Call Script.Place) (cv : Condvar) (deadline : Time),
    Fresh (World.start 0 0 0 0).machine ∧
    Run (Next Script.code) (World.start 0 0 0 0).machine es₀ m₁ ∧
    m₁.condvars[call.condvar]? = some cv ∧ call.deadline = some deadline ∧
    m₁.threads[0]? = some (call.thread .entering) ∧ cv.binding.conflict? call.mutex = none ∧
    m₁.step Script.code 0 = some m₂ ∧ Run (Next Script.code) m₂ es m₃ ∧
    (∀ condvar how, .returned 0 condvar how ∉ es) ∧ parks 0 es = 66 ∧
    uncutParks cv.clock deadline 0 es = 65 ∧ wakeups 0 es = 0 ∧
    ∃ how, m₃.threads[0]? = some (call.thread (.leaving how)) ∧ how.result = .ok .signaled := by
  have spawned : Run (Next Script.code) (World.start 0 0 0 0).machine _ _ :=
    (Run.nil.snoc (.act (.bind none .boottime))).snoc (.act (.spawn slicedWait))
  -- locks and waits
  have waits := spawned.play [.step 0, .step 0] rfl
  let stalled : Except ClockError Time := .ok (Time.new 0 100000000)
  obtain ⟨m₁, m₂, m₃, call, es, waits, hcv, hdeadline, ht, hstep, run, hin, hparks, huncut,
      hexpiries, hreadings⟩ :
      ∃ (m₁ m₂ m₃ : ScriptMachine) (call : Call Script.Place) (es : List Event),
        Run (Next Script.code) (World.start 0 0 0 0).machine _ m₁ ∧
        m₁.condvars[call.condvar]? = some ⟨.boottime, {}⟩ ∧
        call.deadline = some (Time.new 0 300000000) ∧
        m₁.threads[0]? = some (call.thread .entering) ∧
        m₁.step Script.code 0 = some m₂ ∧ Run (Next Script.code) m₂ es m₃ ∧
        es.any Event.isReturned = false ∧ parks 0 es = 66 ∧
        uncutParks .boottime (Time.new 0 300000000) 0 es = 65 ∧
        uncutExpiries .boottime (Time.new 0 300000000) 0 es = 65 ∧
        readings 0 es = (.ok (Time.new 0 0) :: List.replicate 64 stalled) ++ [stalled, stalled] :=
    ⟨_, _, _, ⟨0, some (Time.new 0 300000000), _, 0⟩, _, waits, rfl, rfl, rfl, rfl,
      (((Run.of_play (passes 1) rfl).mono .own).snoc (.own (.clocks (stalledAt 100000000)))).play
        (passes 65 ++ [.step 0]) rfl, rfl, rfl, rfl, rfl, rfl⟩
  have hin := not_mem_of_any_isReturned hin 0
  obtain ⟨stage, hstage, -, -, -, -, hiff, -⟩ := skew_budget_of_run (World.fresh_start 0 0 0 0)
    waits hcv hdeadline ht rfl hstep run hin
  have hspent : FoundSpent .boottime (Time.new 0 300000000) (readings 0 es) :=
    ⟨_, stalled, Time.new 0 100000000, [], hreadings, rfl, rfl, by decide⟩
  obtain ⟨hwakeups, how, rfl, hresult⟩ := hiff.mpr ⟨hexpiries, hspent⟩
  exact ⟨_, es, m₁, m₂, m₃, call, _, _, World.fresh_start 0 0 0 0, waits, hcv, hdeadline, ht, rfl,
    hstep, run, hin, hparks, huncut, hwakeups, how, hstage, hresult⟩

end Machine

end TimedCondvar
