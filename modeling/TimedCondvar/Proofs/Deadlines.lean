import TimedCondvar.Proofs.Policies
import TimedCondvar.Proofs.Uptimes
import TimedCondvar.Proofs.Words

/-!
Deadlines that are counted from now, and who counts them. A clock does, for an interval or for whole
milliseconds. A condition variable does for its callers, and code does by itself when it waits for
an interval or for a condition. `Asks` lists the places in code where a deadline is asked for, each
with what is done with it. All of them read the clock once and come to the deadline of the clock, or
to its failure.
-/

namespace TimedCondvar

/-- Seconds of a reply are 64 bits wide. Its nanoseconds are as they are. -/
def Reply.Fits : Reply → Prop
  | .time secs _ => -signedLimit ≤ secs ∧ secs < signedLimit
  | .failed _ => True

namespace Time

theorem le_max (t : Time) : t ≤ max := le_iff_totalNanos.mpr t.totalNanos_le_max

/-- A time that is counted from another one is not before it, not even if it is cut. -/
theorem le_saturatingAdd (t : Time) (d : Duration) : t ≤ t.saturatingAdd d := by
  by_cases hover : t.Overlong d.totalNanos
  · rw [saturatingAdd_of_overlong hover]
    exact t.le_max
  · have hle := t.totalNanos_le_max
    rw [le_iff_totalNanos, totalNanos_saturatingAdd_eq_min hover]
    omega

theorem saturatingAddMillis_eq {ms : Nat} (t : Time) (hms : ms < unsignedLimit) :
    t.saturatingAddMillis ms = t.saturatingAdd (.ofMillis ms) := by
  rw [saturatingAddMillis, saturatingAdd, t.checkedAddMillis_eq hms]

theorem saturatingAdd_zero (t : Time) : t.saturatingAdd .zero = t := by
  have hle := t.totalNanos_le_max
  have hnot : ¬t.Overlong Duration.zero.totalNanos := by
    have hn := t.nanos_lt
    rw [Overlong, totalNanos_max, Duration.totalNanos_zero, signedLimit]
    unfold nanosPerSec at *
    omega
  refine totalNanos_injective ?_
  rw [totalNanos_saturatingAdd_eq_min hnot, Duration.totalNanos_zero, Int.natCast_zero,
    Int.add_zero, Int.min_eq_left hle]

end Time

namespace Clock

variable {clock : Clock} {reply : Reply} {now : Time} {e : ClockError} {secs nanos : Int} {ms : Nat}

/-- A reply that is valid is taken over as it is. -/
theorem now_of_valid (clock : Clock) (hfits : (Reply.time secs nanos).Fits)
    (hvalid : 0 ≤ nanos ∧ nanos < nanosPerSec) :
    ∃ now, clock.now (.time secs nanos) = .ok now ∧ now.secs = secs ∧ now.nanos = nanos := by
  have hnanos : (nanos.toNat : Int) = nanos := Int.toNat_of_nonneg hvalid.1
  let now : Time := ⟨secs, nanos.toNat, hfits.1, hfits.2, by omega⟩
  have hnow := clock.now_time now
  rw [hnanos] at hnow
  exact ⟨now, hnow, rfl, hnanos⟩

theorem now_of_malformed (clock : Clock) (secs : Int) (h : ¬(0 ≤ nanos ∧ nanos < nanosPerSec)) :
    clock.now (.time secs nanos) = .error (.outOfRange clock nanos) :=
  if_neg h

theorem deadlineAfter_of_now (h : clock.now reply = .ok now) (d : Duration) :
    clock.deadlineAfter reply d = .ok (now.saturatingAdd d) := by
  rw [deadlineAfter, h]
  rfl

theorem deadlineAfter_of_error (h : clock.now reply = .error e) (d : Duration) :
    clock.deadlineAfter reply d = .error e := by
  rw [deadlineAfter, h]
  rfl

theorem exists_now_of_deadlineAfter {d : Duration} {deadline : Time}
    (h : clock.deadlineAfter reply d = .ok deadline) :
    ∃ now, clock.now reply = .ok now ∧ deadline = now.saturatingAdd d := by
  cases hnow : clock.now reply with
  | error e =>
      rw [deadlineAfter_of_error hnow] at h
      cases h
  | ok now =>
      rw [deadlineAfter_of_now hnow] at h
      cases h
      exact ⟨now, rfl, rfl⟩

theorem deadlineAfter_zero (clock : Clock) (reply : Reply) :
    clock.deadlineAfter reply .zero = clock.now reply := by
  cases hnow : clock.now reply with
  | error e => exact deadlineAfter_of_error hnow _
  | ok now => rw [deadlineAfter_of_now hnow, now.saturatingAdd_zero]

/-- To return the reading itself for no milliseconds is to add none to it. -/
theorem deadlineAfterMillis_eq (clock : Clock) (reply : Reply) (hms : ms < unsignedLimit) :
    clock.deadlineAfterMillis reply ms = clock.deadlineAfter reply (.ofMillis ms) := by
  by_cases hzero : ms = 0
  · have hnone : Duration.ofMillis 0 = .zero := by decide
    subst hzero
    rw [hnone, deadlineAfter_zero, deadlineAfterMillis]
    cases clock.now reply <;> rfl
  · cases hnow : clock.now reply with
    | error e =>
        rw [deadlineAfter_of_error hnow, deadlineAfterMillis, hnow]
        rfl
    | ok now =>
        rw [deadlineAfter_of_now hnow, deadlineAfterMillis, hnow, ← now.saturatingAddMillis_eq hms]
        exact congrArg Except.ok (if_neg hzero)

end Clock

/-! ### Places that ask for a deadline -/

variable {σ κ ε : Type} {code : κ → Command σ κ ε} {condvar : CondvarId} {clock : Clock}
  {reply : Reply} {d : Duration}

/-- Condition variable `condvar` is bound to `clock`, which replies `reply` now. -/
def Machine.Replies (m : Machine σ κ ε) (condvar : CondvarId) (clock : Clock) (reply : Reply) :
    Prop :=
  m.clockOf? condvar = some clock ∧ (m.clocks.get clock).reply m.mono = reply

/-- The wait until a deadline, or what its caller does with an error instead. -/
def waitUntil (code : κ → Command σ κ ε) (condvar : CondvarId)
    (next : Except SyncError WaitStatus → κ) : Except SyncError Time → Command σ κ ε
  | .ok deadline => .wait condvar (some deadline) next
  | .error e => code (next (.error e))

/-- Where a predicate wait goes on with its deadline, or with an error instead. -/
def Policy.dated (p : Policy) : Except SyncError Time → State
  | .error e => .done (.error e)
  | .ok deadline =>
    match p with
    | .within _ => .check (.upTo deadline)
    | p => .block p (some deadline)

theorem Policy.armed_eq (p : Policy) (interval : Duration) (r : Except SyncError Time) :
    p.armed interval r = p.dated (r.map (·.saturatingAdd interval)) := by
  cases r with
  | error e => rfl
  | ok now => cases p <;> rfl

/-- At a place, code asks condition variable `condvar` for the deadline `d` from now. With the
deadline, or with an error, it goes on to a command. -/
inductive Asks (code : κ → Command σ κ ε) (condvar : CondvarId) (d : Duration) :
    κ → (Except SyncError Time → Command σ κ ε) → Prop
  /-- For any use of it. -/
  | deadline {place : κ} {next : Except SyncError Time → κ}
      (hcode : code place = .read condvar fun r => next (r.map (·.saturatingAdd d))) :
      Asks code condvar d place fun r => code (next r)
  /-- To wait for `d`. -/
  | waitFor {place : κ} {armed : Except SyncError Time → κ}
      {next : Except SyncError WaitStatus → κ} (hcode : code place = .read condvar armed)
      (hok : ∀ now, code (armed (.ok now)) = .wait condvar (some (now.saturatingAdd d)) next)
      (herror : ∀ e, code (armed (.error e)) = code (next (.error e))) :
      Asks code condvar d place (waitUntil code condvar next)
  /-- To wait for a condition, `d` at most or until nothing happens for `d`. -/
  | predicate {μ : Type} (w : PredicateWait code μ) (policy : Policy) (memory : μ) {place : κ}
      (hcondvar : w.condvar = condvar) (hcode : code place =
        (Policy.State.arm policy d).command condvar (w.eval memory) memory w.goOn
          (w.finish memory)) :
      Asks code condvar d place fun r => code (w.goOn (policy.dated r) memory)

namespace Machine

variable {m : Machine σ κ ε}

theorem Replies.exists_condvar (h : m.Replies condvar clock reply) :
    ∃ cv, m.condvars[condvar]? = some cv ∧ cv.clock = clock :=
  Option.map_eq_some_iff.mp h.1

theorem Replies.readClock (h : m.Replies condvar clock reply) :
    m.readClock clock = (clock.now reply).mapError .clock := by
  rw [Machine.readClock, Clocks.now, h.2]

/-- To add to a reading of the condition variable is to ask the clock. -/
theorem Replies.map_readClock (h : m.Replies condvar clock reply) (d : Duration) :
    (m.readClock clock).map (·.saturatingAdd d) =
      (clock.deadlineAfter reply d).mapError .clock := by
  rw [h.readClock, Clock.deadlineAfter]
  cases clock.now reply <;> rfl

end Machine

/-- The reading that is taken at such a place is the only one, and what code goes on with is the
deadline of the clock or its failure. -/
theorem Asks.answered {m : Machine σ κ ε} {t : ThreadId} {g : Option MutexId} {place : κ}
    {goOn : Except SyncError Time → Command σ κ ε} (h : Asks code condvar d place goOn)
    (hm : m.Replies condvar clock reply) (ht : m.threads[t]? = some ⟨.running place, g⟩) :
    ∃ place', m.step code t =
        some { m with threads := m.threads.set t ⟨.running place', g⟩ } ∧
      code place' = goOn ((clock.deadlineAfter reply d).mapError .clock) := by
  obtain ⟨cv, hcv, rfl⟩ := hm.exists_condvar
  rw [← hm.map_readClock d]
  cases h with
  | deadline hcode => exact ⟨_, Machine.step_of_read ht hcode hcv, rfl⟩
  | waitFor hcode hok herror =>
      refine ⟨_, Machine.step_of_read ht hcode hcv, ?_⟩
      cases m.readClock cv.clock with
      | error e => exact herror e
      | ok now => exact hok now
  | predicate w policy memory hcondvar hcode =>
      refine ⟨_, Machine.step_of_read ht hcode hcv, ?_⟩
      rw [policy.armed_eq]

namespace Script

variable {p : Place} {start : Option Int}

/-- An instruction that asks for a deadline is answered with it. -/
theorem step_of_deadlineAfter {m : ScriptMachine} {t : ThreadId} {g : Option MutexId}
    (hm : m.Replies p.condvar clock reply) (ht : m.threads[t]? = some ⟨.running p, g⟩)
    (h : Script.code p = p.perform start (.deadlineAfter d)) :
    m.step Script.code t = some (m.setControl t (.running (p.moveTo (.ending
      (Place.timeAnswer ((clock.deadlineAfter reply d).mapError .clock)) start)))) := by
  obtain ⟨cv, hcv, rfl⟩ := hm.exists_condvar
  rw [← hm.map_readClock d, Machine.setControl_eq ht]
  exact Machine.step_of_read ht h hcv

/-- The instructions of a script that wait for a time ask for a deadline first. -/
theorem asks_waitFor (h : Script.code p = p.perform start (.waitFor d)) :
    Asks Script.code p.condvar d p
      (waitUntil Script.code p.condvar fun r => p.moveTo (.ending (Place.statusAnswer r) start)) :=
  .waitFor h (fun _ => rfl) (fun _ => rfl)

theorem asks_within {condition : Condition}
    (h : Script.code p = p.perform start (.waitPredicate (.within d) condition)) :
    Asks Script.code p.condvar d p fun r => Script.code
      (p.moveTo (.looping (.within d) condition start ((Policy.within d).dated r) {})) :=
  .predicate (.ofScript p (.within d) condition start) (.within d) {} rfl h

end Script

namespace World

/-- What is told of a time that was asked for. -/
def Reaction.ofTime : Except SyncError Time → Reaction
  | .ok t => .time t
  | .error e => .failed e

theorem act_deadlineAfter {m : ScriptMachine} (h : m.Replies condvar clock reply) (d : Duration) :
    act m (.deadlineAfter condvar d) =
      (m, .ofTime ((clock.deadlineAfter reply d).mapError .clock)) := by
  obtain ⟨cv, hcv, rfl⟩ := h.exists_condvar
  rw [← h.map_readClock d]
  simp only [act, readingOf, hcv]
  cases m.readClock cv.clock <;> rfl

end World

/-- All ways to a deadline agree. A valid reply of a clock is taken over as it is, and one whose
nanoseconds are out of range fails with them. Whole milliseconds are the interval of as many
milliseconds, and none of them are the reading itself. Every deadline is at or after the reading it
is counted from. A condition variable that is bound to the clock tells those who call it, from
outside or in a script, the deadline of the clock or its failure, and code that waits for an
interval or for a condition goes on with the same. -/
theorem Clock.deadlines_agree (clock : Clock) {reply : Reply} (hfits : reply.Fits) (d : Duration)
    {ms : Nat} (hms : ms < unsignedLimit) :
    (∀ secs nanos, reply = .time secs nanos →
      (0 ≤ nanos ∧ nanos < nanosPerSec →
        ∃ now, clock.now reply = .ok now ∧ now.secs = secs ∧ now.nanos = nanos) ∧
      (¬(0 ≤ nanos ∧ nanos < nanosPerSec) →
        clock.now reply = .error (.outOfRange clock nanos))) ∧
    (∀ errno, reply = .failed errno → clock.now reply = .error (.read clock errno)) ∧
    (∀ e, clock.now reply = .error e → clock.deadlineAfter reply d = .error e) ∧
    clock.deadlineAfterMillis reply ms = clock.deadlineAfter reply (.ofMillis ms) ∧
    clock.deadlineAfterMillis reply 0 = clock.now reply ∧
    (∀ deadline, clock.deadlineAfter reply d = .ok deadline →
      ∃ now, clock.now reply = .ok now ∧ now ≤ deadline) ∧
    (∀ deadline, clock.deadlineAfterMillis reply ms = .ok deadline →
      ∃ now, clock.now reply = .ok now ∧ now ≤ deadline) ∧
    (∀ (m : ScriptMachine) (condvar : CondvarId), m.Replies condvar clock reply →
      World.act m (.deadlineAfter condvar d) =
        (m, .ofTime ((clock.deadlineAfter reply d).mapError .clock))) ∧
    (∀ (m : ScriptMachine) (t : ThreadId) (g : Option MutexId) (p : Script.Place)
      (start : Option Int), m.Replies p.condvar clock reply →
      m.threads[t]? = some ⟨.running p, g⟩ →
      Script.code p = p.perform start (.deadlineAfter d) →
      m.step Script.code t = some (m.setControl t (.running (p.moveTo (.ending
        (Script.Place.timeAnswer ((clock.deadlineAfter reply d).mapError .clock)) start))))) ∧
    ∀ {σ κ ε : Type} (code : κ → Command σ κ ε) (m : Machine σ κ ε) (condvar : CondvarId)
      (t : ThreadId) (g : Option MutexId) (place : κ)
      (goOn : Except SyncError Time → Command σ κ ε),
      m.Replies condvar clock reply → m.threads[t]? = some ⟨.running place, g⟩ →
      Asks code condvar d place goOn →
      ∃ place', m.step code t =
          some { m with threads := m.threads.set t ⟨.running place', g⟩ } ∧
        code place' = goOn ((clock.deadlineAfter reply d).mapError .clock) := by
  have notBefore {d : Duration} {deadline : Time} (h : clock.deadlineAfter reply d = .ok deadline) :
      ∃ now, clock.now reply = .ok now ∧ now ≤ deadline := by
    obtain ⟨now, hnow, rfl⟩ := exists_now_of_deadlineAfter h
    exact ⟨now, hnow, now.le_saturatingAdd d⟩
  have hmillis := clock.deadlineAfterMillis_eq reply hms
  refine ⟨?_, ?_, fun e he => deadlineAfter_of_error he d, hmillis, ?_, fun _ => notBefore, ?_,
    fun m condvar hm => World.act_deadlineAfter hm d,
    fun m t g p start hm ht h => Script.step_of_deadlineAfter hm ht h, ?_⟩
  · rintro secs nanos rfl
    exact ⟨clock.now_of_valid hfits, clock.now_of_malformed secs⟩
  · rintro errno rfl
    rfl
  · have hnone : Duration.ofMillis 0 = .zero := by decide
    rw [clock.deadlineAfterMillis_eq reply (by decide), hnone, clock.deadlineAfter_zero]
  · rw [hmillis]
    exact fun _ => notBefore
  · intro σ κ ε code m condvar t g place goOn hm ht hasks
    exact hasks.answered hm ht

/-- Half a second before the latest time, a deadline that is 600 milliseconds away is the latest
time. So it is for the clock, for a caller of the condition variable, and for a script that waits
for a condition for as long. -/
theorem Clock.deadlines_agree_in_the_last_second : ∃ (reply : Reply) (now : Time)
    (m : ScriptMachine) (p place : Script.Place),
    reply.Fits ∧ 600 < unsignedLimit ∧ Clock.boottime.now reply = .ok now ∧ now < Time.max ∧
    Clock.boottime.deadlineAfter reply (.ofMillis 600) = .ok Time.max ∧
    Clock.boottime.deadlineAfterMillis reply 600 = .ok Time.max ∧ m.Replies 0 .boottime reply ∧
    World.act m (.deadlineAfter 0 (.ofMillis 600)) = (m, .time Time.max) ∧
    m.step Script.code 0 =
      some { m with threads := m.threads.set 0 ⟨.running place, some 0⟩ } ∧
    Script.code place = Script.code
      (p.moveTo (.looping (.within (.ofMillis 600)) .never none (.check (.upTo Time.max)) {})) := by
  let reply : Reply := .time (signedLimit - 1) 500000000
  let d : Duration := .ofMillis 600
  let p : Script.Place := (PredicateWait.futile (.within d)).moveTo .fetching
  let m : ScriptMachine :=
    { PredicateWait.entry (.within d) with
      clocks := (PredicateWait.entry (.within d)).clocks.modify ({ · with fault := some reply })
        .boottime }
  have hfits : reply.Fits := ⟨by decide, by decide⟩
  have hms : 600 < unsignedLimit := by decide
  have hnow : Clock.boottime.now reply = .ok (.new (signedLimit - 1) 500000000) := rfl
  have hmax : Clock.boottime.deadlineAfter reply d = .ok Time.max := by
    rw [deadlineAfter_of_now hnow]
    exact congrArg Except.ok (by decide)
  have hreplies : m.Replies 0 .boottime reply := ⟨rfl, rfl⟩
  have hasks := Script.asks_within (show Script.code p =
    p.perform none (.waitPredicate (.within d) .never) from rfl)
  obtain ⟨-, -, -, hmillis, -, -, -, hact, -, hcode⟩ := boottime.deadlines_agree hfits d hms
  obtain ⟨place, hstep, hplace⟩ := hcode Script.code m 0 0 (some 0) p _ hreplies rfl hasks
  rw [hmax] at hplace
  have htold := hact m 0 hreplies
  rw [hmax] at htold
  exact ⟨reply, _, m, p, place, hfits, hms, hnow, by decide, hmax, hmillis.trans hmax, hreplies,
    htold, hstep, hplace⟩

end TimedCondvar
