import TimedCondvar.Proofs.Mismatch
import TimedCondvar.Proofs.PredicateWaits

/-!
What comes of a wait when the clock fails. The call ends at the reading that failed: its thread has
the mutex then and keeps it, and what is left to do, if it was registered, is the one step that
gives its place back. Nobody can be in the way of that step, and nothing that happens before it
concerns the thread. A wait without a deadline reads no clock and so never tells of a failure.
-/

namespace TimedCondvar

open Machine

variable {σ κ ε μ : Type} {code : κ → Command σ κ ε} {m m' : Machine σ κ ε} {t : ThreadId}
  {mutex : MutexId} {es : List Event}

/-- A call with a deadline in some code. One that is for an interval reads the clock first. With the
reading it goes on to a wait until the interval has passed, and with an error to what its caller
does with one. -/
inductive DeadlineCall {σ κ ε : Type} (code : κ → Command σ κ ε) (μ : Type)
  | waitUntil (condvar : CondvarId) (deadline : Time) (next : Except SyncError WaitStatus → κ)
  | waitFor (condvar : CondvarId) (interval : Duration) (armed : Except SyncError Time → κ)
      (next : Except SyncError WaitStatus → κ)
      (code_ok : ∀ now,
        code (armed (.ok now)) = .wait condvar (some (now.saturatingAdd interval)) next)
      (code_error : ∀ e, code (armed (.error e)) = code (next (.error e)))
  | predicate (w : PredicateWait code μ)

namespace DeadlineCall

def condvar : DeadlineCall code μ → CondvarId
  | waitUntil condvar _ _ | waitFor condvar _ _ _ _ _ => condvar
  | predicate w => w.condvar

/-- What the caller does with an error. A condition that was waited for has a memory. -/
def failed : DeadlineCall code μ → μ → SyncError → Command σ κ ε
  | waitUntil _ _ next, _, e | waitFor _ _ _ next _ _, _, e => code (next (.error e))
  | predicate w, memory, e => w.finish memory (.error e)

/-- What thread `t` does next within the call, with the mutex, is to read the clock for the
deadline. -/
def Arms (t : ThreadId) (mutex : MutexId) (m : Machine σ κ ε) (memory : μ) :
    DeadlineCall code μ → Prop
  | waitUntil _ _ _ => False
  | waitFor condvar _ armed _ _ _ => ∃ place, m.threads[t]? = some ⟨.running place, some mutex⟩ ∧
      code place = .read condvar armed
  | predicate w => ∃ policy interval, w.Stands t mutex m (.running (.arm policy interval) memory)

/-- The waits in which a call blocks. -/
inductive Blocks (mutex : MutexId) (memory : μ) : DeadlineCall code μ → Call κ → Prop
  | waitUntil (condvar : CondvarId) (deadline : Time) (next : Except SyncError WaitStatus → κ) :
      Blocks mutex memory (.waitUntil condvar deadline next) ⟨condvar, some deadline, next, mutex⟩
  | waitFor {condvar : CondvarId} {interval : Duration} {armed : Except SyncError Time → κ}
      {next : Except SyncError WaitStatus → κ}
      {code_ok : ∀ now,
        code (armed (.ok now)) = .wait condvar (some (now.saturatingAdd interval)) next}
      {code_error : ∀ e, code (armed (.error e)) = code (next (.error e))} (now : Time) :
      Blocks mutex memory (.waitFor condvar interval armed next code_ok code_error)
        ⟨condvar, some (now.saturatingAdd interval), next, mutex⟩
  | predicate (w : PredicateWait code μ) (policy : Policy) (deadline : Time) :
      Blocks mutex memory (.predicate w) (w.call mutex policy (some deadline) memory)

variable {call : DeadlineCall code μ} {memory : μ} {c : Call κ}

theorem Arms.exists_read (h : call.Arms t mutex m memory) : ∃ place next,
    m.threads[t]? = some ⟨.running place, some mutex⟩ ∧ code place = .read call.condvar next ∧
      ∀ e, code (next (.error e)) = call.failed memory e := by
  cases call with
  | waitUntil condvar deadline next => exact h.elim
  | waitFor condvar interval armed next code_ok code_error =>
      obtain ⟨place, ht, hcode⟩ := h
      exact ⟨place, armed, ht, hcode, code_error⟩
  | predicate w =>
      obtain ⟨policy, interval, place, ht, hcode⟩ := h
      exact ⟨place, _, ht, hcode, fun e => w.code_goOn _ memory⟩

theorem Blocks.exists_deadline (h : call.Blocks mutex memory c) :
    ∃ deadline, c.deadline = some deadline := by
  cases h <;> exact ⟨_, rfl⟩

/-- An error of its wait is the error of the call. -/
theorem Blocks.code_error (h : call.Blocks mutex memory c) (e : SyncError) :
    code (c.next (.error e)) = call.failed memory e := by
  cases h with
  | predicate w policy deadline => exact w.code_goOn _ memory
  | _ => rfl

end DeadlineCall

namespace Machine

variable {th : Thread κ} {e : Event} {call : Call κ} {stage : Stage}

/-! ### Giving up -/

/-- The machine after thread `t` has left its wait: the thread goes on, its place among the waiters
is given back, and nothing else is different. -/
def left (m : Machine σ κ ε) (t : ThreadId) (call : Call κ) (how : WaitEnd) : Machine σ κ ε :=
  { m with
    threads := m.threads.set t (call.returned how)
    condvars := m.condvars.modify call.condvar fun c => { c with binding := c.binding.release } }

theorem step_of_left {how : WaitEnd} (ht : m.threads[t]? = some (call.thread (.leaving how))) :
    m.step code t = some (m.left t call how) := by
  rw [step_of_leaving ht rfl, setControl, setBinding, left]
  dsimp only
  rw [modify_eq_set ht]
  rfl

/-- A thread that is about to leave its wait stays so until it does, and nothing concerns it. -/
theorem Run.leaving {how : WaitEnd} (hs : Sound m) (run : Run (Next code) m es m')
    (ht : m.threads[t]? = some (call.thread (.leaving how)))
    (hin : ∀ condvar how, .returned t condvar how ∉ es) :
    m'.threads[t]? = some (call.thread (.leaving how)) ∧ ∀ e ∈ es, ¬e.Concerns t := by
  induction run with
  | nil => exact ⟨ht, fun _ he => absurd he List.not_mem_nil⟩
  | @snoc es e m₁ m₂ run move ih =>
      obtain ⟨ht₁, hes⟩ := ih fun condvar how hmem => hin condvar how (List.mem_append_left _ hmem)
      rcases (run.invariant Sound.next hs).moved move ht₁ nofun with
        ⟨stage, ht₂, hmoved⟩ | ⟨how', -, rfl, -⟩
      · cases hmoved with
        | stay he =>
            refine ⟨ht₂, fun e' he' => ?_⟩
            rcases List.mem_append.mp he' with he' | he'
            · exact hes e' he'
            · rwa [List.mem_singleton.mp he']
      · exact absurd (List.mem_append_right _ List.mem_cons_self) (hin call.condvar how')

/-- Thread `t` has nothing left to do in its wait but to tell of the failure. It has its mutex and
can leave at once. Its place is free then, those of all others are as they were, and if there are no
others then no mutex is bound. -/
structure GivesUp (code : κ → Command σ κ ε) (t : ThreadId) (call : Call κ) (e : ClockError)
    (m : Machine σ κ ε) : Prop where
  thread : m.threads[t]? = some (call.thread (.leaving (.failed e)))
  holder : m.holder? call.mutex = some (some t)
  step : m.step code t = some (m.left t call (.failed e))
  returned : (m.left t call (.failed e)).threads[t]? =
    some ⟨.running (call.next (.error (.clock e))), some call.mutex⟩
  registered : ∀ condvar, (m.left t call (.failed e)).registered condvar +
    (if condvar = call.condvar then 1 else 0) = m.registered condvar
  binding : ∃ cv, (m.left t call (.failed e)).condvars[call.condvar]? = some cv ∧
    cv.binding.waiters = (m.left t call (.failed e)).registered call.condvar ∧
    (cv.binding.waiters = 0 → cv.binding = {})

theorem Sound.givesUp (hs : Sound m) (hb : Bound m) {e : ClockError}
    (ht : m.threads[t]? = some (call.thread (.leaving (.failed e)))) :
    GivesUp code t call e m := by
  have hstep : m.step code t = some (m.left t call (.failed e)) := step_of_left ht
  have hbound : Bound (m.left t call (.failed e)) := hb.next (.own (.step hstep))
  obtain ⟨cv, hcv, -⟩ := hb.mutex ht rfl
  have hleft : (m.left t call (.failed e)).condvars[call.condvar]? =
      some { cv with binding := cv.binding.release } := by
    rw [left]
    dsimp only
    rw [List.getElem?_modify_eq, hcv]
    rfl
  refine ⟨ht, hs.guarded.holder ht rfl, hstep, ?_, registered_of_leave ht rfl rfl rfl, _, hleft,
    hbound.count hleft, fun hzero => ?_⟩
  · exact getElem?_set_self_of_getElem? ht _
  · exact hbound.binding_of_registered hleft ((hbound.count hleft).symm.trans hzero)

/-! ### Waits without a deadline -/

/-- At some point of a run from `m` that shows `es`, the machine was as `P` has it. -/
def CameTo (code : κ → Command σ κ ε) (m : Machine σ κ ε) (es : List Event)
    (P : Machine σ κ ε → Prop) : Prop :=
  ∃ before after m', es = before ++ after ∧ Run (Next code) m before m' ∧ P m'

/-- What a move keeps unless it leads to `Q` is kept by a run unless it came to `Q`. -/
theorem Run.keeps_or_cameTo {P Q : Machine σ κ ε → Prop} (hs : Sound m)
    (run : Run (Next code) m es m')
    (hmove : ∀ {m e m'}, Next code m e m' → Sound m → P m → P m' ∨ Q m') (hm : P m) :
    P m' ∨ CameTo code m es Q := by
  induction run with
  | nil => exact .inl hm
  | @snoc es e m₁ m₂ run move ih =>
      rcases ih with h₁ | ⟨before, after, m', rfl, run', hQ⟩
      · rcases hmove move (run.invariant Sound.next hs) h₁ with h₂ | h₂
        · exact .inl h₂
        · exact .inr ⟨es ++ [e], [], m₂, by simp, run.snoc move, h₂⟩
      · exact .inr ⟨before, after ++ [e], m', by simp, run', hQ⟩

/-- A thread that is not parked does its own step, or stays as it is. -/
theorem Parking.stepped_or_same (h : Parking m) (hm : Next code m e m')
    (ht : m.threads[t]? = some th) (hp : th.control.parkedOn = none) :
    Stepped code m t th m' ∨ m'.threads[t]? = some th := by
  obtain ⟨c, -, hcaused⟩ := exists_caused_of_next hm
  exact (h.own_or_same hcaused ht hp).imp And.right And.right

end Machine

/-- The stages of a wait without a deadline. It has no timer, and ends when it is notified. -/
def Stage.untimed : Stage → Bool
  | .entering | .parking none | .queued none | .woken _ none | .leaving .notified => true
  | _ => false

namespace Machine

variable {th : Thread κ} {e : Event} {call : Call κ} {stage stage' : Stage}

theorem Moved.untimed {condvar : CondvarId} (h : Moved t condvar e stage stage')
    (hstage : stage.untimed = true) : stage'.untimed = true := by
  cases h with
  | stay he => exact hstage
  | read timer reading => cases hstage
  | park timed =>
      cases timed with
      | none => rfl
      | some timed => cases hstage
  | notified timed result ht =>
      cases timed with
      | none => rfl
      | some timed => cases hstage
  | expired timed => cases hstage
  | retake notified timed =>
      cases timed with
      | none => rfl
      | some timed => cases hstage

theorem eq_notified_of_untimed {how : WaitEnd} (h : (Stage.leaving how).untimed = true) :
    how = .notified := by
  cases how with
  | notified => rfl
  | _ => cases h

/-- What a wait without a deadline can come back with: it was woken, or it was turned away. -/
inductive UntimedResult : Except SyncError WaitStatus → Prop
  | signaled : UntimedResult (.ok .signaled)
  | turnedAway (bound offered : MutexId) (waiters : Nat) :
      UntimedResult (.error (.mutexMismatch bound offered waiters))

theorem UntimedResult.ne_clock {r : Except SyncError WaitStatus} (h : UntimedResult r)
    (e : ClockError) : r ≠ .error (.clock e) := by
  cases h <;> exact nofun

/-- Thread `t` is inside the call, which has no deadline. -/
def InUntimed (t : ThreadId) (call : Call κ) (m : Machine σ κ ε) : Prop :=
  ∃ stage, m.threads[t]? = some (call.thread stage) ∧ stage.untimed = true

theorem InUntimed.next (h : InUntimed t call m) (hdeadline : call.deadline = none)
    (hm : Next code m e m') (hs : Sound m) : InUntimed t call m' ∨
      ∃ r, UntimedResult r ∧ m'.threads[t]? = some ⟨.running (call.next r), some call.mutex⟩ := by
  obtain ⟨stage, ht, hstage⟩ := h
  have hself := getElem?_set_self_of_getElem? ht
  by_cases hreg : stage = .entering
  · subst hreg
    rcases hs.parking.stepped_or_same hm ht rfl with hstepped | hsame
    · cases hstepped with
      | @reject condvar deadline next offered bound waiters cv hc hg hcv hconflict =>
          cases hc
          cases hg
          exact .inr ⟨_, .turnedAway bound call.mutex waiters, hself _⟩
      | register hc hg hcv hconflict =>
          cases hc
          refine .inl ⟨_, hself _, ?_⟩
          rw [hdeadline]
          rfl
      | calm line hc hcalm => cases hc
      | _ hc => cases hc
    · exact .inl ⟨.entering, hsame, rfl⟩
  · rcases hs.moved hm ht hreg with ⟨stage', ht', hmoved⟩ | ⟨how, rfl, -, ht'⟩
    · exact .inl ⟨stage', ht', hmoved.untimed hstage⟩
    · obtain rfl := eq_notified_of_untimed hstage
      exact .inr ⟨_, .signaled, ht'⟩

end Machine

namespace PredicateWait

variable {w : PredicateWait code μ} {e : Event}

theorem Stands.checked {policy : Policy} {memory : μ}
    (h : w.Stands t mutex m (.running (.check policy) memory)) (hm : Next code m e m')
    (hs : Sound m) : w.Stands t mutex m' (.running (.check policy) memory) ∨
      ∃ holds memory, w.Stands t mutex m' (.running (policy.checked holds) memory) := by
  obtain ⟨place, ht, hcode⟩ := h
  rcases hs.parking.stepped_or_same hm ht rfl with hstepped | hsame
  · have hself := getElem?_set_self_of_getElem? ht
    have hcommand := hstepped.command
    rw [hcode] at hcommand
    obtain ⟨mutex', x, -, -, rfl⟩ := hcommand
    exact .inr ⟨(w.eval memory x.state).1, (w.eval memory x.state).2.1, w.stands_goOn (hself _)⟩
  · exact .inl ⟨place, hsame, hcode⟩

/-- Where a predicate wait without end stands, until it has its result. -/
def InForever (w : PredicateWait code μ) (t : ThreadId) (mutex : MutexId) (m : Machine σ κ ε) :
    Prop :=
  ∃ memory, w.Stands t mutex m (.running (.check .forever) memory) ∨
    w.Stands t mutex m (.running (.block .forever none) memory) ∨
    InUntimed t (w.call mutex .forever none memory) m

/-- It has its result when the condition holds, or when a wait was turned away. -/
theorem InForever.next (h : w.InForever t mutex m) (hm : Next code m e m') (hs : Sound m) :
    w.InForever t mutex m' ∨ ∃ result memory, (∀ cause, result ≠ .error (.clock cause)) ∧
      w.Stands t mutex m' (.running (.done result) memory) := by
  obtain ⟨memory, hcheck | hblock | hwait⟩ := h
  · rcases hcheck.checked hm hs with hstands | ⟨holds, memory, hstands⟩
    · exact .inl ⟨memory, .inl hstands⟩
    · cases holds with
      | true => exact .inr ⟨.ok true, memory, nofun, hstands⟩
      | false => exact .inl ⟨memory, .inr (.inl hstands)⟩
  · obtain ⟨place, ht, hcode⟩ := hblock
    rcases hs.parking.stepped_or_same hm ht rfl with hstepped | hsame
    · have hself := getElem?_set_self_of_getElem? ht
      have hcommand := hstepped.command
      rw [hcode] at hcommand
      obtain ⟨notes, control, line, hcalm, rfl⟩ := hcommand
      cases hcalm
      exact .inl ⟨memory, .inr (.inr ⟨.entering, hself _, rfl⟩)⟩
    · exact .inl ⟨memory, .inr (.inl ⟨place, hsame, hcode⟩)⟩
  · rcases hwait.next rfl hm hs with hwait | ⟨r, hr, ht⟩
    · exact .inl ⟨memory, .inr (.inr hwait)⟩
    · have hstands := w.stands_goOn ht
      cases hr with
      | signaled => exact .inl ⟨memory, .inl hstands⟩
      | turnedAway bound offered waiters =>
          exact .inr ⟨.error (.mutexMismatch bound offered waiters), memory, nofun, hstands⟩

end PredicateWait

namespace Machine

/-- Thread `t` is in a wait and reads the clock next, which fails with `e`. Its step changes nothing
else, and whatever happens from then on until it leaves, nothing concerns the thread: it neither
parks nor reads again nor is notified, and it gives up. -/
def Fails (code : κ → Command σ κ ε) (t : ThreadId) (call : Call κ) (e : ClockError)
    (m : Machine σ κ ε) : Prop :=
  m.shown code t = .read t (.error e) ∧
    ∃ m', m.step code t = some m' ∧
      m' = { m with threads := m.threads.set t (call.thread (.leaving (.failed e))) } ∧
      ∀ es m'', Run (Next code) m' es m'' → (∀ condvar how, .returned t condvar how ∉ es) →
        (∀ e' ∈ es, ¬e'.Concerns t) ∧ GivesUp code t call e m''

theorem Sound.fails (hs : Sound m) (hb : Bound m) {timer : Timer} {e : ClockError}
    (ht : m.threads[t]? = some (call.thread (.reading timer)))
    (hnow : m.clocks.now m.mono timer.clock = .error e) : Fails code t call e m := by
  have hstep : m.step code t =
      some { m with threads := m.threads.set t (call.thread (.leaving (.failed e))) } := by
    rw [step_of_reading ht rfl, hnow]
    rfl
  have hshown : m.shown code t = .read t (.error e) := by
    rw [shown_waiting ht rfl, waitShown, hnow]
  have move : Next code m _ _ := .own (.step hstep)
  refine ⟨hshown, _, hstep, rfl, fun es m' run hin => ?_⟩
  obtain ⟨ht', hes⟩ := run.leaving (hs.next move)
    (getElem?_set_self_of_getElem? ht _) hin
  exact ⟨hes, (run.invariant Sound.next (hs.next move)).givesUp
    (run.invariant Bound.next (hb.next move)) ht'⟩

/-- In every run of any threads, take a thread in a call with a deadline whose clock fails. If it
reads the clock for the deadline, the call is over at once with this failure: the thread is not
registered, it has its mutex, and nothing but its own place is different. If it reads the clock in a
wait, no matter how often it has parked, then no notification has come to that wait, and the
thread gives up and goes on with this failure. Calls without a deadline come back with no failure
of the clock. -/
theorem clock_failure_of_run {m₀ m : Machine σ κ ε} {es₀ : List Event} (hfresh : Fresh m₀)
    (hrun₀ : Run (Next code) m₀ es₀ m) (t : ThreadId) (mutex : MutexId) :
    (∀ (call : DeadlineCall code μ) (memory : μ) (cv : Condvar) (e : ClockError),
      call.Arms t mutex m memory → m.condvars[call.condvar]? = some cv →
      m.clocks.now m.mono cv.clock = .error e →
      ∃ place, code place = call.failed memory (.clock e) ∧
        m.step code t =
          some { m with threads := m.threads.set t ⟨.running place, some mutex⟩ } ∧
        m.shown code t = .silent ∧ m.holder? mutex = some (some t)) ∧
    (∀ (call : DeadlineCall code μ) (memory : μ) (c : Call κ) (cv : Condvar) (m₁ m₂ : Machine σ κ ε)
      (es : List Event) (timer : Timer) (e : ClockError),
      call.Blocks mutex memory c → Registers code t c cv m m₁ → Run (Next code) m₁ es m₂ →
      (∀ condvar how, .returned t condvar how ∉ es) →
      m₂.threads[t]? = some (c.thread (.reading timer)) →
      m₂.clocks.now m₂.mono cv.clock = .error e →
      wakeups t es = 0 ∧ Fails code t c e m₂ ∧
        code (c.next (.error (.clock e))) = call.failed memory (.clock e)) ∧
    (∀ c : Call κ, m.threads[t]? = some (c.thread .entering) → c.deadline = none →
      ∀ es m', Run (Next code) m es m' →
        InUntimed t c m' ∨ ∃ r, (∀ e, r ≠ .error (.clock e)) ∧ CameTo code m es fun m' =>
          m'.threads[t]? = some ⟨.running (c.next r), some c.mutex⟩) ∧
    ∀ (w : PredicateWait code μ) (memory : μ),
      w.Stands t mutex m (.running Policy.forever.start memory) →
      ∀ es m', Run (Next code) m es m' →
        w.InForever t mutex m' ∨
        ∃ r memory, (∀ e, r ≠ .error (.clock e)) ∧ CameTo code m es fun m' =>
          w.Stands t mutex m' (.running (.done r) memory) := by
  have hs : Sound m := hrun₀.invariant Sound.next hfresh.sound
  have hb : Bound m := hrun₀.invariant Bound.next hfresh.bound
  refine ⟨?_, ?_, ?_, ?_⟩
  · intro call memory cv e harms hcv hnow
    obtain ⟨place, next, ht, hcode, herror⟩ := harms.exists_read
    have hread : m.readClock cv.clock = .error (.clock e) := by
      rw [readClock, hnow]
      rfl
    refine ⟨next (.error (.clock e)), herror _, ?_, ?_, hs.guarded.holder ht rfl⟩
    · rw [step_of_read ht hcode hcv, hread]
    · rw [shown_running ht rfl, hcode]
      rfl
  · intro call memory c cv m₁ m₂ es timer e hblocks hregisters run hin ht hnow
    have hs₁ : Sound m₁ := hs.next (.own (.step hregisters.step))
    have hb₁ : Bound m₁ := hb.next (.own (.step hregisters.step))
    obtain ⟨deadline, hdeadline⟩ := hblocks.exists_deadline
    have ht₁ := hregisters.registered
    rw [hdeadline] at ht₁
    obtain ⟨stage, hstage, -, trace⟩ := run.trace hs₁ ht₁ (registered_ne_entering _ _) hin
    obtain rfl : stage = .reading timer := by simpa [Call.thread, hstage] using ht
    have htimer : timer.clock = cv.clock := trace.timed.1.1
    rw [← htimer] at hnow
    refine ⟨?_, (run.invariant Sound.next hs₁).fails (run.invariant Bound.next hb₁) ht hnow,
      hblocks.code_error _⟩
    exact (trace.wakeups rfl (by simp [Stage.registered])).1
  · intro c ht hdeadline es m' run
    have hmove {m e m'} (hm : Next code m e m') (hs : Sound m) (h : InUntimed t c m) :=
      h.next hdeadline hm hs
    rcases run.keeps_or_cameTo hs hmove ⟨.entering, ht, rfl⟩ with
      hin | ⟨before, after, m', hes, run', r, hr, ht'⟩
    · exact .inl hin
    · exact .inr ⟨r, hr.ne_clock, before, after, m', hes, run', ht'⟩
  · intro w memory hstands es m' run
    have hmove {m e m'} (hm : Next code m e m') (hs : Sound m) (h : w.InForever t mutex m) :=
      h.next hm hs
    rcases run.keeps_or_cameTo hs hmove ⟨memory, .inl hstands⟩ with
      hin | ⟨before, after, m', hes, run', r, memory, hr, hdone⟩
    · exact .inl hin
    · exact .inr ⟨r, memory, hr, before, after, m', hes, run', hdone⟩

/-- A script that waits on the boot clock for 300 milliseconds. -/
def intervalWait : Script.Place :=
  { condvar := 0, clock := .boottime, mutex := 0
    rest := [{ operation := .waitFor (.ofMillis 300) }] }

/-- The wait for an interval of a scripted thread. -/
def scriptedWaitFor (p : Script.Place) (interval : Duration) (start : Option Int) :
    DeadlineCall Script.code Unit :=
  .waitFor p.condvar interval (fun r => p.moveTo (.armed interval start r))
    (fun r => p.moveTo (.ending (Script.Place.statusAnswer r) start)) (fun _ => rfl) (fun _ => rfl)

/-- Clocks that fail. -/
def failingWith (errno : Errno) : Clocks :=
  let clock : VirtualClock := ⟨0, 0, 1, 1, some (.failed errno)⟩
  ⟨clock, clock, clock, clock⟩

/-- A slice of the script's wait runs out while another thread is queued, and then the clock fails.
The script gives up, and the other thread is still inside. -/
theorem clock_failure_of_slice : ∃ (es₀ es : List Event) (m m₁ m₂ m₃ : ScriptMachine)
    (call : DeadlineCall Script.code Unit) (c : Call Script.Place) (cv : Condvar) (timer : Timer)
    (e : ClockError),
    Fresh (World.start 0 0 0 0).machine ∧
    Run (Next Script.code) (World.start 0 0 0 0).machine es₀ m ∧ call.Blocks 0 () c ∧
    Registers Script.code 0 c cv m m₁ ∧ Run (Next Script.code) m₁ es m₂ ∧
    (∀ condvar how, .returned 0 condvar how ∉ es) ∧ parks 0 es = 1 ∧
    m₂.threads[0]? = some (c.thread (.reading timer)) ∧
    m₂.clocks.now m₂.mono cv.clock = .error e ∧ wakeups 0 es = 0 ∧ m₂.registered 0 = 2 ∧
    m₂.step Script.code 0 = some m₃ ∧ GivesUp Script.code 0 c e m₃ ∧
    (m₃.left 0 c (.failed e)).registered 0 = 1 := by
  have spawned : Run (Next Script.code) (World.start 0 0 0 0).machine _ _ :=
    ((Run.nil.snoc (.act (.bind none .boottime))).snoc (.act (.spawn intervalWait))).snoc
      (.act (.spawn plainWait))
  -- locks, reads the clock and waits
  have waits := spawned.play [.step 0, .step 0, .step 0] rfl
  let start : Script.Place := intervalWait.moveTo .fetching
  let c : Call Script.Place := ⟨0, some (Time.new 0 300000000),
    fun r => start.moveTo (.ending (Script.Place.statusAnswer r) none), 0⟩
  let failing (m : ScriptMachine) : ScriptMachine :=
    { m with threads := m.threads.set 0 (c.thread (.leaving (.failed (.read .boottime .perm)))) }
  obtain ⟨m, m₁, m₂, timer, es, waits, hregisters, run, hin, hparks, ht, hnow, hcount, hleft⟩ :
      ∃ (m m₁ m₂ : ScriptMachine) (timer : Timer) (es : List Event),
        Run (Next Script.code) (World.start 0 0 0 0).machine _ m ∧
        Registers Script.code 0 c ⟨.boottime, {}⟩ m m₁ ∧ Run (Next Script.code) m₁ es m₂ ∧
        es.any Event.isReturned = false ∧ parks 0 es = 1 ∧
        m₂.threads[0]? = some (c.thread (.reading timer)) ∧
        m₂.clocks.now m₂.mono .boottime = .error (.read .boottime .perm) ∧ m₂.registered 0 = 2 ∧
        ((failing m₂).left 0 c (.failed (.read .boottime .perm))).registered 0 = 1 :=
    -- the other thread comes and is queued while the first one is parked
    ⟨_, _, _, _, _, waits, ⟨rfl, rfl, rfl, rfl⟩,
      ((Run.of_play [.step 0, .step 0, .step 1, .step 1, .step 1, .step 1, .expire 0, .step 0]
        rfl).mono .own).snoc (.own (.clocks (failingWith .perm))), rfl, rfl, rfl, rfl, rfl, rfl⟩
  have hin := not_mem_of_any_isReturned hin 0
  have hblocks : (scriptedWaitFor start (.ofMillis 300) none).Blocks 0 () c := .waitFor Time.zero
  obtain ⟨hwakeups, ⟨-, m₃, hstep, rfl, hgives⟩, -⟩ :=
    (clock_failure_of_run (World.fresh_start 0 0 0 0) waits 0 0).2.1 _ () c _ m₁ m₂ es timer _
      hblocks hregisters run hin ht hnow
  obtain ⟨-, hgives⟩ := hgives [] _ .nil fun _ _ => List.not_mem_nil
  exact ⟨_, es, m, m₁, m₂, _, _, c, _, timer, _, World.fresh_start 0 0 0 0, waits, hblocks,
    hregisters, run, hin, hparks, ht, hnow, hwakeups, hcount, hstep, hgives, hleft⟩

end Machine

end TimedCondvar
