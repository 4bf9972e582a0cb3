import Mathlib.Algebra.GroupWithZero.Nat
import TimedCondvar.Proofs.Scripts
import TimedCondvar.Proofs.TimedWait

/-!
Notifications are conserved. What notifications report as woken is, at any time, the number of waits
that returned as notified together with those that were notified and have still to return. Nothing
that happens between a notification and the return of the wait it woke is a second notification,
and nothing turns it into a time-out or an error.
-/

namespace TimedCondvar

/-- Being notified is what a wait ends with if it returns as signalled and logs nothing of its
own. -/
theorem WaitEnd.eq_notified_iff {how : WaitEnd} :
    how = .notified ↔ how.result = .ok .signaled ∧ how.records = [] := by
  cases how <;> simp [result, records]

theorem Timer.pass_ne_notified (timer : Timer) (reading : Except ClockError Time) :
    timer.pass reading ≠ .finish .notified := by
  intro h
  have hend := ending_of_finish h
  cases reading with
  | error e => cases hend
  | ok now =>
      rw [ending] at hend
      split at hend <;> cases hend

namespace Stage

/-- Whether the wait was notified. -/
def notified : Stage → Bool
  | .woken true _ | .leaving .notified => true
  | _ => false

@[simp] theorem notified_registered (clock : Clock) (deadline : Option Time) :
    (registered clock deadline).notified = false := by
  cases deadline <;> rfl

@[simp] theorem notified_ofPass (timer : Timer) (reading : Except ClockError Time) :
    (ofPass timer (timer.pass reading)).notified = false := by
  cases hpass : timer.pass reading with
  | park p => rfl
  | finish how =>
      cases how with
      | notified => exact absurd hpass (timer.pass_ne_notified reading)
      | _ => rfl

/-- Taking the mutex again changes nothing about having been notified. -/
theorem notified_ofWake {b : Bool} {timed : Option (Timer × Park)}
    (h : woken b timed ≠ .woken false none) :
    (ofWake b timed).notified = (woken b timed).notified := by
  cases b with
  | true => cases timed <;> rfl
  | false =>
      cases timed with
      | none => exact absurd rfl h
      | some timed => rfl

theorem notified_leaving_iff {how : WaitEnd} :
    (leaving how).notified = true ↔ how = .notified := by
  cases how <;> simp [notified]

end Stage

namespace Control

variable {κ : Type}

/-- The condition variable on which the thread was notified, until it has left the wait. -/
def notifiedOn : Control κ → Option CondvarId
  | .waiting condvar _ stage _ => if stage.notified then some condvar else none
  | _ => none

@[simp] theorem notifiedOn_wake_false (c : Control κ) :
    (c.wake false).notifiedOn = c.notifiedOn := by
  cases c with
  | waiting condvar deadline stage next => cases stage <;> rfl
  | _ => rfl

/-- A notification of a parked thread counts for it at once. -/
theorem notifiedOn_of_parkedOn {c : Control κ} {condvar : CondvarId}
    (h : c.parkedOn = some (some condvar)) :
    c.notifiedOn = none ∧ (c.wake true).notifiedOn = some condvar := by
  cases c with
  | waiting condvar' deadline stage next =>
      cases stage with
      | queued timed =>
          obtain rfl : condvar' = condvar := by simpa [parkedOn] using h
          exact ⟨rfl, rfl⟩
      | _ => simp [parkedOn] at h
  | _ => simp [parkedOn] at h

end Control

namespace Machine

variable {σ κ ε : Type}

/-! ### The balance

Every move keeps the balance between what notifications reported and what came of it. -/

/-- How many waiters of `condvar` a notification reported as woken. -/
def Event.delivered (condvar : CondvarId) : Event → Nat
  | .woke c _ result => if c = condvar then result.count else 0
  | _ => 0

/-- Counts a wait on `condvar` that returned as signalled and did not warn. -/
def Event.received (condvar : CondvarId) : Event → Nat
  | .returned _ c how =>
    if c = condvar ∧ how.result = .ok .signaled ∧ how.records = [] then 1 else 0
  | _ => 0

/-- The sum of all that notifications of `condvar` reported. -/
def delivered (condvar : CondvarId) (es : List Event) : Nat :=
  (es.map (Event.delivered condvar)).sum

/-- How many waits on `condvar` returned because they were notified. -/
def received (condvar : CondvarId) (es : List Event) : Nat :=
  (es.map (Event.received condvar)).sum

/-- How many waits on `condvar` were notified and have not returned yet. -/
def pending (m : Machine σ κ ε) (condvar : CondvarId) : Nat :=
  m.threads.countP (·.control.notifiedOn == some condvar)

variable {code : κ → Command σ κ ε} {m m' : Machine σ κ ε} {t : ThreadId} {th th' : Thread κ}
  {e : Event}

theorem pending_of_set (ht : m.threads[t]? = some th)
    (hset : m'.threads = m.threads.set t th') (condvar : CondvarId) :
    m'.pending condvar + (if th.control.notifiedOn = some condvar then 1 else 0) =
      m.pending condvar + (if th'.control.notifiedOn = some condvar then 1 else 0) := by
  rw [pending, pending]
  exact count_of_set Control.notifiedOn ht hset condvar

/-- A step that notifies nobody and lets nobody return. -/
theorem pending_of_set_eq (ht : m.threads[t]? = some th)
    (hset : m'.threads = m.threads.set t th')
    (h : th'.control.notifiedOn = th.control.notifiedOn) (condvar : CondvarId) :
    m'.pending condvar = m.pending condvar := by
  have hcount := pending_of_set ht hset condvar
  rw [h] at hcount
  omega

theorem pending_congr (h : ∀ u : ThreadId, (m'.threads[u]?).map (·.control.notifiedOn) =
    (m.threads[u]?).map (·.control.notifiedOn)) (condvar : CondvarId) :
    m'.pending condvar = m.pending condvar :=
  countP_congr_map h (· == some condvar)

/-- Threads that are woken one after the other are counted one after the other. -/
theorem countP_wakeAll (p : Thread κ → Bool) (ts : List ThreadId) (hnodup : ts.Nodup)
    (m : Machine σ κ ε) (h : ∀ t ∈ ts, ∃ th, m.threads[t]? = some th ∧ p th = false ∧
      p (th.wake true) = true) :
    (ts.foldl (wake · true) m).threads.countP p = m.threads.countP p + ts.length := by
  induction ts generalizing m with
  | nil => rfl
  | cons t ts ih =>
      obtain ⟨hnot, hnodup⟩ := List.nodup_cons.mp hnodup
      obtain ⟨th, ht, hp, hp'⟩ := h t List.mem_cons_self
      have hset : (m.wake true t).threads = m.threads.set t (th.wake true) :=
        modify_eq_set ht (Thread.wake true)
      have hfirst := countP_set_of_getElem? ht (th.wake true) p
      rw [← hset, hp, hp'] at hfirst
      -- the others are still as they were
      have hrest : ∀ u ∈ ts, ∃ th, (m.wake true t).threads[u]? = some th ∧ p th = false ∧
          p (th.wake true) = true := by
        intro u hu
        have htu : t ≠ u := fun htu => hnot (htu ▸ hu)
        rw [getElem?_threads_wake, if_neg htu]
        exact h u (List.mem_cons_of_mem t hu)
      rw [List.foldl_cons, ih hnodup _ hrest, List.length_cons]
      simp only [Bool.false_eq_true, if_false, if_true] at hfirst
      omega

theorem Parking.nodup_woken (h : Parking m) (condvar : CondvarId) (all : Bool) :
    (m.woken condvar all).Nodup := by
  rw [woken]
  split
  · exact h.nodup_queue condvar
  · exact (h.nodup_queue condvar).sublist (List.take_sublist 1 _)

/-- A notification leaves as many threads to return as it reports. -/
theorem Parking.pending_notify (h : Parking m) (thread : Option ThreadId) (c : CondvarId)
    (all : Bool) (condvar : CondvarId) :
    (m.notify thread c all).1.pending condvar =
      m.pending condvar + if c = condvar then (m.notify thread c all).2.count else 0 := by
  have hparked : ∀ u ∈ m.woken c all, ∃ th, m.threads[u]? = some th ∧
      th.control.notifiedOn = none ∧ (th.control.wake true).notifiedOn = some c := by
    intro u hu
    have hq := h.mem_queue_iff.mp (mem_queue_of_mem_woken hu)
    obtain ⟨th, hth, hq⟩ := Option.bind_eq_some_iff.mp hq
    exact ⟨th, hth, Control.notifiedOn_of_parkedOn hq⟩
  split
  · rename_i hc
    subst hc
    rw [result_notify, WakeResult.count_ofCount]
    refine countP_wakeAll _ (m.woken c all) (h.nodup_woken c all) m fun u hu => ?_
    obtain ⟨th, hth, hnone, hsome⟩ := hparked u hu
    exact ⟨th, hth, by simp [hnone], by simp [hsome]⟩
  · rename_i hc
    -- the woken threads count for another condition variable
    have hsame : ∀ u : ThreadId,
        ((m.notify thread c all).1.threads[u]?).map (·.control.notifiedOn == some condvar) =
          (m.threads[u]?).map (·.control.notifiedOn == some condvar) := by
      intro u
      rw [getElem?_threads_notify]
      split
      · rename_i hu
        obtain ⟨th, hth, hnone, hsome⟩ := hparked u hu
        simp [hth, hnone, hsome, hc]
      · rfl
    exact countP_congr_map hsame id

theorem Calm.unnotified {cmd : Command σ κ ε} {notes : List (Note ε)} {c : Control κ}
    (h : Calm m cmd notes c) : c.notifiedOn = none := by
  cases h <;> rfl

section

variable (ht : m.threads[t]? = some th) (condvar : CondvarId)

include ht

/-- The balance of a step that shows nothing of a notification. -/
theorem balance_of_quiet (hset : m'.threads = m.threads.set t th')
    (hd : e.delivered condvar = 0) (hr : e.received condvar = 0)
    (hn : th'.control.notifiedOn = th.control.notifiedOn) :
    e.delivered condvar + m.pending condvar = e.received condvar + m'.pending condvar := by
  rw [hd, hr, pending_of_set_eq ht hset hn]

theorem balance_of_running {place : κ} (hc : th.control = .running place)
    (hset : m'.threads = m.threads.set t th')
    (he : m.commandShown t (code place) = .silent) (hn : th'.control.notifiedOn = none) :
    (m.shown code t).delivered condvar + m.pending condvar =
      (m.shown code t).received condvar + m'.pending condvar := by
  have hshown : m.shown code t = .silent := (shown_running ht hc).trans he
  rw [hshown]
  refine balance_of_quiet ht condvar hset rfl rfl ?_
  rw [hn, hc]
  rfl

theorem balance_of_waiting {c : CondvarId} {deadline : Option Time} {stage stage' : Stage}
    {next : Except SyncError WaitStatus → κ} (hc : th.control = .waiting c deadline stage next)
    (hc' : th'.control = .waiting c deadline stage' next)
    (hset : m'.threads = m.threads.set t th') (hr : (m.waitShown t c stage).received condvar = 0)
    (hn : stage'.notified = stage.notified) :
    (m.shown code t).delivered condvar + m.pending condvar =
      (m.shown code t).received condvar + m'.pending condvar := by
  rw [shown_waiting ht hc]
  refine balance_of_quiet ht condvar hset ?_ hr (by rw [hc, hc', Control.notifiedOn, hn]; rfl)
  cases stage <;> rfl

theorem balance_of_leaving {c : CondvarId} {deadline : Option Time} {how : WaitEnd}
    {next : Except SyncError WaitStatus → κ}
    (hc : th.control = .waiting c deadline (.leaving how) next)
    (hset : m'.threads = m.threads.set t th') (hn : th'.control.notifiedOn = none) :
    (m.shown code t).delivered condvar + m.pending condvar =
      (m.shown code t).received condvar + m'.pending condvar := by
  have hshown : m.shown code t = .returned t c how := shown_waiting ht hc
  have hpending := pending_of_set ht hset condvar
  -- the thread was counted as pending just if its return is counted as received
  have hind : (if th.control.notifiedOn = some condvar then 1 else 0) =
      (Event.returned t c how).received condvar := by
    rw [hc, Event.received, Control.notifiedOn]
    simp only [← WaitEnd.eq_notified_iff, Stage.notified_leaving_iff]
    by_cases hhow : how = .notified <;> simp [hhow]
  rw [hn, hind] at hpending
  rw [hshown]
  simp only [Event.delivered] at hpending ⊢
  simp at hpending
  omega

theorem Parking.balance_notify (h : Parking m) {place : κ} {c : CondvarId} {all : Bool}
    {next : WakeResult → κ} (hc : th.control = .running place)
    (hcode : code place = .notify c all next)
    (hset : m'.threads = (m.notify t c all).1.threads.set t th')
    (hn : th'.control.notifiedOn = none) :
    (m.shown code t).delivered condvar + m.pending condvar =
      (m.shown code t).received condvar + m'.pending condvar := by
  have hshown : m.shown code t = .woke c (m.woken c all) (m.notify t c all).2 := by
    rw [shown_running ht hc, hcode]
    rfl
  have hself : th'.control.notifiedOn = th.control.notifiedOn := by
    rw [hn, hc]
    rfl
  have hpending := h.pending_notify t c all condvar
  rw [hshown, pending_of_set_eq (notify_running m t c all ht hc) hset hself, hpending]
  simp only [Event.delivered, Event.received]
  omega

end

/-- The balance of one step. -/
theorem Sound.balance_step (h : Sound m) (ht : m.threads[t]? = some th)
    (hs : Stepped code m t th m') (condvar : CondvarId) :
    (m.shown code t).delivered condvar + m.pending condvar =
      (m.shown code t).received condvar + m'.pending condvar := by
  cases hs with
  | lock hc hcode hx hfree => exact balance_of_running ht condvar hc rfl (by rw [hcode]; rfl) rfl
  | unlock hc hcode hg => exact balance_of_running ht condvar hc rfl (by rw [hcode]; rfl) rfl
  | access hc hcode hg hx => exact balance_of_running ht condvar hc rfl (by rw [hcode]; rfl) rfl
  | calm line hc hcalm => exact balance_of_running ht condvar hc rfl hcalm.silent hcalm.unnotified
  | notify hc hcode => exact h.parking.balance_notify ht condvar hc hcode rfl rfl
  | sleep hc hcode hl => exact balance_of_running ht condvar hc rfl (by rw [hcode]; rfl) rfl
  | reject hc hg hcv hconflict =>
      have hshown : m.shown code t = .silent := shown_waiting ht hc
      rw [hshown]
      exact balance_of_quiet ht condvar rfl rfl rfl (by rw [hc]; rfl)
  | register hc hg hcv hconflict =>
      exact balance_of_waiting ht condvar hc rfl rfl rfl (Stage.notified_registered ..)
  | read hc => exact balance_of_waiting ht condvar hc rfl rfl rfl (Stage.notified_ofPass ..)
  | park hc hg => exact balance_of_waiting ht condvar hc rfl rfl rfl (by rfl)
  | @retake c deadline notified timed next mutex x hc hg hx hfree =>
      -- a wait without a deadline has no park that could have run out
      have hover := h.endless.woken ht
      have hstage : Stage.woken notified timed ≠ .woken false none := by
        intro hstage
        rw [hc, hstage] at hover
        cases hover
      exact balance_of_waiting ht condvar hc rfl rfl rfl (Stage.notified_ofWake hstage)
  | leave hc => exact balance_of_leaving ht condvar hc rfl rfl

/-- The balance of one move. -/
theorem Sound.balance (h : Sound m) (hm : Next code m e m') (condvar : CondvarId) :
    e.delivered condvar + m.pending condvar = e.received condvar + m'.pending condvar := by
  have same (hp : m'.pending condvar = m.pending condvar) (hd : e.delivered condvar = 0)
      (hr : e.received condvar = 0) :
      e.delivered condvar + m.pending condvar = e.received condvar + m'.pending condvar := by
    rw [hp, hd, hr]
  cases hm with
  | own ho =>
      cases ho with
      | step hs =>
          obtain ⟨th, ht, hst⟩ := stepped_of_step hs
          exact h.balance_step ht hst condvar
      | @expire p u instant hp hu hle =>
          refine same (pending_congr (fun v => ?_) condvar) rfl rfl
          rw [woke_expire m instant p.thread v]
          split
          · cases m.threads[v]? <;> simp
          · rfl
      | tick instant => exact same rfl rfl rfl
      | clocks clocks => exact same rfl rfl rfl
  | act ha =>
      cases ha with
      | spawn place =>
          refine same ?_ rfl rfl
          rw [pending, pending, spawn, List.countP_append]
          simp [Control.notifiedOn]
      | bind thread clock => exact same (by rw [pending, pending, bind_threads]) rfl rfl
      | notify thread c all =>
          rw [h.parking.pending_notify thread c all condvar]
          simp only [Event.delivered, Event.received]
          omega
      | modify mutex f => exact same rfl rfl rfl
      | log log => exact same rfl rfl rfl

/-- The balance of a run. -/
theorem Run.balance {es : List Event} (run : Run (Next code) m es m') (h : Sound m)
    (condvar : CondvarId) : delivered condvar es + m.pending condvar =
      received condvar es + m'.pending condvar := by
  induction run with
  | nil => rfl
  | @snoc es e m₁ m₂ run move ih =>
      have hmove := (run.invariant Sound.next h).balance move condvar
      have hd : delivered condvar (es ++ [e]) = delivered condvar es + e.delivered condvar := by
        simp [delivered]
      have hr : received condvar (es ++ [e]) = received condvar es + e.received condvar := by
        simp [received]
      rw [hd, hr]
      omega

theorem Fresh.pending_eq_zero (h : Fresh m) (condvar : CondvarId) : m.pending condvar = 0 := by
  rw [pending, List.countP_eq_zero]
  intro th hth
  obtain ⟨⟨place, hplace⟩, -⟩ := h.threads th hth
  simp [hplace, Control.notifiedOn]

/-! ### One call

A wait is woken by one notification at most, and from then on it can only return as notified. -/

/-- How often a notification woke thread `t`. -/
def wakeups (t : ThreadId) (es : List Event) : Nat :=
  es.countP fun
    | .woke _ threads _ => t ∈ threads
    | _ => false

/-- What one move adds to being notified. -/
theorem Moved.wakeups {condvar : CondvarId} {stage stage' : Stage}
    (h : Moved t condvar e stage stage') (hs : stage ≠ .woken false none) :
    wakeups t [e] + stage.notified.toNat = stage'.notified.toNat ∧ stage' ≠ .woken false none := by
  cases h with
  | stay hc =>
      refine ⟨?_, hs⟩
      cases e with
      | woke c threads result =>
          have ht : t ∉ threads := hc
          simp [Machine.wakeups, ht]
      | _ => simp [Machine.wakeups]
  | read timer reading =>
      refine ⟨by rw [Stage.notified_ofPass]; rfl, ?_⟩
      cases timer.pass reading <;> exact nofun
  | park timed => exact ⟨rfl, nofun⟩
  | notified timed result ht => exact ⟨by simp [Machine.wakeups, ht, Stage.notified], nofun⟩
  | expired timed => exact ⟨rfl, nofun⟩
  | retake b timed =>
      rw [Stage.notified_ofWake hs]
      refine ⟨by simp [Machine.wakeups], ?_⟩
      cases timed <;> cases b <;> exact nofun

/-- A wait was notified just if it was woken by a notification, and that happened once. -/
theorem Trace.wakeups {condvar : CondvarId} {stage stage' : Stage} {es : List Event}
    (h : Trace t condvar stage es stage') (hn : stage.notified = false)
    (hs : stage ≠ .woken false none) :
    wakeups t es = stage'.notified.toNat ∧ stage' ≠ .woken false none := by
  induction h with
  | nil => exact ⟨by rw [hn]; rfl, hs⟩
  | @snoc es e stage₁ stage₂ trace moved ih =>
      obtain ⟨hcount, hs₁⟩ := ih
      obtain ⟨hmove, hs₂⟩ := moved.wakeups hs₁
      refine ⟨?_, hs₂⟩
      have happend : Machine.wakeups t (es ++ [e]) =
          Machine.wakeups t es + Machine.wakeups t [e] := List.countP_append
      omega

/-- A registered wait that has not returned was notified once or not at all, and it is once it was
notified, and only then, that it returns as notified. -/
theorem Run.wakeups {call : Call κ} {cv : Condvar} {m₁ m₂ : Machine σ κ ε} {es : List Event}
    (h : Sound m) (ht : m.threads[t]? = some (call.thread .entering))
    (hcv : m.condvars[call.condvar]? = some cv) (hno : cv.binding.conflict? call.mutex = none)
    (hstep : m.step code t = some m₁) (run : Run (Next code) m₁ es m₂)
    (hin : ∀ c how, .returned t c how ∉ es) :
    ∃ stage, m₂.threads[t]? = some (call.thread stage) ∧
      wakeups t es = stage.notified.toNat := by
  have h₁ : Sound m₁ := h.next (.own (.step hstep))
  have ht₁ := thread_of_register hcv ht hno hstep
  have hne : Stage.registered cv.clock call.deadline ≠ .entering := by
    cases call.deadline <;> exact nofun
  have hne' : Stage.registered cv.clock call.deadline ≠ .woken false none := by
    cases call.deadline <;> exact nofun
  obtain ⟨stage, ht₂, -, trace⟩ := run.trace h₁ ht₁ hne hin
  exact ⟨stage, ht₂, (trace.wakeups (Stage.notified_registered ..) hne').1⟩

/-- At rest, a notification finds all who wait. -/
theorem notify_of_resting {w₀ w : ScriptMachine} (hfresh : Fresh w₀) (hscripted : Scripted w₀)
    (hleads : World.Leads w₀ w) (hrest : Resting w) {condvar : CondvarId} {cv : Condvar}
    (hcv : w.condvars[condvar]? = some cv) (thread : Option ThreadId) :
    (w.notify thread condvar false).2 =
        (if 0 < cv.binding.waiters then .woken 1 else .noWaiters) ∧
      (w.notify thread condvar true).2.count = cv.binding.waiters := by
  obtain ⟨es, run⟩ := hleads
  have hsound : Sound w := run.invariant (fun hm h => h.next hm.next) hfresh.sound
  have hbound : Bound w := run.invariant (fun hm h => h.next hm.next) hfresh.bound
  have hscripted : Scripted w := run.invariant Scripted.move hscripted
  have hqueue := hscripted.length_queue hsound.guarded hsound.parking hrest condvar
  rw [← hbound.count hcv] at hqueue
  constructor
  · have hwoken : w.woken condvar false = (w.queue condvar).take 1 := rfl
    rw [result_notify, hwoken, List.length_take, hqueue, WakeResult.ofCount]
    split
    · rename_i hnone
      rw [if_neg (by omega)]
    · rename_i hsome
      rw [if_pos (by omega), Nat.min_eq_left (by omega)]
  · rw [result_notify, WakeResult.count_ofCount]
    exact hqueue

/-- Over every run of any threads, the counts that notifications of a condition variable reported
add up to the waits that returned because they were notified and those that were notified and have
not returned. A registered wait is woken by one notification at most, and just if it was, it
returns as signalled and logs nothing: no reading and no fault of its clock makes it time out or
fail. And whenever no scripted thread can run, a signal wakes one waiter if there is any, and a
broadcast all. -/
theorem notifications_conserved {m₀ : Machine σ κ ε} {es : List Event} (hfresh : Fresh m₀)
    (hrun : Run (Next code) m₀ es m) (condvar : CondvarId) :
    delivered condvar es = received condvar es + m.pending condvar ∧
    (∀ {t : ThreadId} {call : Call κ} {cv : Condvar} {m₁ m₂ : Machine σ κ ε} {es' : List Event},
      m.threads[t]? = some (call.thread .entering) → m.condvars[call.condvar]? = some cv →
      cv.binding.conflict? call.mutex = none → m.step code t = some m₁ →
      Run (Next code) m₁ es' m₂ → (∀ c how, .returned t c how ∉ es') →
      ∃ stage, m₂.threads[t]? = some (call.thread stage) ∧ wakeups t es' ≤ 1 ∧
        (wakeups t es' = 1 ↔ stage.notified = true) ∧
        ∀ how, stage = .leaving how →
          (wakeups t es' = 1 ↔ how.result = .ok .signaled ∧ how.records = [])) ∧
    ∀ {monotonic monotonicRaw boottime realtime : Int} {w : ScriptMachine} {cv : Condvar},
      World.Leads (World.start monotonic monotonicRaw boottime realtime).machine w →
      Resting w → w.condvars[condvar]? = some cv → ∀ thread,
      (w.notify thread condvar false).2 =
          (if 0 < cv.binding.waiters then .woken 1 else .noWaiters) ∧
        (w.notify thread condvar true).2.count = cv.binding.waiters := by
  refine ⟨?_, ?_, ?_⟩
  · have hbalance := hrun.balance hfresh.sound condvar
    rw [hfresh.pending_eq_zero] at hbalance
    exact hbalance
  · intro t call cv m₁ m₂ es' ht hcv hno hstep run hin
    have hsound : Sound m := hrun.invariant Sound.next hfresh.sound
    obtain ⟨stage, ht₂, hcount⟩ := run.wakeups hsound ht hcv hno hstep hin
    have hone : wakeups t es' = 1 ↔ stage.notified = true := by
      rw [hcount]
      cases stage.notified <;> simp
    refine ⟨stage, ht₂, ?_, hone, ?_⟩
    · rw [hcount]
      exact Bool.toNat_le _
    · rintro how rfl
      rw [hone, Stage.notified_leaving_iff, WaitEnd.eq_notified_iff]
  · intro monotonic monotonicRaw boottime realtime w cv hleads hrest hcv thread
    exact notify_of_resting (World.fresh_start ..) (scripted_start ..) hleads hrest hcv thread

/-- A world in which one script waits. -/
def waitingWorld : World :=
  (((World.start 0 0 0 0).perform (.bind .monotonic)).1.perform
    (.spawn 0 0 [{ operation := .wait }])).1

/-- Two scripted threads wait. Two signals: the first waiter has returned, the second one has not
yet. One waiter seen from its registration to its notification. A world with a waiter at rest. -/
theorem notifications_conserved_of_signals :
    (∃ es m, Fresh (World.start 0 0 0 0).machine ∧
      Run (Next Script.code) (World.start 0 0 0 0).machine es m ∧
      delivered 0 es = 2 ∧ received 0 es = 1 ∧ m.pending 0 = 1) ∧
    (∃ (es es' : List Event) (m m₁ m₂ : ScriptMachine) (call : Call Script.Place) (cv : Condvar),
      Run (Next Script.code) (World.start 0 0 0 0).machine es m ∧
      m.threads[0]? = some (call.thread .entering) ∧ m.condvars[call.condvar]? = some cv ∧
      cv.binding.conflict? call.mutex = none ∧ m.step Script.code 0 = some m₁ ∧
      Run (Next Script.code) m₁ es' m₂ ∧ (∀ c how, .returned 0 c how ∉ es') ∧
      wakeups 0 es' = 1 ∧
      ∃ stage, m₂.threads[0]? = some (call.thread stage) ∧ stage.notified = true) ∧
    ∃ w, World.Reached (World.start 0 0 0 0) w ∧ Resting w.machine ∧
      w.machine.condvars[0]? = some ⟨.monotonic, ⟨some 0, 1⟩⟩ ∧
      (w.machine.notify none 0 false).2 = .woken 1 := by
  have hfresh := World.fresh_start 0 0 0 0
  have bound : Run (Next Script.code) (World.start 0 0 0 0).machine _ _ :=
    Run.nil.snoc (.act (.bind none .monotonic))
  refine ⟨?_, ?_, ?_⟩
  · have spawned := (bound.snoc (.act (.spawn plainWait))).snoc (.act (.spawn plainWait))
    -- both lock, wait, register and park
    have queued := spawned.play
      [.step 0, .step 0, .step 0, .step 0, .step 1, .step 1, .step 1, .step 1] rfl
    -- the first one is woken and returns, the second one is woken
    have signalled := ((queued.snoc (.act (.notify none 0 false))).play
      [.step 0, .step 0] rfl).snoc (.act (.notify none 0 false))
    obtain ⟨es, m, run, hd, hr⟩ :
        ∃ es m, Run (Next Script.code) (World.start 0 0 0 0).machine es m ∧
          delivered 0 es = 2 ∧ received 0 es = 1 := ⟨_, _, signalled, rfl, rfl⟩
    have hsum := (notifications_conserved hfresh run 0).1
    rw [hd, hr] at hsum
    exact ⟨es, m, hfresh, run, hd, hr, by omega⟩
  · have waits := (bound.snoc (.act (.spawn plainWait))).play [.step 0, .step 0] rfl
    obtain ⟨m, m₁, m₂, call, cv, run, ht, hcv, hno, hstep, run'⟩ :
        ∃ (m m₁ m₂ : ScriptMachine) (call : Call Script.Place) (cv : Condvar),
          Run (Next Script.code) (World.start 0 0 0 0).machine _ m ∧
          m.threads[0]? = some (call.thread .entering) ∧ m.condvars[call.condvar]? = some cv ∧
          cv.binding.conflict? call.mutex = none ∧ m.step Script.code 0 = some m₁ ∧
          Run (Next Script.code) m₁ ([.parked 0] ++ [.woke 0 [0] (.woken 1)]) m₂ :=
      ⟨_, _, _, ⟨0, none, _, 0⟩, ⟨.monotonic, {}⟩, waits, rfl, rfl, rfl, rfl,
        ((Run.of_play [.step 0] rfl).mono .own).snoc (.act (.notify none 0 false))⟩
    obtain ⟨stage, hstage, -, hone, -⟩ :=
      (notifications_conserved hfresh run 0).2.1 ht hcv hno hstep run' (by simp)
    exact ⟨_, _, m, m₁, m₂, call, cv, run, ht, hcv, hno, hstep, run', by simp, rfl, stage, hstage,
      hone.mp rfl⟩
  · have reached : World.Reached (World.start 0 0 0 0) waitingWorld :=
      (World.Reached.start.perform (a := .bind .monotonic) trivial).perform
        (a := .spawn 0 0 [{ operation := .wait }]) Nat.zero_lt_one
    have rest : Resting waitingWorld.machine := by
      intro t
      cases t <;> rfl
    have hcv : waitingWorld.machine.condvars[0]? = some ⟨.monotonic, ⟨some 0, 1⟩⟩ := rfl
    have h := (notifications_conserved hfresh bound 0).2.2 reached.leads rest hcv none
    exact ⟨waitingWorld, reached, rest, hcv, h.1⟩

end Machine

end TimedCondvar
