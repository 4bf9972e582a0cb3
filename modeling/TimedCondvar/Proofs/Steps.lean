import TimedCondvar.Proofs.Moves

/-!
What one step of a thread can do. `Stepped` lists it: a constructor for each command that touches
what threads share, one for all commands that do not, and one for each stage of a wait, each with
the machine it leads to. Everything below that is shown of steps goes through this list, and not
through the code of the machine.
-/

namespace TimedCondvar

/-- A thread after its park ended. -/
def Thread.wake {κ : Type} (notified : Bool) (th : Thread κ) : Thread κ :=
  { th with control := th.control.wake notified }

namespace Machine

variable {σ κ ε : Type}

/-! ### Waking

A notification wakes its threads one after the other. What comes of a thread does not depend on
how often it is woken, so a notification can be read thread by thread. -/

theorem wake_wake (b : Bool) (th : Thread κ) : (th.wake b).wake b = th.wake b := by
  obtain ⟨c, g⟩ := th
  cases c with
  | waiting condvar deadline stage next => cases stage <;> rfl
  | _ => rfl

theorem getElem?_threads_wake (m : Machine σ κ ε) (b : Bool) (t u : ThreadId) :
    (m.wake b t).threads[u]? =
      if t = u then (m.threads[u]?).map (Thread.wake b) else m.threads[u]? := by
  change (m.threads.modify t (Thread.wake b))[u]? = _
  rw [List.getElem?_modify]
  split <;> simp

theorem getElem?_threads_wakeAll (ts : List ThreadId) (m : Machine σ κ ε) (u : ThreadId) :
    (ts.foldl (wake · true) m).threads[u]? =
      if u ∈ ts then (m.threads[u]?).map (Thread.wake true) else m.threads[u]? := by
  induction ts generalizing m with
  | nil => simp
  | cons t ts ih =>
      rw [List.foldl_cons, ih, getElem?_threads_wake]
      by_cases htu : t = u
      · subst htu
        -- the rest of the list may name the thread again, to no effect
        have hcomp : (Thread.wake true ∘ Thread.wake true : Thread κ → Thread κ) =
            Thread.wake true := funext (wake_wake true)
        simp [Option.map_map, hcomp]
      · simp [htu, Ne.symm htu]

theorem parked_wakeAll (ts : List ThreadId) (m : Machine σ κ ε) :
    (ts.foldl (wake · true) m).parked = m.parked.filter (·.thread ∉ ts) := by
  induction ts generalizing m with
  | nil => simp
  | cons t ts ih =>
      rw [List.foldl_cons, ih]
      change (m.parked.filter (·.thread != t)).filter _ = _
      rw [List.filter_filter]
      refine List.filter_congr fun p _ => ?_
      by_cases hp : p.thread = t <;> simp [hp]

theorem wakeAll_mutexes (ts : List ThreadId) (m : Machine σ κ ε) :
    (ts.foldl (wake · true) m).mutexes = m.mutexes := by
  induction ts generalizing m with
  | nil => rfl
  | cons t ts ih => exact ih _

theorem wakeAll_condvars (ts : List ThreadId) (m : Machine σ κ ε) :
    (ts.foldl (wake · true) m).condvars = m.condvars := by
  induction ts generalizing m with
  | nil => rfl
  | cons t ts ih => exact ih _

section

variable (m : Machine σ κ ε) (thread : Option ThreadId) (condvar : CondvarId) (all : Bool)

theorem getElem?_threads_notify (u : ThreadId) :
    (m.notify thread condvar all).1.threads[u]? =
      if u ∈ m.woken condvar all then (m.threads[u]?).map (Thread.wake true)
      else m.threads[u]? :=
  getElem?_threads_wakeAll (m.woken condvar all) m u

/-- In `m'` the threads are those of `m` with those of `ts` woken. -/
def Woke (m : Machine σ κ ε) (b : Bool) (ts : List ThreadId) (m' : Machine σ κ ε) : Prop :=
  ∀ u, m'.threads[u]? =
    if u ∈ ts then (m.threads[u]?).map (Thread.wake b) else m.threads[u]?

theorem woke_notify :
    Woke m true (m.woken condvar all) (m.notify thread condvar all).1 :=
  getElem?_threads_notify m thread condvar all

theorem woke_expire (instant : Int) (t : ThreadId) : Woke m false [t] (m.expire instant t) := by
  intro u
  have hwake : (m.expire instant t).threads[u]? = _ :=
    getElem?_threads_wake { m with mono := instant } false t u
  rw [hwake]
  simp [eq_comm]

/-- A thread that runs code is not woken, even if it is asked to be. -/
theorem notify_running {t : ThreadId} {th : Thread κ} {place : κ} (ht : m.threads[t]? = some th)
    (hc : th.control = .running place) :
    (m.notify thread condvar all).1.threads[t]? = some th := by
  obtain ⟨c, g⟩ := th
  obtain rfl : c = .running place := hc
  rw [getElem?_threads_notify, ht]
  split <;> rfl

@[simp] theorem parked_notify : (m.notify thread condvar all).1.parked =
    m.parked.filter (·.thread ∉ m.woken condvar all) :=
  parked_wakeAll (m.woken condvar all) m

@[simp] theorem mutexes_notify : (m.notify thread condvar all).1.mutexes = m.mutexes :=
  wakeAll_mutexes (m.woken condvar all) m

@[simp] theorem condvars_notify : (m.notify thread condvar all).1.condvars = m.condvars :=
  wakeAll_condvars (m.woken condvar all) m

@[simp] theorem result_notify :
    (m.notify thread condvar all).2 = .ofCount (m.woken condvar all).length := rfl

end

/-! ### The list of steps -/

/-- Commands that change nothing but what their own thread does next, and what they write. -/
inductive Calm (m : Machine σ κ ε) : Command σ κ ε → List (Note ε) → Control κ → Prop
  | wait (condvar : CondvarId) (deadline : Option Time) (next : Except SyncError WaitStatus → κ) :
      Calm m (.wait condvar deadline next) [] (.waiting condvar deadline .entering next)
  | read {condvar : CondvarId} {next : Except SyncError Time → κ} {cv : Condvar}
      (hcv : m.condvars[condvar]? = some cv) :
      Calm m (.read condvar next) [] (.running (next (m.readClock cv.clock)))
  | instant (next : Int → κ) : Calm m (.instant next) [] (.running (next m.mono))
  | wallTime (next : Nat → κ) : Calm m (.wallTime next) []
      (.running (next (Uptime.epochNanos (m.clocks.realtime.reply m.mono))))
  | sleep (next : κ) : Calm m (.sleep .zero next) [] (.running next)
  | join {other : ThreadId} {next : κ} (h : m.control? other = some .ended) :
      Calm m (.join other next) [] (.running next)
  | emit (notes : List (Note ε)) (next : κ) : Calm m (.emit notes next) notes (.running next)
  | stop : Calm m .stop [] .ended

/-- The log with new notes of thread `t`. -/
def logWith (m : Machine σ κ ε) (t : ThreadId) (notes : List (Note ε)) : List (Entry ε) :=
  (notes.map (⟨m.mono, some t, ·⟩)).reverse ++ m.log

/-- `Stepped code m t th m'`: in `m`, thread `t` is `th` and its next step leads to `m'`. -/
inductive Stepped (code : κ → Command σ κ ε) (m : Machine σ κ ε) (t : ThreadId) (th : Thread κ) :
    Machine σ κ ε → Prop
  | lock {place : κ} {mutex : MutexId} {next : κ} {x : Mutex σ} (hc : th.control = .running place)
      (hcode : code place = .lock mutex next) (hx : m.mutexes[mutex]? = some x)
      (hfree : x.holder = none) :
      Stepped code m t th { m with
        threads := m.threads.set t ⟨.running next, some mutex⟩
        mutexes := m.mutexes.set mutex { x with holder := some t } }
  | unlock {place next : κ} {mutex : MutexId} (hc : th.control = .running place)
      (hcode : code place = .unlock next) (hg : th.guard = some mutex) :
      Stepped code m t th { m with
        threads := m.threads.set t ⟨.running next, none⟩
        mutexes := m.mutexes.modify mutex fun x => { x with holder := none } }
  | access {place : κ} {f : σ → σ × κ} {mutex : MutexId} {x : Mutex σ}
      (hc : th.control = .running place) (hcode : code place = .access f)
      (hg : th.guard = some mutex) (hx : m.mutexes[mutex]? = some x) :
      Stepped code m t th { m with
        threads := m.threads.set t { th with control := .running (f x.state).2 }
        mutexes := m.mutexes.set mutex { x with state := (f x.state).1 } }
  | calm {place : κ} {notes : List (Note ε)} {c : Control κ} (line : List ThreadId)
      (hc : th.control = .running place) (h : Calm m (code place) notes c) :
      Stepped code m t th { m with
        threads := m.threads.set t { th with control := c }
        line := line, log := m.logWith t notes }
  | notify {place : κ} {condvar : CondvarId} {all : Bool} {next : WakeResult → κ}
      (hc : th.control = .running place) (hcode : code place = .notify condvar all next) :
      Stepped code m t th { (m.notify t condvar all).1 with
        threads := (m.notify t condvar all).1.threads.set t { th with
          control := .running (next (m.notify t condvar all).2) } }
  | sleep {place : κ} {length : Duration} {next : κ} (hc : th.control = .running place)
      (hcode : code place = .sleep length next) (hl : length ≠ .zero) :
      Stepped code m t th { m with
        threads := m.threads.set t { th with control := .sleeping next }
        parked := m.parked ++ [⟨t, none, m.wakeAt length⟩], line := m.line.erase t }
  | reject {condvar : CondvarId} {deadline : Option Time}
      {next : Except SyncError WaitStatus → κ} {offered bound : MutexId} {waiters : Nat}
      {cv : Condvar} (hc : th.control = .waiting condvar deadline .entering next)
      (hg : th.guard = some offered) (hcv : m.condvars[condvar]? = some cv)
      (h : cv.binding.conflict? offered = some (bound, waiters)) :
      Stepped code m t th { m with
        threads := m.threads.set t { th with
          control := .running (next (.error (.mutexMismatch bound offered waiters))) }
        log := m.logWith t [.record (.mutexOffered bound offered waiters)] }
  | register {condvar : CondvarId} {deadline : Option Time}
      {next : Except SyncError WaitStatus → κ} {offered : MutexId} {cv : Condvar}
      (hc : th.control = .waiting condvar deadline .entering next)
      (hg : th.guard = some offered) (hcv : m.condvars[condvar]? = some cv)
      (h : cv.binding.conflict? offered = none) :
      Stepped code m t th { m with
        threads := m.threads.set t { th with
          control := .waiting condvar deadline (.registered cv.clock deadline) next }
        condvars := m.condvars.set condvar { cv with binding := cv.binding.register offered } }
  | read {condvar : CondvarId} {deadline : Option Time} {timer : Timer}
      {next : Except SyncError WaitStatus → κ}
      (hc : th.control = .waiting condvar deadline (.reading timer) next) :
      Stepped code m t th { m with
        threads := m.threads.set t { th with
          control := .waiting condvar deadline
            (.ofPass timer (timer.pass (m.clocks.now m.mono timer.clock))) next }
        log := m.logWith t
          ((timer.pass (m.clocks.now m.mono timer.clock)).records.map .record) }
  | park {condvar : CondvarId} {deadline : Option Time} {timed : Option (Timer × Park)}
      {next : Except SyncError WaitStatus → κ} {mutex : MutexId}
      (hc : th.control = .waiting condvar deadline (.parking timed) next)
      (hg : th.guard = some mutex) :
      Stepped code m t th { m with
        threads := m.threads.set t { th with
          control := .waiting condvar deadline (.queued timed) next }
        mutexes := m.mutexes.modify mutex fun x => { x with holder := none }
        parked := m.parked ++
          [⟨t, some condvar, timed.bind fun (_, p) => m.wakeAt p.length⟩]
        line := m.line.erase t }
  | retake {condvar : CondvarId} {deadline : Option Time} {notified : Bool}
      {timed : Option (Timer × Park)} {next : Except SyncError WaitStatus → κ} {mutex : MutexId}
      {x : Mutex σ} (hc : th.control = .waiting condvar deadline (.woken notified timed) next)
      (hg : th.guard = some mutex) (hx : m.mutexes[mutex]? = some x) (hfree : x.holder = none) :
      Stepped code m t th { m with
        threads := m.threads.set t { th with
          control := .waiting condvar deadline (.ofWake notified timed) next }
        mutexes := m.mutexes.set mutex { x with holder := some t } }
  | leave {condvar : CondvarId} {deadline : Option Time} {how : WaitEnd}
      {next : Except SyncError WaitStatus → κ}
      (hc : th.control = .waiting condvar deadline (.leaving how) next) :
      Stepped code m t th { m with
        threads := m.threads.set t { th with control := .running (next how.result) }
        condvars := m.condvars.modify condvar fun c => { c with binding := c.binding.release } }

theorem modify_eq_set {α : Type} {l : List α} {i : Nat} {a : α} (h : l[i]? = some a) (f : α → α) :
    l.modify i f = l.set i (f a) := by
  obtain ⟨hi, rfl⟩ := List.getElem?_eq_some_iff.mp h
  refine List.ext_getElem? fun j => ?_
  rw [List.getElem?_modify, List.getElem?_set]
  by_cases hj : i = j
  · subst hj
    simp [hi]
  · simp [hj]

section

variable {code : κ → Command σ κ ε} {m m' : Machine σ κ ε} {t : ThreadId} {th : Thread κ}

theorem setControl_eq (ht : m.threads[t]? = some th) (c : Control κ) :
    m.setControl t c = { m with threads := m.threads.set t { th with control := c } } := by
  rw [setControl, modify_eq_set ht]

theorem setGuard_setControl_eq (ht : m.threads[t]? = some th) (g : Option MutexId)
    (c : Control κ) :
    (m.setGuard t g).setControl t c = { m with threads := m.threads.set t ⟨c, g⟩ } := by
  rw [setControl, setGuard]
  dsimp only
  rw [List.modify_modify_eq, modify_eq_set ht]
  rfl

theorem stepped_of_commandStep {place : κ} (ht : m.threads[t]? = some th)
    (hc : th.control = .running place) (h : m.commandStep t (code place) = some m') :
    Stepped code m t th m' := by
  -- the commands that touch nothing shared all end alike
  have calm {cmd : Command σ κ ε} {notes : List (Note ε)} {c : Control κ}
      (hcode : code place = cmd) (hcalm : Calm m cmd notes c) :
      Stepped code m t th ((m.write t notes).setControl t c) := by
    rw [setControl_eq (m := m.write t notes) ht]
    exact .calm m.line hc (hcode ▸ hcalm)
  cases hcode : code place with
  | lock mutex next =>
      simp only [hcode, commandStep, Option.bind_eq_bind, Option.bind_eq_some_iff,
        Option.isNone_iff_eq_none] at h
      obtain ⟨x, hx, h⟩ := h
      split at h
      · rename_i hfree
        cases h
        rw [setGuard_setControl_eq (m := m.setHolder mutex t) ht, setHolder, modify_eq_set hx]
        exact .lock hc hcode hx hfree
      · cases h
  | unlock next =>
      simp only [hcode, commandStep, Option.bind_eq_bind, Option.bind_eq_some_iff, ht,
        Option.some.injEq, exists_eq_left', Option.pure_def] at h
      obtain ⟨mutex, hg, rfl⟩ := h
      rw [setGuard_setControl_eq (m := m.setHolder mutex none) ht]
      exact .unlock hc hcode hg
  | access f =>
      simp only [hcode, commandStep, Option.bind_eq_bind, Option.bind_eq_some_iff, ht,
        Option.some.injEq, exists_eq_left', Option.pure_def] at h
      obtain ⟨mutex, hg, x, hx, rfl⟩ := h
      simpa [setControl, modify_eq_set ht] using Stepped.access hc hcode hg hx
  | wait condvar deadline next =>
      obtain rfl : _ = m' := by simpa [hcode, commandStep] using h
      exact calm hcode (.wait condvar deadline next)
  | read condvar next =>
      simp only [hcode, commandStep, Option.bind_eq_bind, Option.bind_eq_some_iff,
        Option.some.injEq, Option.pure_def] at h
      obtain ⟨cv, hcv, rfl⟩ := h
      exact calm hcode (.read hcv)
  | notify condvar all next =>
      obtain rfl : _ = m' := by simpa [hcode, commandStep] using h
      rw [setControl_eq (notify_running m t condvar all ht hc)]
      exact .notify hc hcode
  | instant next =>
      obtain rfl : _ = m' := by simpa [hcode, commandStep] using h
      exact calm hcode (.instant next)
  | wallTime next =>
      obtain rfl : _ = m' := by simpa [hcode, commandStep] using h
      exact calm hcode (.wallTime next)
  | sleep length next =>
      simp only [hcode, commandStep] at h
      split at h
      · rename_i hl
        subst hl
        cases h
        exact calm hcode (.sleep next)
      · rename_i hl
        cases h
        simpa [setControl, Machine.park, modify_eq_set ht] using Stepped.sleep hc hcode hl
  | join other next =>
      simp only [hcode, commandStep] at h
      split at h
      · rename_i hother
        cases h
        exact calm hcode (.join hother)
      · cases h
  | emit notes next =>
      obtain rfl : _ = m' := by simpa [hcode, commandStep] using h
      exact calm hcode (.emit notes next)
  | stop =>
      obtain rfl : _ = m' := by simpa [hcode, commandStep] using h
      rw [setControl_eq (m := { m with line := m.line.erase t }) ht]
      exact .calm _ hc (hcode ▸ Calm.stop)

theorem stepped_of_waitStep {condvar : CondvarId} {deadline : Option Time} {stage : Stage}
    {next : Except SyncError WaitStatus → κ} (ht : m.threads[t]? = some th)
    (hc : th.control = .waiting condvar deadline stage next)
    (h : m.waitStep t condvar deadline next stage = some m') : Stepped code m t th m' := by
  cases stage with
  | entering =>
      simp only [waitStep, enter, Option.bind_eq_bind, Option.bind_eq_some_iff, ht,
        Option.some.injEq, exists_eq_left', Option.pure_def] at h
      obtain ⟨offered, hg, cv, hcv, h⟩ := h
      split at h
      · rename_i bound waiters hconflict
        cases h
        rw [setControl_eq (m := m.write t _) ht]
        exact .reject hc hg hcv hconflict
      · rename_i hconflict
        cases h
        simpa [setControl, setBinding, modify_eq_set ht, modify_eq_set hcv]
          using Stepped.register hc hg hcv hconflict
  | reading timer =>
      obtain rfl : _ = m' := by simpa [waitStep] using h
      rw [setControl_eq (m := m.write t _) ht]
      exact .read hc
  | parking timed =>
      simp only [waitStep, Option.bind_eq_bind, Option.bind_eq_some_iff, ht,
        Option.some.injEq, exists_eq_left', Option.pure_def] at h
      obtain ⟨mutex, hg, rfl⟩ := h
      simpa [setControl, setHolder, Machine.park, modify_eq_set ht] using Stepped.park hc hg
  | queued timed => cases h
  | woken notified timed =>
      simp only [waitStep, Option.bind_eq_bind, Option.bind_eq_some_iff, ht,
        Option.some.injEq, exists_eq_left', Option.isNone_iff_eq_none] at h
      obtain ⟨mutex, hg, x, hx, h⟩ := h
      split at h
      · rename_i hfree
        cases h
        simpa [setControl, setHolder, modify_eq_set ht, modify_eq_set hx]
          using Stepped.retake hc hg hx hfree
      · cases h
  | leaving how =>
      obtain rfl : _ = m' := by simpa [waitStep] using h
      simpa [setControl, setBinding, modify_eq_set ht] using Stepped.leave hc

/-- Every step is one of the list. -/
theorem stepped_of_step (h : m.step code t = some m') :
    ∃ th, m.threads[t]? = some th ∧ Stepped code m t th m' := by
  simp only [step, control?] at h
  cases ht : m.threads[t]? with
  | none => simp [ht] at h
  | some th =>
      refine ⟨th, rfl, ?_⟩
      cases hc : th.control with
      | running place =>
          simp only [ht, hc, Option.map_some] at h
          exact stepped_of_commandStep ht hc h
      | waiting condvar deadline stage next =>
          simp only [ht, hc, Option.map_some] at h
          exact stepped_of_waitStep ht hc h
      | sleeping next => simp [ht, hc] at h
      | ended => simp [ht, hc] at h

theorem shown_running {place : κ} (ht : m.threads[t]? = some th)
    (hc : th.control = .running place) : m.shown code t = m.commandShown t (code place) := by
  simp only [shown, control?, ht, Option.map_some, hc]

theorem shown_waiting {condvar : CondvarId} {deadline : Option Time} {stage : Stage}
    {next : Except SyncError WaitStatus → κ} (ht : m.threads[t]? = some th)
    (hc : th.control = .waiting condvar deadline stage next) :
    m.shown code t = m.waitShown t condvar stage := by
  simp only [shown, control?, ht, Option.map_some, hc]

theorem Calm.silent {cmd : Command σ κ ε} {notes : List (Note ε)} {c : Control κ}
    (h : Calm m cmd notes c) : m.commandShown t cmd = .silent := by
  cases h <;> rfl

/-- Only a thread that is done with its wait returns from it. -/
theorem leaving_of_shown {u : ThreadId} {condvar : CondvarId} {how : WaitEnd}
    (h : m.shown code t = .returned u condvar how) :
    ∃ th deadline next, m.threads[t]? = some th ∧
      th.control = .waiting condvar deadline (.leaving how) next := by
  cases ht : m.threads[t]? with
  | none => simp [shown, control?, ht] at h
  | some th =>
      refine ⟨th, ?_⟩
      cases hc : th.control with
      | running place =>
          rw [shown_running ht hc] at h
          cases hcode : code place <;> rw [hcode] at h <;> cases h
      | waiting condvar' deadline stage next =>
          rw [shown_waiting ht hc] at h
          cases stage with
          | leaving how' =>
              cases h
              exact ⟨deadline, next, rfl, rfl⟩
          | _ => cases h
      | _ => simp [shown, control?, ht, hc] at h

/-! ### Steps by command

Where the command is known, so is what its step leads to. -/

/-- What a command leads to, done by thread `t` with the mutex `g`. -/
def Commanded (m : Machine σ κ ε) (t : ThreadId) (g : Option MutexId) (m' : Machine σ κ ε) :
    Command σ κ ε → Prop
  | .lock mutex next => ∃ x, m.mutexes[mutex]? = some x ∧ x.holder = none ∧ m' = { m with
      threads := m.threads.set t ⟨.running next, some mutex⟩
      mutexes := m.mutexes.set mutex { x with holder := some t } }
  | .unlock next => ∃ mutex, g = some mutex ∧ m' = { m with
      threads := m.threads.set t ⟨.running next, none⟩
      mutexes := m.mutexes.modify mutex fun x => { x with holder := none } }
  | .access f => ∃ mutex x, g = some mutex ∧ m.mutexes[mutex]? = some x ∧ m' = { m with
      threads := m.threads.set t ⟨.running (f x.state).2, g⟩
      mutexes := m.mutexes.set mutex { x with state := (f x.state).1 } }
  | .notify condvar all next => m' = { (m.notify t condvar all).1 with
      threads := (m.notify t condvar all).1.threads.set t
        ⟨.running (next (m.notify t condvar all).2), g⟩ }
  | .sleep length next => ∃ control parked line, m' = { m with
      threads := m.threads.set t ⟨control, g⟩, parked := parked, line := line } ∧
      (length = .zero ∧ control = .running next ∧ parked = m.parked ∨
        control = .sleeping next ∧ parked = m.parked ++ [⟨t, none, m.wakeAt length⟩])
  | command => ∃ notes control line, Calm m command notes control ∧ m' = { m with
      threads := m.threads.set t ⟨control, g⟩, line := line, log := m.logWith t notes }

theorem Stepped.command {place : κ} {g : Option MutexId}
    (hs : Stepped code m t ⟨.running place, g⟩ m') : Commanded m t g m' (code place) := by
  cases hs with
  | lock hc hcode hx hfree =>
      cases hc
      rw [hcode]
      exact ⟨_, hx, hfree, rfl⟩
  | unlock hc hcode hg =>
      cases hc
      rw [hcode]
      exact ⟨_, hg, rfl⟩
  | access hc hcode hg hx =>
      cases hc
      rw [hcode]
      exact ⟨_, _, hg, hx, rfl⟩
  | notify hc hcode =>
      cases hc
      rw [hcode]
      rfl
  | sleep hc hcode hl =>
      cases hc
      rw [hcode]
      exact ⟨_, _, _, rfl, .inr ⟨rfl, rfl⟩⟩
  | calm line hc hcalm =>
      cases hc
      generalize code place = command at hcalm ⊢
      cases hcalm with
      | sleep next => exact ⟨_, _, line, rfl, .inl ⟨rfl, rfl, rfl⟩⟩
      | wait condvar deadline next => exact ⟨_, _, line, .wait condvar deadline next, rfl⟩
      | read hcv => exact ⟨_, _, line, .read hcv, rfl⟩
      | instant next => exact ⟨_, _, line, .instant next, rfl⟩
      | wallTime next => exact ⟨_, _, line, .wallTime next, rfl⟩
      | join hended => exact ⟨_, _, line, .join hended, rfl⟩
      | emit _ next => exact ⟨_, _, line, .emit _ next, rfl⟩
      | stop => exact ⟨_, _, line, .stop, rfl⟩
  | reject hc => cases hc
  | register hc => cases hc
  | read hc => cases hc
  | park hc => cases hc
  | retake hc => cases hc
  | leave hc => cases hc

/-! ### Steps that are taken -/

theorem step_of_read {place : κ} {g : Option MutexId} {condvar : CondvarId} {cv : Condvar}
    {next : Except SyncError Time → κ} (ht : m.threads[t]? = some ⟨.running place, g⟩)
    (hcode : code place = .read condvar next) (hcv : m.condvars[condvar]? = some cv) :
    m.step code t =
      some { m with threads := m.threads.set t ⟨.running (next (m.readClock cv.clock)), g⟩ } := by
  simp [step, control?, ht, commandStep, hcode, hcv, setControl, modify_eq_set ht]

section

variable {condvar : CondvarId} {deadline : Option Time} {next : Except SyncError WaitStatus → κ}

theorem step_of_woken {notified : Bool} {timed : Option (Timer × Park)} {mutex : MutexId}
    {x : Mutex σ} (ht : m.threads[t]? = some th)
    (hc : th.control = .waiting condvar deadline (.woken notified timed) next)
    (hg : th.guard = some mutex) (hx : m.mutexes[mutex]? = some x) (hfree : x.holder = none) :
    m.step code t = some { m with
      threads := m.threads.set t { th with
        control := .waiting condvar deadline (.ofWake notified timed) next }
      mutexes := m.mutexes.set mutex { x with holder := some t } } := by
  simp [step, control?, ht, hc, waitStep, hg, hx, hfree, setControl, setHolder, modify_eq_set ht,
    modify_eq_set hx]

theorem step_of_reading {timer : Timer} (ht : m.threads[t]? = some th)
    (hc : th.control = .waiting condvar deadline (.reading timer) next) :
    m.step code t = some { m with
      threads := m.threads.set t { th with
        control := .waiting condvar deadline
          (.ofPass timer (timer.pass (m.clocks.now m.mono timer.clock))) next }
      log := m.logWith t
        ((timer.pass (m.clocks.now m.mono timer.clock)).records.map .record) } := by
  simp [step, control?, ht, hc, waitStep, setControl, write, logWith, modify_eq_set ht]

theorem step_of_parking {timed : Option (Timer × Park)} {mutex : MutexId}
    (ht : m.threads[t]? = some th)
    (hc : th.control = .waiting condvar deadline (.parking timed) next)
    (hg : th.guard = some mutex) :
    m.step code t = some { m with
      threads := m.threads.set t { th with
        control := .waiting condvar deadline (.queued timed) next }
      mutexes := m.mutexes.modify mutex fun x => { x with holder := none }
      parked := m.parked ++ [⟨t, some condvar, timed.bind fun (_, p) => m.wakeAt p.length⟩]
      line := m.line.erase t } := by
  simp [step, control?, ht, hc, waitStep, hg, setControl, setHolder, Machine.park, modify_eq_set ht]

theorem step_of_leaving {how : WaitEnd} (ht : m.threads[t]? = some th)
    (hc : th.control = .waiting condvar deadline (.leaving how) next) :
    m.step code t =
      some ((m.setBinding condvar .release).setControl t (.running (next how.result))) := by
  simp only [step, control?, ht, Option.map_some, hc, waitStep]

end

end

end Machine

end TimedCondvar
