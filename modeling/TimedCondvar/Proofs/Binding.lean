import Mathlib.Data.List.Basic
import TimedCondvar.Proofs.Invariants
import TimedCondvar.Proofs.Worlds

/-!
The binding of a condition variable in every run. It counts the threads inside a wait, those that
were notified or ran out of time and have not left yet among them, and it names the one mutex that
all of them came with. A wait that fails leaves like any other, so no exit leaves a count behind.
-/

namespace TimedCondvar

namespace Binding

/-- No mutex is bound just if nobody waits. -/
def Valid (b : Binding) : Prop := b.mutex = none ↔ b.waiters = 0

theorem valid_empty : Valid {} := by
  simp [Valid]

theorem valid_register (b : Binding) (offered : MutexId) : (b.register offered).Valid := by
  simp [Valid, register]

theorem valid_release {b : Binding} (h : b.Valid) : b.release.Valid := by
  rw [release]
  split
  · exact valid_empty
  · rename_i hne
    rw [Valid] at h ⊢
    dsimp only
    refine ⟨fun hm => absurd (h.mp hm) ?_, fun hw => absurd hw hne⟩
    omega

theorem waiters_release (b : Binding) : b.release.waiters = b.waiters - 1 := by
  rw [release]
  split
  · rename_i h
    exact h.symm
  · rfl

theorem mutex_release {b : Binding} (h : b.release.waiters ≠ 0) : b.release.mutex = b.mutex := by
  rw [release] at h ⊢
  split
  · rename_i h'
    simp [h'] at h
  · rfl

/-- A mutex meets no conflict if nobody waits with another one. -/
theorem mutex_of_conflict?_eq_none {b : Binding} (hv : b.Valid) {offered : MutexId}
    (h : b.conflict? offered = none) (hpos : b.waiters ≠ 0) : b.mutex = some offered := by
  cases hm : b.mutex with
  | none => exact absurd (hv.mp hm) hpos
  | some bound =>
      have hfalse : ¬(0 < b.waiters ∧ bound ≠ offered) := by
        simpa [conflict?, hm] using h
      have heq : bound = offered := by
        by_contra hne
        exact hfalse ⟨Nat.pos_of_ne_zero hpos, hne⟩
      rw [heq]

end Binding

/-- The condition variable whose waiter the thread counts as: from its registration until it has
left the wait, whatever the wait came to. -/
def Control.registeredOn {κ : Type} : Control κ → Option CondvarId
  | .waiting _ _ .entering _ => none
  | .waiting condvar _ _ _ => some condvar
  | _ => none

namespace Control

variable {κ : Type}

@[simp] theorem registeredOn_wake (b : Bool) (c : Control κ) :
    (c.wake b).registeredOn = c.registeredOn := by
  cases c with
  | waiting condvar deadline stage next => cases stage <;> rfl
  | _ => rfl

@[simp] theorem registeredOn_registered (condvar : CondvarId) (deadline : Option Time)
    (next : Except SyncError WaitStatus → κ) (clock : Clock) :
    (waiting condvar deadline (.registered clock deadline) next).registeredOn = some condvar := by
  cases deadline <;> rfl

@[simp] theorem registeredOn_ofPass (condvar : CondvarId) (deadline : Option Time)
    (next : Except SyncError WaitStatus → κ) (timer : Timer) (p : Timer.Pass) :
    (waiting condvar deadline (.ofPass timer p) next).registeredOn = some condvar := by
  cases p <;> rfl

@[simp] theorem registeredOn_ofWake (condvar : CondvarId) (deadline : Option Time)
    (next : Except SyncError WaitStatus → κ) (b : Bool) (timed : Option (Timer × Park)) :
    (waiting condvar deadline (.ofWake b timed) next).registeredOn = some condvar := by
  cases timed <;> cases b <;> rfl

theorem registeredOn_of_parkedOn {c : Control κ} {condvar : CondvarId}
    (h : c.parkedOn = some (some condvar)) : c.registeredOn = some condvar := by
  cases c with
  | waiting condvar' deadline stage next =>
      cases stage with
      | queued timed => simpa [parkedOn, registeredOn] using h
      | _ => simp [parkedOn] at h
  | _ => simp [parkedOn] at h

end Control

namespace Machine

variable {σ κ ε : Type}

/-- How many threads are inside a wait on the condition variable. -/
def registered (m : Machine σ κ ε) (condvar : CondvarId) : Nat :=
  m.threads.countP (·.control.registeredOn == some condvar)

/-- The bindings are right: they count the threads inside and name the mutex these came with. -/
structure Bound (m : Machine σ κ ε) : Prop where
  valid : ∀ {condvar : CondvarId} {cv : Condvar}, m.condvars[condvar]? = some cv →
    cv.binding.Valid
  count : ∀ {condvar : CondvarId} {cv : Condvar}, m.condvars[condvar]? = some cv →
    cv.binding.waiters = m.registered condvar
  mutex : ∀ {t : ThreadId} {th : Thread κ} {condvar : CondvarId}, m.threads[t]? = some th →
    th.control.registeredOn = some condvar →
    ∃ cv, m.condvars[condvar]? = some cv ∧ cv.binding.mutex = th.guard

variable {code : κ → Command σ κ ε} {m m' : Machine σ κ ε} {t : ThreadId} {th th' : Thread κ}
  {e : Event} {condvar : CondvarId} {cv : Condvar}

theorem registered_pos (ht : m.threads[t]? = some th)
    (h : th.control.registeredOn = some condvar) : 0 < m.registered condvar :=
  List.countP_pos_iff.mpr ⟨th, List.mem_of_getElem? ht, by simp [h]⟩

/-- The count when one thread moves. -/
theorem registered_of_set (ht : m.threads[t]? = some th)
    (hset : m'.threads = m.threads.set t th') (condvar : CondvarId) :
    m'.registered condvar + (if th.control.registeredOn = some condvar then 1 else 0) =
      m.registered condvar + (if th'.control.registeredOn = some condvar then 1 else 0) := by
  rw [registered, registered]
  exact count_of_set Control.registeredOn ht hset condvar

theorem registered_of_enter (ht : m.threads[t]? = some th)
    (hset : m'.threads = m.threads.set t th') (hout : th.control.registeredOn = none)
    (hin : th'.control.registeredOn = some condvar) (c : CondvarId) :
    m'.registered c = m.registered c + if c = condvar then 1 else 0 := by
  simpa [hout, hin, eq_comm] using registered_of_set ht hset c

theorem registered_of_leave (ht : m.threads[t]? = some th)
    (hset : m'.threads = m.threads.set t th') (hin : th.control.registeredOn = some condvar)
    (hout : th'.control.registeredOn = none) (c : CondvarId) :
    (m'.registered c + if c = condvar then 1 else 0) = m.registered c := by
  simpa [hout, hin, eq_comm] using registered_of_set ht hset c

/-- The count when no thread enters or leaves. -/
theorem registered_congr (h : ∀ u : ThreadId, (m'.threads[u]?).map (·.control.registeredOn) =
    (m.threads[u]?).map (·.control.registeredOn)) (condvar : CondvarId) :
    m'.registered condvar = m.registered condvar :=
  countP_congr_map h (· == some condvar)

/-- A step that neither registers its thread nor lets it leave. -/
theorem Bound.keep (h : Bound m) (ht : m.threads[t]? = some th)
    (hset : m'.threads = m.threads.set t th')
    (hr : th'.control.registeredOn = th.control.registeredOn)
    (hg : th.control.registeredOn ≠ none → th'.guard = th.guard)
    (hc : m'.condvars = m.condvars) : Bound m' where
  valid hcv := h.valid (hc ▸ hcv)
  count {condvar cv} hcv := by
    have hcount := registered_of_set ht hset condvar
    rw [hr] at hcount
    rw [h.count (hc ▸ hcv)]
    omega
  mutex {u thu condvar} hu hreg := by
    rw [hset, getElem?_set_of_getElem? ht] at hu
    split at hu
    · cases hu
      rw [hr] at hreg
      rw [hc, hg (by simp [hreg])]
      exact h.mutex ht hreg
    · rw [hc]
      exact h.mutex hu hreg

/-- Threads that are woken stay inside. -/
theorem Bound.wake (h : Bound m) {b : Bool} {ts : List ThreadId} (hw : Woke m b ts m')
    (hc : m'.condvars = m.condvars) : Bound m' where
  valid hcv := h.valid (hc ▸ hcv)
  count hcv := by
    rw [h.count (hc ▸ hcv)]
    refine (registered_congr (fun u => ?_) _).symm
    rw [hw]
    split
    · cases m.threads[u]? <;> simp
    · rfl
  mutex {u thu condvar} hu hreg := by
    rw [hw] at hu
    rw [hc]
    split at hu
    · obtain ⟨old, hold, rfl⟩ := Option.map_eq_some_iff.mp hu
      have hreg' : old.control.registeredOn = some condvar := by simpa using hreg
      obtain ⟨cv, hcv, hm⟩ := h.mutex hold hreg'
      exact ⟨cv, hcv, hm⟩
    · exact h.mutex hu hreg

theorem Bound.notify (h : Bound m) (thread : Option ThreadId) (condvar : CondvarId)
    (all : Bool) : Bound (m.notify thread condvar all).1 :=
  h.wake (woke_notify m thread condvar all) (condvars_notify ..)

theorem Bound.register (h : Bound m) (ht : m.threads[t]? = some th)
    (hset : m'.threads = m.threads.set t th') (hout : th.control.registeredOn = none)
    (hin : th'.control.registeredOn = some condvar) {offered : MutexId}
    (hg : th.guard = some offered) (hg' : th'.guard = th.guard)
    (hcv : m.condvars[condvar]? = some cv) (hno : cv.binding.conflict? offered = none)
    (hc : m'.condvars =
      m.condvars.set condvar { cv with binding := cv.binding.register offered }) : Bound m' := by
  have hcv' : ∀ c : CondvarId, m'.condvars[c]? = if c = condvar then
      some { cv with binding := cv.binding.register offered } else m.condvars[c]? :=
    fun c => hc ▸ getElem?_set_of_getElem? hcv _ c
  have hcount := registered_of_enter ht hset hout hin
  refine ⟨fun {c cv₁} h₁ => ?_, fun {c cv₁} h₁ => ?_, fun {u thu c} hu hreg => ?_⟩
  · rw [hcv'] at h₁
    split at h₁
    · cases h₁
      exact Binding.valid_register ..
    · exact h.valid h₁
  · rw [hcv'] at h₁
    rw [hcount]
    split at h₁
    · rename_i heq
      cases h₁
      rw [if_pos heq, heq, ← h.count hcv]
      rfl
    · rename_i hne
      rw [if_neg hne]
      exact h.count h₁
  · rw [hset, getElem?_set_of_getElem? ht] at hu
    rw [hcv']
    split at hu
    · cases hu
      obtain rfl : condvar = c := by simpa [hin] using hreg
      exact ⟨_, if_pos rfl, (hg'.trans hg).symm⟩
    · obtain ⟨cv₁, h₁, hm⟩ := h.mutex hu hreg
      split
      · -- whoever is inside came with the mutex that is offered now
        rename_i heq
        subst heq
        obtain rfl : cv₁ = cv := by simpa [h₁] using hcv
        have hpos := registered_pos hu hreg
        rw [← h.count h₁] at hpos
        have hoffered := Binding.mutex_of_conflict?_eq_none (h.valid h₁) hno (Nat.ne_of_gt hpos)
        exact ⟨_, rfl, hoffered.symm.trans hm⟩
      · exact ⟨cv₁, h₁, hm⟩

/-- A thread that leaves takes its place with it, and the mutex if it is the last. -/
theorem Bound.leave (h : Bound m) (ht : m.threads[t]? = some th)
    (hin : th.control.registeredOn = some condvar) (hout : th'.control.registeredOn = none)
    (hset : m'.threads = m.threads.set t th') (hc : m'.condvars =
      m.condvars.modify condvar fun c => { c with binding := c.binding.release }) : Bound m' := by
  obtain ⟨cv, hcv, -⟩ := h.mutex ht hin
  have hcv' : ∀ c : CondvarId, m'.condvars[c]? = if c = condvar then
      some { cv with binding := cv.binding.release } else m.condvars[c]? := by
    intro c
    rw [hc, modify_eq_set hcv]
    exact getElem?_set_of_getElem? hcv _ c
  have hcount := registered_of_leave ht hset hin hout
  refine ⟨fun {c cv₁} h₁ => ?_, fun {c cv₁} h₁ => ?_, fun {u thu c} hu hreg => ?_⟩
  · rw [hcv'] at h₁
    split at h₁
    · cases h₁
      exact Binding.valid_release (h.valid hcv)
    · exact h.valid h₁
  · have hcount := hcount c
    rw [hcv'] at h₁
    split at h₁
    · rename_i heq
      cases h₁
      have hold := h.count hcv
      rw [if_pos heq, heq] at hcount
      rw [heq, Binding.waiters_release, hold]
      omega
    · rename_i hne
      rw [if_neg hne] at hcount
      exact (h.count h₁).trans hcount.symm
  · have hpos := registered_pos hu hreg
    have hcount := hcount c
    rw [hset, getElem?_set_of_getElem? ht] at hu
    rw [hcv']
    split at hu
    · cases hu
      simp [hout] at hreg
    · obtain ⟨cv₁, h₁, hm⟩ := h.mutex hu hreg
      split
      · -- somebody else is left, so the binding stays
        rename_i heq
        subst heq
        obtain rfl : cv₁ = cv := by simpa [h₁] using hcv
        have hold := h.count hcv
        refine ⟨_, rfl, (Binding.mutex_release ?_).trans hm⟩
        rw [Binding.waiters_release, hold]
        rw [if_pos rfl] at hcount
        omega
      · exact ⟨cv₁, h₁, hm⟩

/-- A calm command registers nobody: the wait that it may begin has still to register. -/
theorem Calm.unregistered {cmd : Command σ κ ε} {notes : List (Note ε)} {c : Control κ}
    (h : Calm m cmd notes c) : c.registeredOn = none := by
  cases h <;> rfl

theorem Bound.stepped (h : Bound m) (ht : m.threads[t]? = some th)
    (hs : Stepped code m t th m') : Bound m' := by
  cases hs with
  | lock hc hcode hx hfree =>
      exact h.keep ht rfl (by rw [hc]; rfl) (by simp [hc, Control.registeredOn]) rfl
  | unlock hc hcode hg =>
      exact h.keep ht rfl (by rw [hc]; rfl) (by simp [hc, Control.registeredOn]) rfl
  | access hc hcode hg hx => exact h.keep ht rfl (by rw [hc]; rfl) (fun _ => rfl) rfl
  | calm line hc hcalm =>
      exact h.keep ht rfl (by rw [hc]; exact hcalm.unregistered) (fun _ => rfl) rfl
  | notify hc hcode =>
      rename_i place condvar all next
      exact (h.notify t condvar all).keep (notify_running m t condvar all ht hc) rfl
        (by rw [hc]; rfl) (fun _ => rfl) rfl
  | sleep hc hcode hl => exact h.keep ht rfl (by rw [hc]; rfl) (fun _ => rfl) rfl
  | reject hc hg hcv hconflict => exact h.keep ht rfl (by rw [hc]; rfl) (fun _ => rfl) rfl
  | register hc hg hcv hconflict =>
      exact h.register ht rfl (by rw [hc]; rfl) (Control.registeredOn_registered ..) hg rfl hcv
        hconflict rfl
  | read hc =>
      exact h.keep ht rfl (by rw [hc]; exact Control.registeredOn_ofPass ..) (fun _ => rfl) rfl
  | park hc hg => exact h.keep ht rfl (by rw [hc]; rfl) (fun _ => rfl) rfl
  | retake hc hg hx hfree =>
      exact h.keep ht rfl (by rw [hc]; exact Control.registeredOn_ofWake ..) (fun _ => rfl) rfl
  | leave hc => exact h.leave ht (by rw [hc]; rfl) rfl rfl rfl

theorem Bound.congr (h : Bound m) (ht : m'.threads = m.threads) (hc : m'.condvars = m.condvars) :
    Bound m' := by
  refine ⟨fun hcv => h.valid (hc ▸ hcv), fun hcv => ?_, fun hu hreg => ?_⟩
  · rw [h.count (hc ▸ hcv), registered, registered, ht]
  · rw [hc]
    exact h.mutex (ht ▸ hu) hreg

theorem Bound.spawn (h : Bound m) (place : κ) : Bound (m.spawn place) := by
  refine ⟨fun hcv => h.valid hcv, fun {condvar cv} hcv => ?_, fun {u th condvar} hu hreg => ?_⟩
  · have hcount := h.count (m := m) hcv
    rw [hcount, registered, registered, Machine.spawn]
    simp [Control.registeredOn]
  · rw [getElem?_threads_spawn] at hu
    split at hu
    · cases hu
      cases hreg
    · exact h.mutex hu hreg

/-- Nobody waits yet on a new condition variable: whoever is inside is so on one that exists. -/
theorem Bound.bind (h : Bound m) (thread : Option ThreadId) (clock : Clock) :
    Bound (m.bind thread clock).1 := by
  rw [Machine.bind]
  split
  · exact h.congr rfl rfl
  · rename_i now hnow
    refine ⟨fun {condvar cv} hcv => ?_, fun {condvar cv} hcv => ?_,
      fun {u th condvar} hu hreg => ?_⟩
    · rw [getElem?_append_singleton] at hcv
      split at hcv
      · cases hcv
        exact Binding.valid_empty
      · exact h.valid hcv
    · rw [getElem?_append_singleton] at hcv
      split at hcv
      · rename_i hnew
        cases hcv
        refine (List.countP_eq_zero.mpr fun th hth => ?_).symm
        intro hreg
        obtain ⟨u, hu⟩ := List.getElem?_of_mem hth
        obtain ⟨cv, hcv, -⟩ := h.mutex hu (by simpa using hreg)
        rw [hnew, List.getElem?_eq_none (Nat.le_refl _)] at hcv
        cases hcv
      · exact h.count hcv
    · obtain ⟨cv, hcv, hm⟩ := h.mutex hu hreg
      refine ⟨cv, ?_, hm⟩
      rw [getElem?_append_singleton, if_neg, hcv]
      rintro rfl
      rw [List.getElem?_eq_none (Nat.le_refl _)] at hcv
      cases hcv

theorem Bound.next (hm : Next code m e m') (h : Bound m) : Bound m' := by
  cases hm with
  | own ho =>
      cases ho with
      | step hs =>
          obtain ⟨th, ht, hst⟩ := stepped_of_step hs
          exact h.stepped ht hst
      | @expire p u instant hp hu hle =>
          exact h.wake (woke_expire m instant p.thread) rfl
      | tick instant => exact h.congr rfl rfl
      | clocks clocks => exact h.congr rfl rfl
  | act ha =>
      cases ha with
      | spawn place => exact h.spawn place
      | bind thread clock => exact h.bind thread clock
      | notify thread condvar all => exact h.notify thread condvar all
      | modify mutex f => exact h.congr rfl rfl
      | log log => exact h.congr rfl rfl

theorem Fresh.bound (h : Fresh m) : Bound m := by
  have hnone : ∀ th ∈ m.threads, th.control.registeredOn = none := by
    intro th hth
    obtain ⟨⟨place, hplace⟩, -⟩ := h.threads th hth
    rw [hplace]
    rfl
  refine ⟨fun hcv => ?_, fun {condvar cv} hcv => ?_, fun {u th condvar} hu hreg => ?_⟩
  · rw [h.condvars _ (List.mem_of_getElem? hcv)]
    exact Binding.valid_empty
  · rw [h.condvars _ (List.mem_of_getElem? hcv), registered, eq_comm, List.countP_eq_zero]
    intro th hth
    simp [hnone th hth]
  · simp [hnone th (List.mem_of_getElem? hu)] at hreg

theorem registered_of_mem_queue (h : Parking m) (ht : t ∈ m.queue condvar) :
    ∃ th, m.threads[t]? = some th ∧ th.control.registeredOn = some condvar := by
  obtain ⟨th, hth, hp⟩ := Option.bind_eq_some_iff.mp (h.mem_queue_iff.mp ht)
  exact ⟨th, hth, Control.registeredOn_of_parkedOn hp⟩

/-- A thread that returns from its wait gives its place back, and there is one to give. -/
theorem Bound.exists_step_returned (h : Bound m) (hcv : m.condvars[condvar]? = some cv)
    {how : WaitEnd} (hs : m.shown code t = .returned t condvar how) :
    ∃ m' cv', m.step code t = some m' ∧ m'.condvars[condvar]? = some cv' ∧
      cv'.binding.waiters + 1 = cv.binding.waiters := by
  obtain ⟨th, deadline, next, hth, hc⟩ := leaving_of_shown hs
  have hpos : 0 < cv.binding.waiters := by
    rw [h.count hcv]
    exact registered_pos hth (by rw [hc]; rfl)
  refine ⟨_, { cv with binding := cv.binding.release }, step_of_leaving hth hc, ?_, ?_⟩
  · change (m.condvars.modify condvar _)[condvar]? = _
    rw [List.getElem?_modify_eq, hcv]
    rfl
  · rw [Binding.waiters_release]
    omega

/-- In every run of any threads, the binding of a condition variable counts the threads inside a
wait on it. It names the mutex that every one of them came with, and none just if there are none.
No thread that leaves finds the count at zero. So a thread that waits here never meets one that is
queued here with another mutex. -/
theorem binding_of_run {m₀ : Machine σ κ ε} {es : List Event} (hfresh : Fresh m₀)
    (hrun : Run (Next code) m₀ es m) (hcv : m.condvars[condvar]? = some cv) :
    cv.binding.waiters = m.registered condvar ∧
    (∀ (t : ThreadId) (th : Thread κ), m.threads[t]? = some th →
      th.control.registeredOn = some condvar →
      ∃ offered, th.guard = some offered ∧ cv.binding.mutex = some offered) ∧
    (cv.binding.mutex = none ↔ cv.binding.waiters = 0) ∧
    (∀ (t : ThreadId) (how : WaitEnd), m.shown code t = .returned t condvar how →
      ∃ m' cv', m.step code t = some m' ∧ m'.condvars[condvar]? = some cv' ∧
        cv'.binding.waiters + 1 = cv.binding.waiters) ∧
    ∀ t ∈ m.queue condvar, ∀ (u : ThreadId) (thu : Thread κ), m.threads[u]? = some thu →
      thu.control.registeredOn = some condvar →
      ∃ th, m.threads[t]? = some th ∧ th.guard = thu.guard := by
  have h : Bound m := hrun.invariant Bound.next hfresh.bound
  have hp : Parking m := hrun.invariant Parking.next hfresh.parking
  have hguard : ∀ (t : ThreadId) (th : Thread κ), m.threads[t]? = some th →
      th.control.registeredOn = some condvar →
      ∃ offered, th.guard = some offered ∧ cv.binding.mutex = some offered := by
    intro t th ht hreg
    obtain ⟨cv', hcv', hm⟩ := h.mutex ht hreg
    obtain rfl : cv' = cv := by simpa [hcv'] using hcv
    have hpos : cv'.binding.waiters ≠ 0 := by
      rw [h.count hcv']
      exact Nat.ne_of_gt (registered_pos ht hreg)
    obtain ⟨offered, ho⟩ := Option.ne_none_iff_exists'.mp (mt (h.valid hcv').mp hpos)
    exact ⟨offered, hm.symm.trans ho, ho⟩
  refine ⟨h.count hcv, hguard, h.valid hcv, fun t how hs => h.exists_step_returned hcv hs, ?_⟩
  intro t ht u thu hu hreg
  obtain ⟨th, hth, hregt⟩ := registered_of_mem_queue hp ht
  obtain ⟨offered, hg, hm⟩ := hguard t th hth hregt
  obtain ⟨offered', hg', hm'⟩ := hguard u thu hu hreg
  exact ⟨th, hth, by rw [hg, hg', ← hm, hm']⟩

/-- A script that waits without end. -/
def plainWait : Script.Place :=
  { condvar := 0, clock := .monotonic, mutex := 0, rest := [{ operation := .wait }] }

/-- Two scripted threads wait on one condition variable: one is queued, the other about to be. -/
theorem binding_of_two_waiters : ∃ es m cv, Fresh (World.start 0 0 0 0).machine ∧
    Run (Next Script.code) (World.start 0 0 0 0).machine es m ∧ m.condvars[0]? = some cv ∧
    m.queue 0 = [0] ∧ m.registered 0 = 2 ∧ cv.binding.waiters = m.registered 0 ∧
    cv.binding.mutex = some 0 := by
  have spawned : Run (Next Script.code) (World.start 0 0 0 0).machine _ _ :=
    ((Run.nil.snoc (.act (.bind none .monotonic))).snoc (.act (.spawn plainWait))).snoc
      (.act (.spawn plainWait))
  -- both lock, wait and register; the first one also parks
  have inside := spawned.play
    [.step 0, .step 0, .step 0, .step 0, .step 1, .step 1, .step 1] rfl
  obtain ⟨m, run, hcv, hqueue, hinside⟩ :
      ∃ m : ScriptMachine, Run (Next Script.code) (World.start 0 0 0 0).machine _ m ∧
        m.condvars[0]? = some { clock := .monotonic, binding := ⟨some 0, 2⟩ } ∧
        m.queue 0 = [0] ∧ m.registered 0 = 2 := ⟨_, inside, rfl, rfl, rfl⟩
  have h := binding_of_run (World.fresh_start 0 0 0 0) run hcv
  exact ⟨_, m, _, World.fresh_start 0 0 0 0, run, hcv, hqueue, hinside, h.1, rfl⟩

end Machine

end TimedCondvar
