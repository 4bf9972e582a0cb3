import Mathlib.Data.List.Nodup
import TimedCondvar.Proofs.Steps

/-!
Two invariants of every run, whatever code the threads run. `Parking`: the list of parked threads
says of every thread where it is parked, and says it once. `Guarded`: a thread that has a mutex and
did not give it up to wait is the holder of it, so no two threads hold one mutex.
-/

namespace TimedCondvar

namespace Control

variable {κ : Type}

/-- Where the thread is parked: on the queue of a condition variable, or asleep. -/
def parkedOn : Control κ → Option (Option CondvarId)
  | .waiting condvar _ (.queued _) _ => some (some condvar)
  | .sleeping _ => some none
  | _ => none

/-- Whether the thread gave its mutex up to wait and has not taken it again. -/
def released : Control κ → Bool
  | .waiting _ _ (.queued _) _ | .waiting _ _ (.woken _ _) _ => true
  | _ => false

@[simp] theorem parkedOn_wake (b : Bool) (c : Control κ) : (c.wake b).parkedOn = none := by
  cases c with
  | waiting condvar deadline stage next => cases stage <;> rfl
  | _ => rfl

@[simp] theorem released_wake (b : Bool) (c : Control κ) : (c.wake b).released = c.released := by
  cases c with
  | waiting condvar deadline stage next => cases stage <;> rfl
  | _ => rfl

@[simp] theorem released_registered (condvar : CondvarId) (deadline : Option Time)
    (next : Except SyncError WaitStatus → κ) (clock : Clock) :
    (waiting condvar deadline (.registered clock deadline) next).released = false := by
  cases deadline <;> rfl

@[simp] theorem released_ofPass (condvar : CondvarId) (deadline : Option Time)
    (next : Except SyncError WaitStatus → κ) (timer : Timer) (p : Timer.Pass) :
    (waiting condvar deadline (.ofPass timer p) next).released = false := by
  cases p <;> rfl

@[simp] theorem released_ofWake (condvar : CondvarId) (deadline : Option Time)
    (next : Except SyncError WaitStatus → κ) (b : Bool) (timed : Option (Timer × Park)) :
    (waiting condvar deadline (.ofWake b timed) next).released = false := by
  cases timed <;> cases b <;> rfl

@[simp] theorem parkedOn_registered (condvar : CondvarId) (deadline : Option Time)
    (next : Except SyncError WaitStatus → κ) (clock : Clock) :
    (waiting condvar deadline (.registered clock deadline) next).parkedOn = none := by
  cases deadline <;> rfl

@[simp] theorem parkedOn_ofPass (condvar : CondvarId) (deadline : Option Time)
    (next : Except SyncError WaitStatus → κ) (timer : Timer) (p : Timer.Pass) :
    (waiting condvar deadline (.ofPass timer p) next).parkedOn = none := by
  cases p <;> rfl

@[simp] theorem parkedOn_ofWake (condvar : CondvarId) (deadline : Option Time)
    (next : Except SyncError WaitStatus → κ) (b : Bool) (timed : Option (Timer × Park)) :
    (waiting condvar deadline (.ofWake b timed) next).parkedOn = none := by
  cases timed <;> cases b <;> rfl

end Control

@[simp] theorem Thread.wake_guard {κ : Type} (b : Bool) (th : Thread κ) :
    (th.wake b).guard = th.guard := rfl

@[simp] theorem Thread.wake_control {κ : Type} (b : Bool) (th : Thread κ) :
    (th.wake b).control = th.control.wake b := rfl

/-- The mutex that the thread holds. -/
def Thread.holding {κ : Type} (th : Thread κ) : Option MutexId :=
  if th.control.released then none else th.guard

theorem Thread.guard_of_holding {κ : Type} {th : Thread κ} {x : MutexId}
    (h : th.holding = some x) : th.guard = some x := by
  rw [holding] at h
  split at h
  · cases h
  · exact h

namespace Machine

variable {σ κ ε : Type}

theorem getElem?_set_of_getElem? {α : Type} {l : List α} {t : Nat} {a : α} (h : l[t]? = some a)
    (b : α) (u : Nat) : (l.set t b)[u]? = if u = t then some b else l[u]? := by
  obtain ⟨ht, -⟩ := List.getElem?_eq_some_iff.mp h
  rw [List.getElem?_set]
  by_cases hu : t = u
  · subst hu
    simp [ht]
  · simp [hu, Ne.symm hu]

theorem getElem?_set_self_of_getElem? {α : Type} {l : List α} {t : Nat} {a : α}
    (h : l[t]? = some a) (b : α) : (l.set t b)[t]? = some b :=
  (getElem?_set_of_getElem? h b t).trans (if_pos rfl)

/-- A count when one element changes. -/
theorem countP_set_of_getElem? {α : Type} {l : List α} {t : Nat} {a : α} (h : l[t]? = some a)
    (b : α) (p : α → Bool) :
    (l.set t b).countP p + (if p a then 1 else 0) = l.countP p + if p b then 1 else 0 := by
  obtain ⟨ht, hget⟩ := List.getElem?_eq_some_iff.mp h
  have hle : (if p a then 1 else 0) ≤ l.countP p := by
    split
    · rename_i ha
      exact List.countP_pos_iff.mpr ⟨a, List.mem_of_getElem? h, ha⟩
    · exact Nat.zero_le _
  rw [List.countP_set ht, hget]
  omega

/-- A count depends on what is counted only. -/
theorem countP_congr_map {α β : Type} {l l' : List α} {f : α → β}
    (h : ∀ i : Nat, (l'[i]?).map f = (l[i]?).map f) (p : β → Bool) :
    l'.countP (p ∘ f) = l.countP (p ∘ f) := by
  have hmap : l'.map f = l.map f := List.ext_getElem? fun i => by simpa using h i
  rw [← List.countP_map, ← List.countP_map, hmap]

/-- A list of positions that names each element with a property once is as long as the count. -/
theorem length_eq_countP {α : Type} {l : List α} {p : α → Bool} {ts : List Nat} (hnodup : ts.Nodup)
    (hmem : ∀ t, t ∈ ts ↔ ∃ a, l[t]? = some a ∧ p a = true) : ts.length = l.countP p := by
  -- both lists name the positions of elements with the property, and each of them once
  have hperm : ts.Perm ((List.range l.length).filter fun t => (l[t]?).any p) := by
    rw [List.perm_ext_iff_of_nodup hnodup (List.nodup_range.filter _)]
    intro t
    rw [hmem, List.mem_filter, List.mem_range, Option.any_eq_true]
    refine ⟨fun ⟨a, ha, hp⟩ => ⟨?_, a, ha, hp⟩, fun ⟨_, a, ha, hp⟩ => ⟨a, ha, hp⟩⟩
    exact (List.getElem?_eq_some_iff.mp ha).1
  have hsome : (List.range l.length).map (l[·]?) = l.map some := by
    refine List.ext_getElem? fun i => ?_
    by_cases hi : i < l.length
    · simp [hi]
    · simp [hi]
  calc ts.length = (List.range l.length).countP ((Option.any p) ∘ (l[·]?)) := by
        rw [hperm.length_eq, List.countP_eq_length_filter]
        rfl
    _ = (l.map some).countP (Option.any p) := by rw [← List.countP_map, hsome]
    _ = l.countP p := by
        rw [List.countP_map]
        rfl

theorem getElem?_append_singleton {α : Type} (l : List α) (a : α) (i : Nat) :
    (l ++ [a])[i]? = if i = l.length then some a else l[i]? := by
  rcases Nat.lt_trichotomy i l.length with hi | rfl | hi
  · rw [List.getElem?_append_left hi, if_neg (Nat.ne_of_lt hi)]
  · simp
  · rw [if_neg (Nat.ne_of_gt hi), List.getElem?_eq_none (Nat.le_of_lt hi), List.getElem?_eq_none]
    simp only [List.length_append, List.length_singleton]
    exact hi

/-- A count of threads by condition variable, when one thread moves. -/
theorem count_of_set {m m' : Machine σ κ ε} {t : ThreadId} {th th' : Thread κ}
    (f : Control κ → Option CondvarId) (ht : m.threads[t]? = some th)
    (hset : m'.threads = m.threads.set t th') (condvar : CondvarId) :
    m'.threads.countP (f ·.control == some condvar) +
        (if f th.control = some condvar then 1 else 0) =
      m.threads.countP (f ·.control == some condvar) +
        (if f th'.control = some condvar then 1 else 0) := by
  have hcount := countP_set_of_getElem? ht th' (f ·.control == some condvar)
  rw [hset]
  simpa using hcount

/-! ### Who is parked -/

/-- Where thread `t` is parked, by its own control. -/
def parkedOn? (m : Machine σ κ ε) (t : ThreadId) : Option (Option CondvarId) :=
  (m.threads[t]?).bind (·.control.parkedOn)

/-- The parked threads are those whose control says so, each of them once. -/
structure Parking (m : Machine σ κ ε) : Prop where
  nodup : (m.parked.map (·.thread)).Nodup
  mem_iff : ∀ t q, (∃ u, ⟨t, q, u⟩ ∈ m.parked) ↔ m.parkedOn? t = some q

variable {code : κ → Command σ κ ε} {m m' : Machine σ κ ε} {t : ThreadId} {th : Thread κ}
  {e : Event}

theorem Parking.congr (h : Parking m) (hp : m'.parked = m.parked)
    (ht : ∀ u, m'.parkedOn? u = m.parkedOn? u) : Parking m' where
  nodup := by rw [hp]; exact h.nodup
  mem_iff u q := by rw [hp, ht]; exact h.mem_iff u q

/-- Nobody is parked twice: a thread that parks was not parked. -/
theorem Parking.append (h : Parking m) {q : Option CondvarId} {w : Option Int}
    (hp : m'.parked = m.parked ++ [⟨t, q, w⟩]) (hnot : m.parkedOn? t = none)
    (ht : ∀ u, m'.parkedOn? u = if u = t then some q else m.parkedOn? u) : Parking m' where
  nodup := by
    have hfresh : t ∉ m.parked.map (·.thread) := by
      intro hmem
      obtain ⟨⟨_, q', w'⟩, hp', rfl⟩ := List.mem_map.mp hmem
      simpa [hnot] using (h.mem_iff _ q').mp ⟨w', hp'⟩
    rw [hp, List.map_append]
    refine List.Nodup.append h.nodup (List.nodup_singleton _) ?_
    simpa using hfresh
  mem_iff u q' := by
    rw [hp, ht]
    by_cases hu : u = t
    · subst hu
      have hold : ∀ w', (⟨u, q', w'⟩ : Parked) ∉ m.parked := fun w' hmem => by
        simpa [hnot] using (h.mem_iff u q').mp ⟨w', hmem⟩
      simp [hold, eq_comm]
    · simp only [hu, if_false, List.mem_append, List.mem_singleton, Parked.mk.injEq, false_and,
        or_false]
      exact h.mem_iff u q'

/-- Threads that are woken are parked no longer, and all others as before. -/
theorem Parking.filter (h : Parking m) (ts : List ThreadId)
    (hp : m'.parked = m.parked.filter (·.thread ∉ ts))
    (ht : ∀ u, m'.parkedOn? u = if u ∈ ts then none else m.parkedOn? u) : Parking m' where
  nodup := by
    rw [hp]
    exact h.nodup.sublist (List.filter_sublist.map _)
  mem_iff u q := by
    rw [hp, ht]
    by_cases hu : u ∈ ts
    · simp [hu]
    · simp only [List.mem_filter, hu, not_false_eq_true, decide_true, and_true, if_false]
      exact h.mem_iff u q

theorem parkedOn?_of_set {th' : Thread κ} (ht : m.threads[t]? = some th)
    (h : m'.threads = m.threads.set t th') (u : ThreadId) :
    m'.parkedOn? u = if u = t then th'.control.parkedOn else m.parkedOn? u := by
  rw [parkedOn?, parkedOn?, h, getElem?_set_of_getElem? ht]
  split <;> rfl

/-- A step that parks nobody and wakes nobody. -/
theorem Parking.set {th' : Thread κ} (h : Parking m) (ht : m.threads[t]? = some th)
    (hth : th.control.parkedOn = none) (hth' : th'.control.parkedOn = none)
    (hset : m'.threads = m.threads.set t th') (hp : m'.parked = m.parked) : Parking m' := by
  refine h.congr hp fun u => ?_
  rw [parkedOn?_of_set ht hset]
  split
  · rename_i hu
    rw [hth', hu, parkedOn?, ht, Option.bind_some, hth]
  · rfl

theorem parkedOn?_notify (thread : Option ThreadId) (condvar : CondvarId) (all : Bool)
    (u : ThreadId) : (m.notify thread condvar all).1.parkedOn? u =
      if u ∈ m.woken condvar all then none else m.parkedOn? u := by
  rw [parkedOn?, parkedOn?, getElem?_threads_notify]
  split
  · cases m.threads[u]? <;> simp
  · rfl

theorem Parking.notify (h : Parking m) (thread : Option ThreadId) (condvar : CondvarId)
    (all : Bool) : Parking (m.notify thread condvar all).1 :=
  h.filter (m.woken condvar all) (parked_notify ..) fun u =>
    parkedOn?_notify thread condvar all u

/-- No calm command parks a thread or gives its mutex up. -/
theorem Calm.unparked {cmd : Command σ κ ε} {notes : List (Note ε)} {c : Control κ}
    (h : Calm m cmd notes c) : c.parkedOn = none ∧ c.released = false := by
  cases h <;> exact ⟨rfl, rfl⟩

theorem Parking.stepped (h : Parking m) (ht : m.threads[t]? = some th)
    (hs : Stepped code m t th m') : Parking m' := by
  cases hs with
  | lock hc hcode hx hfree => exact h.set ht (by rw [hc]; rfl) rfl rfl rfl
  | unlock hc hcode hg => exact h.set ht (by rw [hc]; rfl) rfl rfl rfl
  | access hc hcode hg hx => exact h.set ht (by rw [hc]; rfl) rfl rfl rfl
  | calm line hc hcalm =>
      exact h.set ht (by rw [hc]; rfl) hcalm.unparked.1 rfl rfl
  | notify hc hcode =>
      rename_i place condvar all next
      exact (h.notify t condvar all).set (notify_running m t condvar all ht hc) (by rw [hc]; rfl)
        rfl rfl rfl
  | sleep hc hcode hl =>
      refine h.append rfl ?_ fun u => ?_
      · rw [parkedOn?, ht, Option.bind_some, hc]
        rfl
      · rw [parkedOn?_of_set ht rfl]
        rfl
  | reject hc hg hcv hconflict => exact h.set ht (by rw [hc]; rfl) rfl rfl rfl
  | register hc hg hcv hconflict =>
      exact h.set ht (by rw [hc]; rfl) (Control.parkedOn_registered ..) rfl rfl
  | read hc => exact h.set ht (by rw [hc]; rfl) (Control.parkedOn_ofPass ..) rfl rfl
  | park hc hg =>
      refine h.append rfl ?_ fun u => ?_
      · rw [parkedOn?, ht, Option.bind_some, hc]
        rfl
      · rw [parkedOn?_of_set ht rfl]
        rfl
  | retake hc hg hx hfree => exact h.set ht (by rw [hc]; rfl) (Control.parkedOn_ofWake ..) rfl rfl
  | leave hc => exact h.set ht (by rw [hc]; rfl) rfl rfl rfl

theorem Parking.wake (h : Parking m) (b : Bool) (t : ThreadId) : Parking (m.wake b t) := by
  refine h.filter [t] ?_ fun u => ?_
  · refine List.filter_congr fun p _ => ?_
    by_cases hp : p.thread = t <;> simp [hp]
  · rw [parkedOn?, parkedOn?, getElem?_threads_wake]
    by_cases hu : u = t
    · subst hu
      cases m.threads[u]? <;> simp
    · simp [hu, Ne.symm hu]

theorem getElem?_threads_spawn (m : Machine σ κ ε) (place : κ) (u : ThreadId) :
    (m.spawn place).threads[u]? =
      if u = m.threads.length then some { control := .running place } else m.threads[u]? :=
  getElem?_append_singleton ..

theorem getElem?_threads_length (m : Machine σ κ ε) : m.threads[m.threads.length]? = none :=
  List.getElem?_eq_none (Nat.le_refl _)

/-- A new thread is not parked. -/
theorem parkedOn?_spawn (m : Machine σ κ ε) (place : κ) (u : ThreadId) :
    (m.spawn place).parkedOn? u = m.parkedOn? u := by
  rw [parkedOn?, parkedOn?, getElem?_threads_spawn]
  split
  · rename_i hu
    rw [hu, getElem?_threads_length]
    rfl
  · rfl

theorem bind_threads (m : Machine σ κ ε) (thread : Option ThreadId) (clock : Clock) :
    (m.bind thread clock).1.threads = m.threads := by
  rw [bind]
  split <;> rfl

theorem bind_parked (m : Machine σ κ ε) (thread : Option ThreadId) (clock : Clock) :
    (m.bind thread clock).1.parked = m.parked := by
  rw [bind]
  split <;> rfl

theorem bind_mutexes (m : Machine σ κ ε) (thread : Option ThreadId) (clock : Clock) :
    (m.bind thread clock).1.mutexes = m.mutexes := by
  rw [bind]
  split <;> rfl

theorem Parking.next (hm : Next code m e m') (h : Parking m) : Parking m' := by
  cases hm with
  | own ho =>
      cases ho with
      | step hs =>
          obtain ⟨th, ht, hst⟩ := stepped_of_step hs
          exact h.stepped ht hst
      | @expire p u instant hp hu hle =>
          have hmono : Parking { m with mono := instant } := h.congr rfl fun _ => rfl
          exact hmono.wake false p.thread
      | tick instant => exact h.congr rfl fun _ => rfl
      | clocks clocks => exact h.congr rfl fun _ => rfl
  | act ha =>
      cases ha with
      | spawn place => exact h.congr rfl (parkedOn?_spawn m place)
      | bind thread clock =>
          exact h.congr (bind_parked ..) fun u => by rw [parkedOn?, parkedOn?, bind_threads]
      | notify thread condvar all => exact h.notify thread condvar all
      | modify mutex f => exact h.congr rfl fun _ => rfl
      | log log => exact h.congr rfl fun _ => rfl

theorem Fresh.parking (h : Fresh m) : Parking m where
  nodup := by simp [h.parked]
  mem_iff t q := by
    rw [h.parked]
    refine ⟨fun ⟨_, hmem⟩ => absurd hmem List.not_mem_nil, fun hq => ?_⟩
    obtain ⟨th, hth, hq⟩ := Option.bind_eq_some_iff.mp hq
    obtain ⟨⟨place, hplace⟩, -⟩ := h.threads th (List.mem_of_getElem? hth)
    rw [hplace] at hq
    cases hq

theorem Parking.mem_queue_iff (h : Parking m) {condvar : CondvarId} :
    t ∈ m.queue condvar ↔ m.parkedOn? t = some (some condvar) := by
  rw [← h.mem_iff, queue, List.mem_map]
  constructor
  · rintro ⟨⟨_, q, w⟩, hp, rfl⟩
    obtain ⟨hp, hq⟩ := List.mem_filter.mp hp
    obtain rfl : q = some condvar := by simpa using hq
    exact ⟨w, hp⟩
  · rintro ⟨w, hp⟩
    exact ⟨_, List.mem_filter.mpr ⟨hp, by simp⟩, rfl⟩

theorem Parking.nodup_queue (h : Parking m) (condvar : CondvarId) : (m.queue condvar).Nodup :=
  h.nodup.sublist (List.filter_sublist.map _)

/-- A queue is as long as there are threads parked on it. -/
theorem Parking.length_queue (h : Parking m) (condvar : CondvarId) :
    (m.queue condvar).length =
      m.threads.countP (·.control.parkedOn == some (some condvar)) := by
  refine length_eq_countP (h.nodup_queue condvar) fun t => ?_
  rw [h.mem_queue_iff, parkedOn?, Option.bind_eq_some_iff]
  simp

/-! ### Who holds a mutex -/

/-- The holder of a mutex, if the mutex exists and is held. -/
def holder? (m : Machine σ κ ε) (x : MutexId) : Option (Option ThreadId) :=
  (m.mutexes[x]?).map (·.holder)

/-- Threads have mutexes that exist, and hold those that they did not give up to wait. -/
structure Guarded (m : Machine σ κ ε) : Prop where
  exists_mutex : ∀ {t : ThreadId} {th : Thread κ} {x : MutexId}, m.threads[t]? = some th →
    th.guard = some x → m.holder? x ≠ none
  holder : ∀ {t : ThreadId} {th : Thread κ} {x : MutexId}, m.threads[t]? = some th →
    th.holding = some x → m.holder? x = some (some t)

theorem holder?_of_set {x : MutexId} {mutex mutex' : Mutex σ} (hx : m.mutexes[x]? = some mutex)
    (h : m'.mutexes = m.mutexes.set x mutex') (y : MutexId) :
    m'.holder? y = if y = x then some mutex'.holder else m.holder? y := by
  rw [holder?, holder?, h, getElem?_set_of_getElem? hx]
  split <;> rfl

theorem holder?_of_free {x : MutexId}
    (h : m'.mutexes = m.mutexes.modify x fun mutex => { mutex with holder := none })
    (y : MutexId) : m'.holder? y = if y = x then (m.holder? y).map fun _ => none
      else m.holder? y := by
  rw [holder?, holder?, h, List.getElem?_modify]
  by_cases hy : y = x
  · subst hy
    cases m.mutexes[y]? <;> simp
  · simp [hy, Ne.symm hy]

theorem holder?_of_modify {mutex : MutexId} {f : σ → σ}
    (h : m'.mutexes = m.mutexes.modify mutex fun x => { x with state := f x.state })
    (x : MutexId) : m'.holder? x = m.holder? x := by
  rw [holder?, holder?, h, List.getElem?_modify]
  split
  · cases m.mutexes[x]? <;> rfl
  · simp

/-- What has to be seen of a step of thread `t`: that it has its mutex, and that the mutexes of
others stay with them. -/
theorem Guarded.set {th' : Thread κ} (h : Guarded m) (ht : m.threads[t]? = some th)
    (hset : m'.threads = m.threads.set t th')
    (hkeep : ∀ x, m.holder? x ≠ none → m'.holder? x ≠ none)
    (hguard : ∀ x, th'.guard = some x → m'.holder? x ≠ none)
    (hself : ∀ x, th'.holding = some x → m'.holder? x = some (some t))
    (hothers : ∀ u ≠ t, ∀ x, m.holder? x = some (some u) → m'.holder? x = some (some u)) :
    Guarded m' where
  exists_mutex {u thu x} hu hx := by
    rw [hset, getElem?_set_of_getElem? ht] at hu
    split at hu
    · cases hu
      exact hguard x hx
    · exact hkeep x (h.exists_mutex hu hx)
  holder {u thu x} hu hx := by
    rw [hset, getElem?_set_of_getElem? ht] at hu
    split at hu
    · rename_i hut
      cases hu
      rw [hut]
      exact hself x hx
    · rename_i hut
      exact hothers u hut x (h.holder hu hx)

/-- A step that takes no mutex and gives none up. -/
theorem Guarded.keep {c : Control κ} (h : Guarded m) (ht : m.threads[t]? = some th)
    (hr : th.control.released = false) (hr' : c.released = false)
    (hset : m'.threads = m.threads.set t { th with control := c })
    (hx : ∀ x, m'.holder? x = m.holder? x) : Guarded m' := by
  have hh : ({ th with control := c } : Thread κ).holding = th.holding := by
    simp [Thread.holding, hr, hr']
  refine h.set ht hset (fun x => (hx x).symm ▸ id) (fun x hgx => ?_) (fun x hhx => ?_)
    fun u _ x hu => (hx x).trans hu
  · rw [hx]
    exact h.exists_mutex ht hgx
  · rw [hx]
    exact h.holder ht (hh ▸ hhx)

/-- A step that takes a free mutex. -/
theorem Guarded.take {th' : Thread κ} (h : Guarded m) (ht : m.threads[t]? = some th)
    {x : MutexId} {mutex : Mutex σ} (hx : m.mutexes[x]? = some mutex) (hfree : mutex.holder = none)
    (hset : m'.threads = m.threads.set t th') (hg : th'.guard = some x)
    (hm : m'.mutexes = m.mutexes.set x { mutex with holder := some t }) : Guarded m' := by
  have hholder := holder?_of_set hx hm
  refine h.set ht hset (fun y hy => ?_) (fun y hgy => ?_) (fun y hhy => ?_) fun u _ y hu => ?_
  · rw [hholder]
    split
    · simp
    · exact hy
  · obtain rfl : x = y := by simpa [hg] using hgy
    simp [hholder]
  · obtain rfl : x = y := by simpa [hg] using Thread.guard_of_holding hhy
    simp [hholder]
  · -- a mutex that was free was nobody else's
    rw [hholder]
    split
    · rename_i hyx
      rw [hyx, holder?, hx] at hu
      simp [hfree] at hu
    · exact hu

/-- A step that gives the thread's mutex up. -/
theorem Guarded.give {th' : Thread κ} (h : Guarded m) (ht : m.threads[t]? = some th)
    {x : MutexId} (hh : th.holding = some x) (hset : m'.threads = m.threads.set t th')
    (hg : th'.guard = none ∨ th'.guard = some x) (hh' : th'.holding = none)
    (hm : m'.mutexes = m.mutexes.modify x fun mutex => { mutex with holder := none }) :
    Guarded m' := by
  have hholder := holder?_of_free hm
  have hkeep : ∀ y, m.holder? y ≠ none → m'.holder? y ≠ none := by
    intro y hy
    rw [hholder]
    split
    · simpa using hy
    · exact hy
  refine h.set ht hset hkeep (fun y hgy => hkeep y ?_) (fun y hhy => ?_) fun u hut y hu => ?_
  · rcases hg with hg | hg
    · simp [hg] at hgy
    · obtain rfl : x = y := by simpa [hg] using hgy
      rw [h.holder ht hh]
      simp
  · simp [hh'] at hhy
  · -- what the thread held was nobody else's
    rw [hholder]
    split
    · rename_i hyx
      rw [hyx, h.holder ht hh] at hu
      simp [Ne.symm hut] at hu
    · exact hu

theorem Guarded.congr (h : Guarded m) (ht : m'.threads = m.threads)
    (hx : ∀ x, m'.holder? x = m.holder? x) : Guarded m' where
  exists_mutex hu hgx := by
    rw [hx]
    exact h.exists_mutex (ht ▸ hu) hgx
  holder hu hhx := by
    rw [hx]
    exact h.holder (ht ▸ hu) hhx

/-- Being woken takes no mutex: that is a step of its own. -/
theorem Guarded.wake (h : Guarded m) {b : Bool} {ts : List ThreadId} (hw : Woke m b ts m')
    (hm : m'.mutexes = m.mutexes) : Guarded m' := by
  have hx : ∀ x, m'.holder? x = m.holder? x := fun x => by rw [holder?, holder?, hm]
  have hold : ∀ {u : ThreadId} {th' : Thread κ}, m'.threads[u]? = some th' →
      ∃ th, m.threads[u]? = some th ∧ th'.guard = th.guard ∧ th'.holding = th.holding := by
    intro u th' hu
    rw [hw] at hu
    split at hu
    · obtain ⟨th, hth, rfl⟩ := Option.map_eq_some_iff.mp hu
      exact ⟨th, hth, rfl, by simp [Thread.holding]⟩
    · exact ⟨th', hu, rfl, rfl⟩
  constructor
  · intro u th' x hu hgx
    obtain ⟨th, hth, hg, -⟩ := hold hu
    rw [hx]
    exact h.exists_mutex hth (hg ▸ hgx)
  · intro u th' x hu hhx
    obtain ⟨th, hth, -, hh⟩ := hold hu
    rw [hx]
    exact h.holder hth (hh ▸ hhx)

theorem Guarded.notify (h : Guarded m) (thread : Option ThreadId) (condvar : CondvarId)
    (all : Bool) : Guarded (m.notify thread condvar all).1 :=
  h.wake (woke_notify m thread condvar all) (mutexes_notify ..)

theorem holding_of_not_released (h : th.control.released = false) : th.holding = th.guard := by
  simp [Thread.holding, h]

theorem Guarded.stepped (h : Guarded m) (ht : m.threads[t]? = some th)
    (hs : Stepped code m t th m') : Guarded m' := by
  cases hs with
  | lock hc hcode hx hfree => exact h.take ht hx hfree rfl rfl rfl
  | unlock hc hcode hg =>
      exact h.give ht ((holding_of_not_released (by rw [hc]; rfl)).trans hg) rfl (.inl rfl) rfl rfl
  | access hc hcode hg hx =>
      refine h.keep ht (by rw [hc]; rfl) rfl rfl fun y => ?_
      rw [holder?_of_set hx rfl]
      split
      · rename_i hy
        rw [hy, holder?, hx]
        rfl
      · rfl
  | calm line hc hcalm =>
      exact h.keep ht (by rw [hc]; rfl) hcalm.unparked.2 rfl fun _ => rfl
  | notify hc hcode =>
      rename_i place condvar all next
      exact (h.notify t condvar all).keep (notify_running m t condvar all ht hc) (by rw [hc]; rfl)
        rfl rfl fun _ => rfl
  | sleep hc hcode hl => exact h.keep ht (by rw [hc]; rfl) rfl rfl fun _ => rfl
  | reject hc hg hcv hconflict => exact h.keep ht (by rw [hc]; rfl) rfl rfl fun _ => rfl
  | register hc hg hcv hconflict =>
      exact h.keep ht (by rw [hc]; rfl) (Control.released_registered ..) rfl fun _ => rfl
  | read hc => exact h.keep ht (by rw [hc]; rfl) (Control.released_ofPass ..) rfl fun _ => rfl
  | park hc hg =>
      exact h.give ht ((holding_of_not_released (by rw [hc]; rfl)).trans hg) rfl (.inr hg) rfl rfl
  | retake hc hg hx hfree => exact h.take ht hx hfree rfl hg rfl
  | leave hc => exact h.keep ht (by rw [hc]; rfl) rfl rfl fun _ => rfl

theorem Guarded.next (hm : Next code m e m') (h : Guarded m) : Guarded m' := by
  cases hm with
  | own ho =>
      cases ho with
      | step hs =>
          obtain ⟨th, ht, hst⟩ := stepped_of_step hs
          exact h.stepped ht hst
      | @expire p u instant hp hu hle =>
          exact h.wake (woke_expire m instant p.thread) rfl
      | tick instant => exact h.congr rfl fun _ => rfl
      | clocks clocks => exact h.congr rfl fun _ => rfl
  | act ha =>
      cases ha with
      | spawn place =>
          have hold : ∀ {u : ThreadId} {th : Thread κ} {x : MutexId},
              (m.spawn place).threads[u]? = some th → th.guard = some x →
              m.threads[u]? = some th := by
            intro u th x hu hgx
            rw [getElem?_threads_spawn] at hu
            split at hu
            · cases hu
              simp at hgx
            · exact hu
          exact ⟨fun hu hgx => h.exists_mutex (hold hu hgx) hgx,
            fun hu hhx => h.holder (hold hu (Thread.guard_of_holding hhx)) hhx⟩
      | bind thread clock =>
          exact h.congr (bind_threads ..) fun x => by rw [holder?, holder?, bind_mutexes]
      | notify thread condvar all => exact h.notify thread condvar all
      | modify mutex f => exact h.congr rfl (holder?_of_modify rfl)
      | log log => exact h.congr rfl fun _ => rfl

theorem Fresh.guarded (h : Fresh m) : Guarded m where
  exists_mutex hu hgx := by simp [(h.threads _ (List.mem_of_getElem? hu)).2] at hgx
  holder hu hhx := by simp [Thread.holding, (h.threads _ (List.mem_of_getElem? hu)).2] at hhx

end Machine

end TimedCondvar
