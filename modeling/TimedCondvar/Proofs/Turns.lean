import TimedCondvar.Machine.Schedule
import TimedCondvar.Proofs.Distances
import TimedCondvar.Proofs.Timely

/-!
What a machine that runs by itself relies on. Every thread that could run is in line, so when none
in line can do a step then none can at all. And no park is empty, so the parks that are to end at an
instant only get fewer while threads run there.
-/

namespace TimedCondvar

/-- Whether the thread runs, or is to run once it is its turn or its mutex is free. -/
def Control.active {κ : Type} : Control κ → Bool
  | .running _ => true
  | .waiting _ _ (.queued _) _ => false
  | .waiting _ _ _ _ => true
  | .sleeping _ | .ended => false

/-- The park that the thread is about to enter is not empty. -/
def Thread.Paced {κ : Type} (th : Thread κ) : Prop :=
  match th.control with
  | .waiting _ _ (.parking (some (_, p))) _ => 0 < p.length.totalNanos
  | _ => True

namespace Machine

variable {σ κ ε : Type} {code : κ → Command σ κ ε} {m m' : Machine σ κ ε} {t : ThreadId}
  {th th' : Thread κ}

theorem length_wakeAll (ts : List ThreadId) (m : Machine σ κ ε) :
    (ts.foldl (wake · true) m).threads.length = m.threads.length := by
  induction ts generalizing m with
  | nil => rfl
  | cons t ts ih => exact (ih _).trans (List.length_modify ..)

theorem Stepped.length_threads (hs : Stepped code m t th m') :
    m'.threads.length = m.threads.length := by
  cases hs with
  | @notify place condvar all next hc hcode =>
      exact (List.length_set ..).trans (length_wakeAll (m.woken condvar all) m)
  | _ => exact List.length_set ..

/-! ### The line -/

/-- Every thread that runs or is to run is in line. -/
structure Lined (m : Machine σ κ ε) : Prop where
  mem : ∀ {t : ThreadId} {th : Thread κ}, m.threads[t]? = some th → th.control.active = true →
    t ∈ m.line

theorem line_wakeAll (ts : List ThreadId) (m : Machine σ κ ε) :
    (ts.foldl (wake · true) m).line = m.line ++ ts := by
  induction ts generalizing m with
  | nil => simp
  | cons t ts ih =>
      rw [List.foldl_cons, ih]
      simp [wake]

@[simp] theorem line_notify (thread : Option ThreadId) (condvar : CondvarId) (all : Bool) :
    (m.notify thread condvar all).1.line = m.line ++ m.woken condvar all :=
  line_wakeAll (m.woken condvar all) m

/-- Of the calm commands, only the last one leaves the line. -/
theorem line_of_calm {place : κ} {notes : List (Note ε)} {c : Control κ}
    (ht : m.threads[t]? = some th) (hc : th.control = .running place)
    (hcalm : Calm m (code place) notes c) (h : m.step code t = some m') :
    m'.line = m.line ∨ c = .ended ∧ m'.line = m.line.erase t := by
  have hstep : m.commandStep t (code place) = some m' := by
    simpa only [step, control?, ht, Option.map_some, hc] using h
  generalize code place = cmd at hcalm hstep
  cases hcalm with
  | wait condvar deadline next =>
      cases hstep
      exact .inl rfl
  | read hcv =>
      simp only [commandStep, hcv, Option.bind_eq_bind, Option.bind_some] at hstep
      cases hstep
      exact .inl rfl
  | instant next =>
      cases hstep
      exact .inl rfl
  | wallTime next =>
      cases hstep
      exact .inl rfl
  | sleep next =>
      rw [commandStep, if_pos rfl] at hstep
      cases hstep
      exact .inl rfl
  | join hended =>
      rw [commandStep, hended] at hstep
      cases hstep
      exact .inl rfl
  | emit notes next =>
      cases hstep
      exact .inl rfl
  | stop =>
      cases hstep
      exact .inr ⟨rfl, rfl⟩

/-- A thread that does a step runs. -/
theorem active_of_stepped (hs : Stepped code m t th m') : th.control.active = true := by
  cases hs with
  | lock hc => rw [hc]; rfl
  | unlock hc => rw [hc]; rfl
  | access hc => rw [hc]; rfl
  | calm line hc => rw [hc]; rfl
  | notify hc => rw [hc]; rfl
  | sleep hc => rw [hc]; rfl
  | reject hc => rw [hc]; rfl
  | register hc => rw [hc]; rfl
  | read hc => rw [hc]; rfl
  | park hc => rw [hc]; rfl
  | retake hc => rw [hc]; rfl
  | leave hc => rw [hc]; rfl

/-- One thread moves, and at most leaves the line because it is not to run. -/
theorem Lined.set (h : Lined m) (ht : m.threads[t]? = some th)
    (hset : m'.threads = m.threads.set t th') (hin : t ∈ m.line)
    (hline : m'.line = m.line ∨ th'.control.active = false ∧ m'.line = m.line.erase t) :
    Lined m' := by
  refine ⟨fun {u thu} hu hactive => ?_⟩
  rw [hset, getElem?_set_of_getElem? ht] at hu
  by_cases hut : u = t
  · rw [if_pos hut] at hu
    cases hu
    rcases hline with hline | ⟨hidle, -⟩
    · rw [hline, hut]
      exact hin
    · rw [hidle] at hactive
      cases hactive
  · rw [if_neg hut] at hu
    rcases hline with hline | ⟨-, hline⟩
    · exact hline ▸ h.mem hu hactive
    · rw [hline]
      exact (List.mem_erase_of_ne hut).mpr (h.mem hu hactive)

theorem Lined.congr (h : Lined m) (ht : m'.threads = m.threads) (hl : m'.line = m.line) :
    Lined m' :=
  ⟨fun hu hactive => hl ▸ h.mem (ht ▸ hu) hactive⟩

/-- Threads that are woken join the line. -/
theorem Lined.wake {b : Bool} {ts : List ThreadId} (h : Lined m) (hw : Woke m b ts m')
    (hline : m'.line = m.line ++ ts) : Lined m' := by
  refine ⟨fun {u thu} hu hactive => ?_⟩
  rw [hline, List.mem_append]
  rw [hw] at hu
  split at hu
  · rename_i hmem
    exact .inr hmem
  · exact .inl (h.mem hu hactive)

theorem Lined.notify (h : Lined m) (thread : Option ThreadId) (condvar : CondvarId)
    (all : Bool) : Lined (m.notify thread condvar all).1 :=
  h.wake (woke_notify m thread condvar all) (line_notify ..)

theorem Lined.step (h : Lined m) (hstep : m.step code t = some m') : Lined m' := by
  obtain ⟨th, ht, hs⟩ := stepped_of_step hstep
  have hin := h.mem ht (active_of_stepped hs)
  cases hs with
  | calm line hc hcalm =>
      refine h.set ht rfl hin ?_
      rcases line_of_calm ht hc hcalm hstep with hline | ⟨rfl, hline⟩
      · exact .inl hline
      · exact .inr ⟨rfl, hline⟩
  | @notify place condvar all next hc hcode =>
      refine (h.notify t condvar all).set (notify_running m t condvar all ht hc) rfl ?_ (.inl rfl)
      rw [line_notify]
      exact List.mem_append_left _ hin
  | sleep hc hcode hl => exact h.set ht rfl hin (.inr ⟨rfl, rfl⟩)
  | park hc hg => exact h.set ht rfl hin (.inr ⟨rfl, rfl⟩)
  | _ => exact h.set ht rfl hin (.inl rfl)

theorem Lined.spawn (h : Lined m) (place : κ) : Lined (m.spawn place) := by
  refine ⟨fun {u th} hu hactive => ?_⟩
  change u ∈ m.line ++ [m.threads.length]
  rw [List.mem_append, List.mem_singleton]
  rw [getElem?_threads_spawn] at hu
  split at hu
  · rename_i hlast
    exact .inr hlast
  · exact .inl (h.mem hu hactive)

/-- Whoever can do a step is in line. -/
theorem Lined.idle_of_turn (h : Lined m) (hturn : m.turn code = none) (t : ThreadId) :
    m.step code t = none := by
  cases hstep : m.step code t with
  | none => rfl
  | some m' =>
      obtain ⟨th, ht, hs⟩ := stepped_of_step hstep
      have hnone := List.findSome?_eq_none_iff.mp hturn t (h.mem ht (active_of_stepped hs))
      rw [hstep] at hnone
      cases hnone

/-- What a thread can do is a matter of the threads, the mutexes and the condition variables. -/
theorem step_eq_none_congr (ht : m'.threads = m.threads) (hx : m'.mutexes = m.mutexes)
    (hcv : m'.condvars = m.condvars) (h : m.step code t = none) : m'.step code t = none := by
  cases hth : m.threads[t]? with
  | none => simp [step, control?, ht, hth]
  | some th =>
      cases hc : th.control with
      | running place =>
          simp only [step, control?, ht, hth, Option.map_some, hc] at h ⊢
          generalize code place = cmd at h ⊢
          cases cmd with
          | lock mutex next => simpa [commandStep, hx] using h
          | unlock next => simpa [commandStep, ht] using h
          | access f => simpa [commandStep, ht, hx] using h
          | read condvar next => simpa [commandStep, hcv] using h
          | sleep length next =>
              rw [commandStep] at h
              split at h <;> cases h
          | join other next =>
              rw [commandStep, control?] at h ⊢
              rw [ht]
              split at h
              · cases h
              · rfl
          | _ => cases h
      | waiting condvar deadline stage next =>
          simp only [step, control?, ht, hth, Option.map_some, hc] at h ⊢
          cases stage with
          | entering =>
              simp only [waitStep, enter, ht, hth, hcv, Option.bind_eq_bind, Option.bind_some]
                at h ⊢
              cases hg : th.guard with
              | none => rfl
              | some offered =>
                  cases hcondvar : m.condvars[condvar]? with
                  | none => rfl
                  | some cv =>
                      simp only [hg, hcondvar, Option.bind_some] at h
                      split at h <;> cases h
          | parking timed => simpa [waitStep, ht] using h
          | queued timed => rfl
          | woken notified timed => simpa [waitStep, ht, hx] using h
          | _ => cases h
      | _ => simp [step, control?, ht, hth, hc]

/-! ### Ends of parks -/

/-- No thread is about to enter an empty park. -/
structure Paced (m : Machine σ κ ε) : Prop where
  thread : ∀ {t : ThreadId} {th : Thread κ}, m.threads[t]? = some th → th.Paced

theorem Paced.congr (h : Paced m) (ht : m'.threads = m.threads) : Paced m' :=
  ⟨fun hu => h.thread (ht ▸ hu)⟩

theorem Paced.set (h : Paced m) (ht : m.threads[t]? = some th)
    (hset : m'.threads = m.threads.set t th') (hth' : th'.Paced) : Paced m' := by
  refine ⟨fun {u thu} hu => ?_⟩
  rw [hset, getElem?_set_of_getElem? ht] at hu
  split at hu
  · cases hu
    exact hth'
  · exact h.thread hu

theorem Paced.wake {b : Bool} {ts : List ThreadId} (h : Paced m) (hw : Woke m b ts m') :
    Paced m' := by
  refine ⟨fun {u thu} hu => ?_⟩
  rw [hw] at hu
  split at hu
  · obtain ⟨old, hold, rfl⟩ := Option.map_eq_some_iff.mp hu
    have hpaced := h.thread hold
    obtain ⟨c, g⟩ := old
    cases c with
    | waiting condvar deadline stage next =>
        cases stage with
        | queued timed => trivial
        | _ => exact hpaced
    | _ => trivial
  · exact h.thread hu

theorem paced_ofPass (timer : Timer) (reading : Except ClockError Time) (condvar : CondvarId)
    (deadline : Option Time) (next : Except SyncError WaitStatus → κ) (g : Option MutexId) :
    (⟨.waiting condvar deadline (.ofPass timer (timer.pass reading)) next, g⟩ :
      Thread κ).Paced := by
  cases hpass : timer.pass reading with
  | finish how => trivial
  | park p =>
      obtain ⟨now, -, hlate, rfl⟩ := Timer.exists_park_of_pass hpass
      exact Clock.park_length_pos (Time.durationSince_pos (Time.not_le.mp hlate))

theorem Calm.paced {cmd : Command σ κ ε} {notes : List (Note ε)} {c : Control κ}
    (h : Calm m cmd notes c) (g : Option MutexId) : (⟨c, g⟩ : Thread κ).Paced := by
  cases h <;> trivial

theorem Paced.stepped (h : Paced m) (ht : m.threads[t]? = some th)
    (hs : Stepped code m t th m') : Paced m' := by
  cases hs with
  | calm line hc hcalm => exact h.set ht rfl (hcalm.paced th.guard)
  | @notify place condvar all next hc hcode =>
      exact (h.wake (woke_notify m t condvar all)).set (notify_running m t condvar all ht hc) rfl
        trivial
  | @register condvar deadline next offered cv hc hg hcv hconflict =>
      exact h.set ht rfl (by cases deadline <;> trivial)
  | read hc => exact h.set ht rfl (paced_ofPass ..)
  | @retake condvar deadline notified timed next mutex x hc hg hx hfree =>
      exact h.set ht rfl (by cases timed <;> cases notified <;> trivial)
  | _ => exact h.set ht rfl trivial

/-- How many parks are to end at this instant. -/
def ending (m : Machine σ κ ε) (instant : Int) : Nat :=
  m.parked.countP (·.wakeAt == some instant)

/-- At rest, a machine has settled if no park is to end now. -/
theorem settled_of_ending (h : Punctual m) (hrest : AtRest code m) (hending : m.ending m.mono = 0) :
    Settled code m := by
  refine ⟨hrest, fun p hp u hu => Int.lt_iff_le_and_ne.mpr ⟨h.current hp hu, ?_⟩⟩
  rintro rfl
  have hpos : 0 < m.ending m.mono := List.countP_pos_iff.mpr ⟨p, hp, by simp [hu]⟩
  omega

theorem Settled.ending_eq_zero (h : Settled code m) : m.ending m.mono = 0 := by
  refine List.countP_eq_zero.mpr fun p hp hu => ?_
  exact Int.lt_irrefl _ (h.2 p hp m.mono (by simpa using hu))

theorem lt_of_wakeAt {length : Duration} {u : Int} (hlength : 0 < length.totalNanos)
    (hu : m.wakeAt length = some u) : m.mono < u := by
  rw [wakeAt] at hu
  split at hu
  · cases hu
    omega
  · cases hu

/-- A step adds no park that is to end by now. -/
theorem Paced.ending_le (h : Paced m) (ht : m.threads[t]? = some th)
    (hs : Stepped code m t th m') {instant : Int} (hle : instant ≤ m.mono) :
    m'.ending instant ≤ m.ending instant := by
  have later {q : Option CondvarId} {w : Option Int} (hw : ∀ u, w = some u → m.mono < u)
      (hparked : m'.parked = m.parked ++ [⟨t, q, w⟩]) : m'.ending instant ≤ m.ending instant := by
    have hne : w ≠ some instant := fun he => Int.not_lt.mpr hle (hw _ he)
    rw [ending, hparked, List.countP_append]
    simp [ending, hne]
  cases hs with
  | @notify place condvar all next hc hcode =>
      rw [ending, ending, parked_notify]
      exact List.Sublist.countP_le List.filter_sublist
  | sleep hc hcode hl =>
      have hpos := Nat.pos_of_ne_zero fun h0 => hl (Duration.totalNanos_injective h0)
      exact later (fun u hu => lt_of_wakeAt hpos hu) rfl
  | @park condvar deadline timed next mutex hc hg =>
      refine later (fun u hu => ?_) rfl
      cases timed with
      | none => cases hu
      | some timed =>
          have hpaced := h.thread ht
          rw [Thread.Paced, hc] at hpaced
          exact lt_of_wakeAt hpaced hu
  | _ => exact Nat.le_refl _

/-- A park that runs out is one of those that were to end. -/
theorem ending_expire_lt {p : Parked} {u : Int} (hp : p ∈ m.parked) (hu : p.wakeAt = some u) :
    (m.expire u p.thread).ending u < m.ending u := by
  have hsplit := List.countP_eq_countP_filter_add m.parked (·.wakeAt == some u)
    (·.thread != p.thread)
  have hout : 0 < (m.parked.filter fun q => !(q.thread != p.thread)).countP
      (·.wakeAt == some u) :=
    List.countP_pos_iff.mpr ⟨p, List.mem_filter.mpr ⟨hp, by simp⟩, by simp [hu]⟩
  rw [ending, ending, hsplit]
  exact Nat.lt_add_of_pos_right hout

theorem wakeAt_eq_none_of_firstExpiry {ps : List Parked} (h : firstExpiry ps = none) {q : Parked}
    (hq : q ∈ ps) : q.wakeAt = none := by
  induction ps with
  | nil => cases hq
  | cons p ps ih =>
      rw [firstExpiry] at h
      split at h
      · rename_i hp
        rcases List.mem_cons.mp hq with rfl | hq
        · exact hp
        · exact ih h hq
      · cases h
      · split at h <;> cases h

/-- The end that comes first comes before all others. -/
theorem le_of_firstExpiry {ps : List Parked} {u : Int} (h : firstExpiry ps = some (u, t))
    {q : Parked} (hq : q ∈ ps) {v : Int} (hv : q.wakeAt = some v) : u ≤ v := by
  induction ps generalizing u t with
  | nil => cases hq
  | cons p ps ih =>
      rw [firstExpiry] at h
      split at h
      · rename_i hp
        rcases List.mem_cons.mp hq with rfl | hq
        · rw [hp] at hv
          cases hv
        · exact ih h hq
      · rename_i hp hnone
        cases h
        rcases List.mem_cons.mp hq with rfl | hq
        · exact Int.le_of_eq (Option.some.inj (hp.symm.trans hv))
        · rw [wakeAt_eq_none_of_firstExpiry hnone hq] at hv
          cases hv
      · rename_i w w' t' hp hlater
        have hrest {x : Int} (hx : x ≤ w) (hx' : x ≤ w') : x ≤ v := by
          rcases List.mem_cons.mp hq with rfl | hq
          · exact Int.le_trans hx (Int.le_of_eq (Option.some.inj (hp.symm.trans hv)))
          · exact Int.le_trans hx' (ih hlater hq)
        split at h
        · rename_i hle
          cases h
          exact hrest (Int.le_refl _) hle
        · rename_i hlt
          cases h
          exact hrest (Int.le_of_lt (Int.not_le.mp hlt)) (Int.le_refl _)

/-- Nobody is parked twice. -/
theorem length_parked_le (h : Parking m) : m.parked.length ≤ m.threads.length := by
  have hcount : (m.parked.map (·.thread)).length =
      m.threads.countP (·.control.parkedOn.isSome) := by
    refine length_eq_countP h.nodup fun t => ?_
    refine ⟨fun ht => ?_, fun ⟨th, ht, hp⟩ => ?_⟩
    · obtain ⟨p, hp, rfl⟩ := List.mem_map.mp ht
      have hon := (h.mem_iff p.thread p.condvar).mp ⟨p.wakeAt, hp⟩
      obtain ⟨th, hth, hparked⟩ := Option.bind_eq_some_iff.mp hon
      exact ⟨th, hth, by rw [hparked]; rfl⟩
    · obtain ⟨q, hq⟩ := Option.isSome_iff_exists.mp hp
      obtain ⟨u, hu⟩ := (h.mem_iff t q).mpr (by rw [parkedOn?, ht, Option.bind_some, hq])
      exact List.mem_map.mpr ⟨_, hu, rfl⟩
  rw [List.length_map] at hcount
  rw [hcount]
  exact List.countP_le_length

end Machine

end TimedCondvar
