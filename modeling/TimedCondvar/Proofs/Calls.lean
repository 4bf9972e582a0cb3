import TimedCondvar.Proofs.Invariants

/-!
What a run does to one wait. Of all that happens around it, a wait that is registered sees little:
its thread reads the clock, parks, is woken or runs out, takes the mutex again and returns. `Trace`
lists what it saw, in order, and where it stands then; every run leaves such a trace of every wait
in it. What is said of the waits of a run is said of traces first.
-/

namespace TimedCondvar

namespace Control

variable {κ : Type}

/-- Whether the thread is queued without a deadline. -/
def endless : Control κ → Bool
  | .waiting _ _ (.queued none) _ => true
  | _ => false

/-- Whether a wait without a deadline ran out. -/
def overdue : Control κ → Bool
  | .waiting _ _ (.woken false none) _ => true
  | _ => false

@[simp] theorem endless_wake (b : Bool) (c : Control κ) : (c.wake b).endless = false := by
  cases c with
  | waiting condvar deadline stage next =>
      cases stage with
      | queued timed => rfl
      | _ => rfl
  | _ => rfl

theorem overdue_wake (b : Bool) (c : Control κ) (h : b = false → c.endless = false) :
    (c.wake b).overdue = c.overdue := by
  cases c with
  | waiting condvar deadline stage next =>
      cases stage with
      | queued timed =>
          cases b with
          | true => rfl
          | false =>
              cases timed with
              | none => cases h rfl
              | some timed => rfl
      | _ => rfl
  | _ => rfl

theorem endless_of_parkedOn {c : Control κ} (h : c.parkedOn = none) : c.endless = false := by
  cases c with
  | waiting condvar deadline stage next =>
      cases stage with
      | queued timed => cases h
      | _ => rfl
  | _ => rfl

theorem overdue_of_released {c : Control κ} (h : c.released = false) : c.overdue = false := by
  cases c with
  | waiting condvar deadline stage next =>
      cases stage with
      | woken notified timed => cases h
      | _ => rfl
  | _ => rfl

end Control

namespace Machine

variable {σ κ ε : Type} {code : κ → Command σ κ ε} {m m' : Machine σ κ ε} {t : ThreadId}
  {th : Thread κ} {e : Event}

/-! ### Waits without end

A wait without a deadline parks without end, so it is never woken but by a notification. -/

structure Endless (m : Machine σ κ ε) : Prop where
  parked : ∀ {p : Parked} {th : Thread κ}, p ∈ m.parked → m.threads[p.thread]? = some th →
    th.control.endless = true → p.wakeAt = none
  woken : ∀ {u : ThreadId} {th : Thread κ}, m.threads[u]? = some th → th.control.overdue = false

theorem Endless.set {th' : Thread κ} (h : Endless m) (ht : m.threads[t]? = some th)
    (hset : m'.threads = m.threads.set t th') (ho : th'.control.overdue = false)
    (hself : ∀ p ∈ m'.parked, p.thread = t → th'.control.endless = true → p.wakeAt = none)
    (hothers : ∀ p ∈ m'.parked, p.thread ≠ t → p ∈ m.parked) : Endless m' := by
  refine ⟨fun {p thp} hp hth he => ?_, fun {u thu} hu => ?_⟩
  · rw [hset, getElem?_set_of_getElem? ht] at hth
    split at hth
    · rename_i hpt
      cases hth
      exact hself p hp hpt he
    · rename_i hpt
      exact h.parked (hothers p hp hpt) hth he
  · rw [hset, getElem?_set_of_getElem? ht] at hu
    split at hu
    · cases hu
      exact ho
    · exact h.woken hu

/-- A step that parks nobody. -/
theorem Endless.keep {th' : Thread κ} (h : Endless m) (ht : m.threads[t]? = some th)
    (hset : m'.threads = m.threads.set t th') (hp' : th'.control.parkedOn = none)
    (hr' : th'.control.released = false) (hp : m'.parked = m.parked) : Endless m' := by
  refine h.set ht hset (Control.overdue_of_released hr') (fun p _ _ he => ?_) fun p hmem _ => ?_
  · simp [Control.endless_of_parkedOn hp'] at he
  · rw [← hp]
    exact hmem

theorem Endless.wake (h : Endless m) {b : Bool} {ts : List ThreadId} (hw : Woke m b ts m')
    (hp : ∀ p ∈ m'.parked, p ∈ m.parked)
    (hb : b = false → ∀ (u : ThreadId) (th : Thread κ), u ∈ ts → m.threads[u]? = some th →
      th.control.endless = false) : Endless m' := by
  refine ⟨fun {p thp} hmem hth he => ?_, fun {u thu} hu => ?_⟩
  · rw [hw p.thread] at hth
    split at hth
    · obtain ⟨old, -, rfl⟩ := Option.map_eq_some_iff.mp hth
      simp at he
    · exact h.parked (hp p hmem) hth he
  · rw [hw u] at hu
    split at hu
    · rename_i hmem
      obtain ⟨old, hold, rfl⟩ := Option.map_eq_some_iff.mp hu
      rw [Thread.wake_control, Control.overdue_wake b _ fun hf => hb hf u old hmem hold]
      exact h.woken hold
    · exact h.woken hu

theorem Endless.congr (h : Endless m) (ht : m'.threads = m.threads) (hp : m'.parked = m.parked) :
    Endless m' :=
  ⟨fun hmem hth he => h.parked (hp ▸ hmem) (ht ▸ hth) he, fun hu => h.woken (ht ▸ hu)⟩

theorem Endless.notify (h : Endless m) (thread : Option ThreadId) (condvar : CondvarId)
    (all : Bool) : Endless (m.notify thread condvar all).1 := by
  refine h.wake (woke_notify m thread condvar all) (fun p hmem => ?_) (fun hf => nomatch hf)
  rw [parked_notify] at hmem
  exact List.mem_of_mem_filter hmem

theorem Endless.stepped (h : Endless m) (hpark : Parking m) (ht : m.threads[t]? = some th)
    (hs : Stepped code m t th m') : Endless m' := by
  cases hs with
  | lock hc hcode hx hfree => exact h.keep ht rfl rfl rfl rfl
  | unlock hc hcode hg => exact h.keep ht rfl rfl rfl rfl
  | access hc hcode hg hx => exact h.keep ht rfl rfl rfl rfl
  | calm line hc hcalm => exact h.keep ht rfl hcalm.unparked.1 hcalm.unparked.2 rfl
  | notify hc hcode =>
      rename_i place condvar all next
      exact (h.notify t condvar all).keep (notify_running m t condvar all ht hc) rfl rfl rfl rfl
  | sleep hc hcode hl =>
      refine h.set ht rfl rfl (fun _ _ _ he => nomatch he) fun p hmem hpt => ?_
      rcases List.mem_append.mp hmem with hmem | hmem
      · exact hmem
      · exact absurd (List.mem_singleton.mp hmem ▸ rfl) hpt
  | reject hc hg hcv hconflict => exact h.keep ht rfl rfl rfl rfl
  | register hc hg hcv hconflict =>
      exact h.keep ht rfl (Control.parkedOn_registered ..) (Control.released_registered ..) rfl
  | read hc => exact h.keep ht rfl (Control.parkedOn_ofPass ..) (Control.released_ofPass ..) rfl
  | @park condvar deadline timed next mutex hc hg =>
      -- a thread that is about to park has no entry in the list yet
      have hnot : ∀ p ∈ m.parked, p.thread ≠ t := by
        rintro ⟨u, q, w⟩ hmem rfl
        have hq := (hpark.mem_iff u q).mp ⟨w, hmem⟩
        rw [parkedOn?, ht, Option.bind_some, hc] at hq
        cases hq
      refine h.set ht rfl rfl (fun p hmem hpt he => ?_) fun p hmem hpt => ?_
      · rcases List.mem_append.mp hmem with hmem | hmem
        · exact absurd hpt (hnot p hmem)
        · cases timed with
          | none => exact List.mem_singleton.mp hmem ▸ rfl
          | some timed => cases he
      · rcases List.mem_append.mp hmem with hmem | hmem
        · exact hmem
        · exact absurd (List.mem_singleton.mp hmem ▸ rfl) hpt
  | retake hc hg hx hfree =>
      exact h.keep ht rfl (Control.parkedOn_ofWake ..) (Control.released_ofWake ..) rfl
  | leave hc => exact h.keep ht rfl rfl rfl rfl

theorem Endless.next (hpark : Parking m) (hm : Next code m e m') (h : Endless m) : Endless m' := by
  cases hm with
  | own ho =>
      cases ho with
      | step hs =>
          obtain ⟨th, ht, hst⟩ := stepped_of_step hs
          exact h.stepped hpark ht hst
      | @expire p u instant hp hu hle =>
          refine h.wake (woke_expire m instant p.thread) (fun q hq => List.mem_of_mem_filter hq) ?_
          intro _ v th hv hth
          obtain rfl := List.mem_singleton.mp hv
          refine Bool.eq_false_iff.mpr fun he => ?_
          rw [h.parked hp hth he] at hu
          cases hu
      | tick instant => exact h.congr rfl rfl
      | clocks clocks => exact h.congr rfl rfl
  | act ha =>
      cases ha with
      | spawn place =>
          refine ⟨fun {p th} hp hth he => ?_, fun {u th} hu => ?_⟩
          · rw [getElem?_threads_spawn] at hth
            split at hth
            · cases hth
              cases he
            · exact h.parked hp hth he
          · rw [getElem?_threads_spawn] at hu
            split at hu
            · cases hu
              rfl
            · exact h.woken hu
      | bind thread clock => exact h.congr (bind_threads ..) (bind_parked ..)
      | notify thread condvar all => exact h.notify thread condvar all
      | modify mutex f => exact h.congr rfl rfl
      | log log => exact h.congr rfl rfl

theorem Fresh.endless (h : Fresh m) : Endless m where
  parked hp := by simp [h.parked] at hp
  woken hu := by
    obtain ⟨⟨place, hplace⟩, -⟩ := h.threads _ (List.mem_of_getElem? hu)
    rw [hplace]
    rfl

/-- All that waits rely on. -/
structure Sound (m : Machine σ κ ε) : Prop where
  parking : Parking m
  guarded : Guarded m
  endless : Endless m

theorem Sound.next (hm : Next code m e m') (h : Sound m) : Sound m' :=
  ⟨h.parking.next hm, h.guarded.next hm, h.endless.next h.parking hm⟩

theorem Fresh.sound (h : Fresh m) : Sound m := ⟨h.parking, h.guarded, h.endless⟩

/-! ### Traces -/

/-- Whether an event is about thread `t`. -/
def Event.Concerns (t : ThreadId) : Event → Prop
  | .silent => False
  | .woke _ threads _ => t ∈ threads
  | .read u _ | .parked u | .expired u | .returned u _ _ => u = t

/-- A registered wait: what it was called with, and the mutex it came with. -/
structure Call (κ : Type) where
  condvar : CondvarId
  deadline : Option Time
  next : Except SyncError WaitStatus → κ
  mutex : MutexId

namespace Call

variable (call : Call κ)

/-- The thread at a stage of the call. -/
def thread (stage : Stage) : Thread κ :=
  ⟨.waiting call.condvar call.deadline stage call.next, some call.mutex⟩

/-- The thread behind the call. -/
def returned (how : WaitEnd) : Thread κ := ⟨.running (call.next how.result), some call.mutex⟩

end Call

/-- What a move that shows an event does to the stage of a registered wait. -/
inductive Moved (t : ThreadId) (condvar : CondvarId) : Event → Stage → Stage → Prop
  | stay {e : Event} {stage : Stage} (h : ¬e.Concerns t) : Moved t condvar e stage stage
  | read (timer : Timer) (reading : Except ClockError Time) :
      Moved t condvar (.read t reading) (.reading timer) (.ofPass timer (timer.pass reading))
  | park (timed : Option (Timer × Park)) :
      Moved t condvar (.parked t) (.parking timed) (.queued timed)
  | notified (timed : Option (Timer × Park)) {threads : List ThreadId} (result : WakeResult)
      (h : t ∈ threads) :
      Moved t condvar (.woke condvar threads result) (.queued timed) (.woken true timed)
  | expired (timed : Timer × Park) :
      Moved t condvar (.expired t) (.queued (some timed)) (.woken false (some timed))
  | retake (notified : Bool) (timed : Option (Timer × Park)) :
      Moved t condvar .silent (.woken notified timed) (.ofWake notified timed)

/-- What a wait saw of a run, from one stage to another. -/
inductive Trace (t : ThreadId) (condvar : CondvarId) (stage : Stage) : List Event → Stage → Prop
  | nil : Trace t condvar stage [] stage
  | snoc {es : List Event} {e : Event} {stage' stage'' : Stage}
      (trace : Trace t condvar stage es stage') (moved : Moved t condvar e stage' stage'') :
      Trace t condvar stage (es ++ [e]) stage''

theorem Moved.ne_entering {condvar : CondvarId} {stage stage' : Stage}
    (h : Moved t condvar e stage stage') (hs : stage ≠ .entering) : stage' ≠ .entering := by
  cases h with
  | stay h => exact hs
  | read timer reading => cases timer.pass reading <;> exact nofun
  | retake notified timed => cases timed <;> cases notified <;> exact nofun
  | _ => exact nofun

section

variable {call : Call κ} {stage : Stage}

/-- A notification wakes a wait that is queued on its condition variable, and no other. -/
theorem Parking.moved_notify (h : Parking m) (ht : m.threads[t]? = some (call.thread stage))
    (thread : Option ThreadId) (condvar : CondvarId) (all : Bool) :
    ∃ stage', (m.notify thread condvar all).1.threads[t]? = some (call.thread stage') ∧
      Moved t call.condvar (.woke condvar (m.woken condvar all) (m.notify thread condvar all).2)
        stage stage' := by
  rw [getElem?_threads_notify, ht]
  by_cases hw : t ∈ m.woken condvar all
  · have hq := h.mem_queue_iff.mp (mem_queue_of_mem_woken hw)
    rw [parkedOn?, ht, Option.bind_some] at hq
    cases stage with
    | queued timed =>
        obtain rfl : call.condvar = condvar := by simpa [Call.thread, Control.parkedOn] using hq
        refine ⟨.woken true timed, ?_, .notified timed _ hw⟩
        rw [if_pos hw]
        rfl
    | _ => cases hq
  · exact ⟨stage, by rw [if_neg hw], .stay hw⟩

/-- What the waiting thread's own step does. -/
theorem moved_of_own (ht : m.threads[t]? = some (call.thread stage)) (hreg : stage ≠ .entering)
    (hs : Stepped code m t (call.thread stage) m') :
    (∃ stage', m'.threads[t]? = some (call.thread stage') ∧
      Moved t call.condvar (m.shown code t) stage stage') ∨
    ∃ how, stage = .leaving how ∧ m.shown code t = .returned t call.condvar how ∧
      m'.threads[t]? = some (call.returned how) := by
  have hself := getElem?_set_self_of_getElem? ht
  rw [shown_waiting ht rfl]
  cases hs with
  | reject hc hg hcv hconflict =>
      cases hc
      exact absurd rfl hreg
  | register hc hg hcv hconflict =>
      cases hc
      exact absurd rfl hreg
  | read hc =>
      cases hc
      exact .inl ⟨_, hself _, .read _ _⟩
  | park hc hg =>
      cases hc
      exact .inl ⟨_, hself _, .park _⟩
  | retake hc hg hx hfree =>
      cases hc
      exact .inl ⟨_, hself _, .retake _ _⟩
  | leave hc =>
      cases hc
      exact .inr ⟨_, rfl, rfl, hself _⟩
  | calm line hc hcalm => cases hc
  | _ hc => cases hc

/-- A step of another thread is nothing to the wait, but for a notification. -/
theorem Parking.moved_of_other (h : Parking m) {u : ThreadId} (hut : u ≠ t)
    (ht : m.threads[t]? = some (call.thread stage)) (hu : m.threads[u]? = some th)
    (hs : Stepped code m u th m') :
    ∃ stage', m'.threads[t]? = some (call.thread stage') ∧
      Moved t call.condvar (m.shown code u) stage stage' := by
  have hothers (th' : Thread κ) : (m.threads.set u th')[t]? = some (call.thread stage) := by
    rw [getElem?_set_of_getElem? hu, if_neg (Ne.symm hut), ht]
  -- what the other thread does to itself shows nothing that concerns the wait
  have running {place : κ} {th' : Thread κ} (hc : th.control = .running place)
      (he : m.commandShown u (code place) = .silent) :
      ∃ stage', (m.threads.set u th')[t]? = some (call.thread stage') ∧
        Moved t call.condvar (m.shown code u) stage stage' := by
    rw [shown_running hu hc, he]
    exact ⟨stage, hothers _, .stay nofun⟩
  have waiting {condvar : CondvarId} {deadline : Option Time} {s : Stage}
      {next : Except SyncError WaitStatus → κ} {th' : Thread κ}
      (hc : th.control = .waiting condvar deadline s next) :
      ∃ stage', (m.threads.set u th')[t]? = some (call.thread stage') ∧
        Moved t call.condvar (m.shown code u) stage stage' := by
    rw [shown_waiting hu hc]
    refine ⟨stage, hothers _, .stay ?_⟩
    cases s with
    | reading timer => exact hut
    | parking timed => exact hut
    | leaving how => exact hut
    | _ => exact nofun
  cases hs with
  | lock hc hcode hx hfree => exact running hc (by rw [hcode]; rfl)
  | unlock hc hcode hg => exact running hc (by rw [hcode]; rfl)
  | access hc hcode hg hx => exact running hc (by rw [hcode]; rfl)
  | calm line hc hcalm => exact running hc hcalm.silent
  | notify hc hcode =>
      rename_i place condvar all next
      rw [shown_running hu hc, hcode]
      obtain ⟨stage', ht', hm⟩ := h.moved_notify ht u condvar all
      have hu' := notify_running m u condvar all hu hc
      exact ⟨stage', by rw [getElem?_set_of_getElem? hu', if_neg (Ne.symm hut), ht'], hm⟩
  | sleep hc hcode hl => exact running hc (by rw [hcode]; rfl)
  | reject hc hg hcv hconflict => exact waiting hc
  | register hc hg hcv hconflict => exact waiting hc
  | read hc => exact waiting hc
  | park hc hg => exact waiting hc
  | retake hc hg hx hfree => exact waiting hc
  | leave hc => exact waiting hc

/-- The end of its park lets a wait with a deadline go on, and a wait without one has none. -/
theorem Sound.moved_expire (h : Sound m) {p : Parked} {u : Int} (hp : p ∈ m.parked)
    (hu : p.wakeAt = some u) (ht : m.threads[p.thread]? = some (call.thread stage)) :
    ∃ stage', some ((call.thread stage).wake false) = some (call.thread stage') ∧
      Moved p.thread call.condvar (.expired p.thread) stage stage' := by
  have hq := (h.parking.mem_iff p.thread p.condvar).mp ⟨p.wakeAt, hp⟩
  rw [parkedOn?, ht, Option.bind_some] at hq
  cases stage with
  | queued timed =>
      cases timed with
      | none =>
          rw [h.endless.parked hp ht rfl] at hu
          cases hu
      | some timed => exact ⟨_, rfl, .expired timed⟩
  | _ => cases hq

/-- A move does to a registered wait what its event says, or the wait returns. -/
theorem Sound.moved (h : Sound m) (hm : Next code m e m')
    (ht : m.threads[t]? = some (call.thread stage)) (hreg : stage ≠ .entering) :
    (∃ stage', m'.threads[t]? = some (call.thread stage') ∧
      Moved t call.condvar e stage stage') ∨
    ∃ how, stage = .leaving how ∧ e = .returned t call.condvar how ∧
      m'.threads[t]? = some (call.returned how) := by
  cases hm with
  | own ho =>
      cases ho with
      | @step u m' hs =>
          obtain ⟨th, hu, hst⟩ := stepped_of_step hs
          by_cases hut : u = t
          · subst hut
            obtain rfl : call.thread stage = th := by simpa [ht] using hu
            exact moved_of_own ht hreg hst
          · exact .inl (h.parking.moved_of_other hut ht hu hst)
      | @expire p u instant hp hu hle =>
          refine .inl ?_
          rw [woke_expire m instant p.thread t]
          by_cases hpt : p.thread = t
          · subst hpt
            rw [if_pos List.mem_cons_self, ht]
            exact h.moved_expire hp hu ht
          · have hnot : t ∉ [p.thread] := by simpa using Ne.symm hpt
            exact ⟨stage, by rw [if_neg hnot, ht], .stay hpt⟩
      | tick instant => exact .inl ⟨stage, ht, .stay nofun⟩
      | clocks clocks => exact .inl ⟨stage, ht, .stay nofun⟩
  | act ha =>
      cases ha with
      | spawn place =>
          refine .inl ⟨stage, ?_, .stay nofun⟩
          rw [getElem?_threads_spawn, if_neg, ht]
          rintro rfl
          rw [getElem?_threads_length] at ht
          cases ht
      | bind thread clock => exact .inl ⟨stage, by rw [bind_threads, ht], .stay nofun⟩
      | notify thread condvar all => exact .inl (h.parking.moved_notify ht thread condvar all)
      | modify mutex f => exact .inl ⟨stage, ht, .stay nofun⟩
      | log log => exact .inl ⟨stage, ht, .stay nofun⟩

theorem registered_ne_entering (clock : Clock) (deadline : Option Time) :
    Stage.registered clock deadline ≠ .entering := by
  cases deadline <;> simp [Stage.registered]

/-- A registered wait returned. -/
def Event.isReturned : Event → Bool
  | .returned _ _ _ => true
  | _ => false

theorem not_mem_of_any_isReturned {es : List Event} (h : es.any Event.isReturned = false)
    (t : ThreadId) (condvar : CondvarId) (how : WaitEnd) : .returned t condvar how ∉ es :=
  fun hmem => List.any_eq_false.mp h _ hmem rfl

/-- As long as a wait does not return, a run leaves a trace of it. -/
theorem Run.trace {es : List Event} (hs : Sound m) (run : Run (Next code) m es m')
    (ht : m.threads[t]? = some (call.thread stage)) (hreg : stage ≠ .entering)
    (hin : ∀ condvar how, .returned t condvar how ∉ es) :
    ∃ stage', m'.threads[t]? = some (call.thread stage') ∧ stage' ≠ .entering ∧
      Trace t call.condvar stage es stage' := by
  induction run with
  | nil => exact ⟨stage, ht, hreg, .nil⟩
  | @snoc es e m₁ m₂ run move ih =>
      obtain ⟨stage₁, ht₁, hreg₁, trace⟩ := ih fun condvar how hmem =>
        hin condvar how (List.mem_append_left _ hmem)
      rcases (run.invariant Sound.next hs).moved move ht₁ hreg₁ with
        ⟨stage₂, ht₂, hmoved⟩ | ⟨how, -, rfl, -⟩
      · exact ⟨stage₂, ht₂, hmoved.ne_entering hreg₁, trace.snoc hmoved⟩
      · exact absurd (List.mem_append_right _ List.mem_cons_self) (hin call.condvar how)

end

end Machine

end TimedCondvar
