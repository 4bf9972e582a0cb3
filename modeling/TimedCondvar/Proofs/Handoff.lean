import TimedCondvar.Machine.PredicateWait
import TimedCondvar.Proofs.Invariants

/-!
One thread waits for a condition on a guarded state, and any number of producers change the state
and tell of it. A producer takes the mutex, changes the state and gives the mutex up, and it
notifies just before it gives the mutex up or just after. `Effect` says what a move of any of them
is to the waiter; what follows for its wake-ups is shown of effects, and not of the code.
-/

namespace TimedCondvar

/-- What is waited for: a condition on the state behind a mutex, told of through a condition
variable. -/
structure Handoff (σ : Type) where
  mutex : MutexId
  condvar : CondvarId
  ready : σ → Bool

namespace Handoff

/-- A change to the state, and how a producer tells of it. -/
structure Job (σ : Type) where
  change : σ → σ
  /-- Whether it wakes all waiters, or the first one. -/
  all : Bool
  /-- Whether it notifies before it gives the mutex up. -/
  early : Bool

/-- Where a thread is in its own code. -/
inductive Place (σ : Type)
  /-- The waiter before it has the mutex. -/
  | arriving (policy : Policy)
  | looping (state : Policy.State)
  | departed
  /-- A producer between two jobs. -/
  | idle (jobs : List (Job σ))
  | changing (job : Job σ) (jobs : List (Job σ))
  | changed (job : Job σ) (jobs : List (Job σ))
  | closing (job : Job σ) (jobs : List (Job σ))

/-- The producer has changed the state and not yet told of it. -/
def Place.owes {σ : Type} : Place σ → Bool
  | .changed _ _ => true
  | .closing job _ => !job.early
  | _ => false

variable {σ ε : Type}

/-- The code of the waiter and of the producers. -/
def code (h : Handoff σ) : Place σ → Command σ (Place σ) ε
  | .arriving policy => .lock h.mutex (.looping policy.start)
  | .looping state =>
    state.command h.condvar (fun s => (h.ready s, (), s)) () (fun state _ => .looping state)
      fun _ => .unlock .departed
  | .departed => .stop
  | .idle [] => .stop
  | .idle (job :: jobs) => .lock h.mutex (.changing job jobs)
  | .changing job jobs => .access fun s => (job.change s, .changed job jobs)
  | .changed job jobs =>
    if job.early then .notify h.condvar job.all fun _ => .closing job jobs
    else .unlock (.closing job jobs)
  | .closing job jobs =>
    if job.early then .unlock (.idle jobs) else .notify h.condvar job.all fun _ => .idle jobs

end Handoff

/-- The state behind a mutex, if the mutex exists. -/
def Machine.state? {σ κ ε : Type} (m : Machine σ κ ε) (x : MutexId) : Option σ :=
  (m.mutexes[x]?).map (·.state)

/-- Whether the thread owes a notification. -/
def Thread.owes {σ : Type} (th : Thread (Handoff.Place σ)) : Bool :=
  match th.control with
  | .running place => place.owes
  | _ => false

namespace Handoff

variable {σ ε : Type}

/-- The condition holds of the state as it is. -/
def Holds (h : Handoff σ) (m : Machine σ (Place σ) ε) : Prop :=
  ∃ s, m.state? h.mutex = some s ∧ h.ready s = true

/-- Some producer has changed the state and not yet told of it. -/
def Owed (m : Machine σ (Place σ) ε) : Prop :=
  ∃ (u : ThreadId) (th : Thread (Place σ)), m.threads[u]? = some th ∧ th.owes = true

/-- Nothing has happened yet. Thread `t` is about to wait under some policy, and all other threads
have jobs to do. -/
structure Start (t : ThreadId) (m : Machine σ (Place σ) ε) : Prop where
  fresh : Machine.Fresh m
  waiter : ∃ policy, m.threads[t]? = some ⟨.running (.arriving policy), none⟩
  producers : ∀ {u : ThreadId} {th : Thread (Place σ)}, u ≠ t → m.threads[u]? = some th →
    ∃ jobs, th = ⟨.running (.idle jobs), none⟩

/-! ### Where the waiter stands

Of the waiter it matters what it can know of the condition. Once it found the condition false it
has the mutex until it is queued, so the condition stays false; when it wakes up because its park
ran out it does not look again. -/

inductive Standing
  /-- It will look at the condition before it parks, or it is done. -/
  | elsewhere
  /-- It found the condition false and has not let go of the mutex since. -/
  | decided
  /-- It has the mutex and is about to park, for the first time or again. -/
  | awake
  | queued
  /-- Its park ran out, and it does not have the mutex back yet. -/
  | lapsed
  deriving DecidableEq

end Handoff

/-- Whether the wait found its condition false and is on its way to wait for it. -/
def Policy.State.decided : Policy.State → Bool
  | .arm (.within _) _ => false
  | .arm _ _ | .block _ _ => true
  | _ => false

open Handoff (Place Standing Holds Owed)

def Stage.standing : Stage → Standing
  | .entering => .decided
  | .reading _ | .parking _ => .awake
  | .queued _ => .queued
  | .woken false _ => .lapsed
  | .woken true _ | .leaving _ => .elsewhere

def Control.standing {σ : Type} : Control (Place σ) → Standing
  | .running (.looping state) => if state.decided then .decided else .elsewhere
  | .waiting _ _ stage _ => stage.standing
  | _ => .elsewhere

def Machine.standing {σ ε : Type} (m : Machine σ (Place σ) ε) (t : ThreadId) : Standing :=
  ((m.threads[t]?).map (·.control.standing)).getD .elsewhere

theorem Policy.unmet_of_decided_checked {p : Policy} {holds : Bool}
    (h : (p.checked holds).decided = true) : holds = false := by
  cases holds with
  | false => rfl
  | true => cases h

theorem Policy.decided_of_armed {p : Policy} {interval : Duration} {r : Except SyncError Time}
    (h : (p.armed interval r).decided = true) : (State.arm p interval).decided = true := by
  cases r with
  | error e => cases h
  | ok now =>
      cases p with
      | within timeout => cases h
      | _ => rfl

/-- After a wait the loop looks at the condition, or ends. -/
theorem Policy.not_decided_returned (p : Policy) (r : Except SyncError WaitStatus) :
    ¬(p.returned r).decided = true := by
  cases r with
  | error e => exact Bool.false_ne_true
  | ok status =>
      cases status with
      | signaled => exact Bool.false_ne_true
      | timedOut => cases p <;> exact Bool.false_ne_true

namespace Machine

variable {σ κ ε : Type} {m m' : Machine σ κ ε}

theorem state?_congr (h : m'.mutexes = m.mutexes) (y : MutexId) : m'.state? y = m.state? y := by
  rw [state?, state?, h]

theorem state?_of_set {x : MutexId} {mutex mutex' : Mutex σ} (hx : m.mutexes[x]? = some mutex)
    (h : m'.mutexes = m.mutexes.set x mutex') (y : MutexId) :
    m'.state? y = if y = x then some mutex'.state else m.state? y := by
  rw [state?, state?, h, getElem?_set_of_getElem? hx]
  split <;> rfl

/-- Taking a mutex is nothing to the state behind it. -/
theorem state?_of_taken {x : MutexId} {mutex : Mutex σ} {holder : Option ThreadId}
    (hx : m.mutexes[x]? = some mutex)
    (h : m'.mutexes = m.mutexes.set x { mutex with holder := holder }) (y : MutexId) :
    m'.state? y = m.state? y := by
  rw [state?_of_set hx h]
  split
  · rename_i hy
    rw [hy, state?, hx, Option.map_some]
  · rfl

theorem state?_of_free {x : MutexId}
    (h : m'.mutexes = m.mutexes.modify x fun mutex => { mutex with holder := none })
    (y : MutexId) : m'.state? y = m.state? y := by
  rw [state?, state?, h, List.getElem?_modify]
  split
  · cases m.mutexes[y]? <;> rfl
  · simp

end Machine

namespace Handoff

open Machine

variable {σ ε : Type} {h : Handoff σ} {m m' : Machine σ (Place σ) ε} {t u : ThreadId}
  {th th' : Thread (Place σ)} {e : Event}

/-- The event is no notification, and the waiter neither parked nor returned. -/
def Aside (t : ThreadId) : Event → Prop
  | .woke _ _ _ => False
  | .parked u | .returned u _ _ => u ≠ t
  | _ => True

/-- What a move of its own, or the end of its park, is to the waiter. `unmet` is what it has to
have found before it decides to wait. -/
inductive Turned (t : ThreadId) (unmet : Prop) : Event → Standing → Standing → Prop
  | away (e : Event) (s : Standing) : Turned t unmet e s .elsewhere
  | decide (s : Standing) (hunmet : unmet) : Turned t unmet .silent s .decided
  | register : Turned t unmet .silent .decided .awake
  | park : Turned t unmet (.parked t) .awake .queued
  | expire : Turned t unmet (.expired t) .queued .lapsed
  | retake : Turned t unmet .silent .lapsed .awake
  | stay {e : Event} (s : Standing) (haside : Aside t e) : Turned t unmet e s s

/-- What the waiter can be like: it has the mutex, or gave it up to wait, from its arrival to its
departure. -/
inductive Waiter (h : Handoff σ) : Thread (Place σ) → Prop
  | arriving (policy : Policy) : Waiter h ⟨.running (.arriving policy), none⟩
  | looping (state : Policy.State) : Waiter h ⟨.running (.looping state), some h.mutex⟩
  | inside (policy : Policy) (deadline : Option Time) (stage : Stage) :
      Waiter h ⟨.waiting h.condvar deadline stage fun r => .looping (policy.returned r),
        some h.mutex⟩
  | departed : Waiter h ⟨.running .departed, none⟩
  | ended : Waiter h ⟨.ended, none⟩

/-- What a producer can be like: it never waits. -/
inductive Producer (h : Handoff σ) : Thread (Place σ) → Prop
  | idle (jobs : List (Job σ)) : Producer h ⟨.running (.idle jobs), none⟩
  | changing (job : Job σ) (jobs : List (Job σ)) :
      Producer h ⟨.running (.changing job jobs), some h.mutex⟩
  | changed (job : Job σ) (jobs : List (Job σ)) :
      Producer h ⟨.running (.changed job jobs), some h.mutex⟩
  | closing (job : Job σ) (jobs : List (Job σ)) :
      Producer h ⟨.running (.closing job jobs), if job.early then some h.mutex else none⟩
  | ended : Producer h ⟨.ended, none⟩

theorem Waiter.not_owes (hw : Waiter h th) : th.owes = false := by
  cases hw <;> rfl

theorem Waiter.wake (hw : Waiter h th) (b : Bool) : Waiter h (th.wake b) := by
  cases hw with
  | arriving policy => exact .arriving policy
  | looping state => exact .looping state
  | inside policy deadline stage =>
      cases stage with
      | queued timed => exact .inside policy deadline (.woken b timed)
      | _ => exact .inside policy deadline _
  | departed => exact .departed
  | ended => exact .ended

theorem Producer.wake (hp : Producer h th) (b : Bool) : th.wake b = th := by
  cases hp <;> rfl

theorem Producer.unparked (hp : Producer h th) : th.control.parkedOn = none := by
  cases hp <;> rfl

/-- The waiter parks on its own condition variable only. -/
theorem Waiter.queued_iff (hw : Waiter h th) {q : Option CondvarId} :
    th.control.parkedOn = some q ↔ q = some h.condvar ∧ th.control.standing = .queued := by
  cases hw with
  | inside policy deadline stage =>
      cases stage with
      | queued timed => simp [Control.parkedOn, Control.standing, Stage.standing, eq_comm]
      | woken b timed =>
          cases b <;> simp [Control.parkedOn, Control.standing, Stage.standing]
      | _ => simp [Control.parkedOn, Control.standing, Stage.standing]
  | looping state =>
      simp only [Control.parkedOn, Control.standing, reduceCtorEq, false_iff]
      split <;> simp
  | _ => simp [Control.parkedOn, Control.standing]

/-- A waiter that decided to wait, or is awake, has the mutex. -/
theorem Waiter.holding (hw : Waiter h th)
    (hs : th.control.standing = .decided ∨ th.control.standing = .awake) :
    th.holding = some h.mutex := by
  cases hw with
  | looping state => rfl
  | inside policy deadline stage =>
      cases stage with
      | queued timed => simp [Control.standing, Stage.standing] at hs
      | woken b timed => cases b <;> simp [Control.standing, Stage.standing] at hs
      | _ => rfl
  | _ => simp [Control.standing] at hs

/-- The loop goes on with a decision to wait only if it had decided before, or finds the condition
false. -/
theorem Turned.looping {unmet : Prop} {s : Standing} {state : Policy.State}
    (hd : state.decided = true → s = .decided ∨ unmet) :
    Turned t unmet .silent s (Control.running (Place.looping (σ := σ) state)).standing := by
  rw [Control.standing]
  split
  · rename_i hdecided
    rcases hd hdecided with rfl | hunmet
    · exact .stay .decided trivial
    · exact .decide s hunmet
  · exact .away .silent s

/-- The condition is false where it was found false. -/
theorem not_holds {x : Mutex σ} (hx : m.mutexes[h.mutex]? = some x)
    (hready : h.ready x.state = false) : ¬h.Holds m := by
  rintro ⟨s, hs, htrue⟩
  rw [state?, hx] at hs
  cases hs
  rw [hready] at htrue
  cases htrue

/-- What a step of the waiter does: nothing to the state, and to the waiter what its event says. -/
structure WaiterStep (h : Handoff σ) (t : ThreadId) (m m' : Machine σ (Place σ) ε) (e : Event)
    (th th' : Thread (Place σ)) : Prop where
  threads : m'.threads = m.threads.set t th'
  waiter : Waiter h th'
  state : m'.state? h.mutex = m.state? h.mutex
  turned : Turned t (¬h.Holds m) e th.control.standing th'.control.standing

/-- The waiter goes on in its loop, with the mutex. -/
theorem WaiterStep.loop {state : Policy.State}
    (hset : m'.threads = m.threads.set t ⟨.running (.looping state), some h.mutex⟩)
    (hstate : m'.state? h.mutex = m.state? h.mutex)
    (hd : state.decided = true → th.control.standing = .decided ∨ ¬h.Holds m) :
    WaiterStep h t m m' .silent th ⟨.running (.looping state), some h.mutex⟩ :=
  ⟨hset, .looping state, hstate, .looping hd⟩

theorem Waiter.stepped_looping {state : Policy.State}
    (ht : m.threads[t]? = some ⟨.running (.looping state), some h.mutex⟩)
    (hs : Stepped h.code m t ⟨.running (.looping state), some h.mutex⟩ m') :
    ∃ th', WaiterStep h t m m' (m.shown h.code t) ⟨.running (.looping state), some h.mutex⟩
      th' := by
  rw [shown_running ht rfl]
  cases state with
  | check p =>
      obtain ⟨mutex, x, hg, hx, rfl⟩ := hs.command
      cases hg
      refine ⟨_, .loop rfl (state?_of_taken hx rfl _) fun hd => .inr ?_⟩
      exact not_holds hx (Policy.unmet_of_decided_checked hd)
  | arm p interval =>
      obtain ⟨notes, c, line, hcalm, rfl⟩ := hs.command
      cases hcalm with
      | read hcv =>
          refine ⟨_, .loop rfl rfl fun hd => .inl ?_⟩
          exact if_pos (Policy.decided_of_armed hd)
  | block p deadline =>
      obtain ⟨notes, c, line, hcalm, rfl⟩ := hs.command
      cases hcalm
      exact ⟨_, rfl, .inside p _ .entering, rfl, .stay .decided trivial⟩
  | recheck =>
      obtain ⟨mutex, x, hg, hx, rfl⟩ := hs.command
      cases hg
      exact ⟨_, .loop rfl (state?_of_taken hx rfl _) fun hd => nomatch hd⟩
  | done result =>
      obtain ⟨mutex, hg, rfl⟩ := hs.command
      cases hg
      exact ⟨_, rfl, .departed, state?_of_free rfl _, .away _ _⟩

/-- The waiter inside a wait, at some stage of it. -/
def waiting (h : Handoff σ) (policy : Policy) (deadline : Option Time) (stage : Stage) :
    Thread (Place σ) :=
  ⟨.waiting h.condvar deadline stage fun r => .looping (policy.returned r), some h.mutex⟩

/-- Inside a wait the condition is not looked at. -/
theorem Waiter.stepped_inside {policy : Policy} {deadline : Option Time} {stage : Stage}
    (ht : m.threads[t]? = some (h.waiting policy deadline stage))
    (hs : Stepped h.code m t (h.waiting policy deadline stage) m') :
    ∃ th', WaiterStep h t m m' (m.shown h.code t) (h.waiting policy deadline stage) th' := by
  rw [shown_waiting ht rfl]
  cases hs with
  | reject hc hg hcv hconflict =>
      cases hc
      exact ⟨_, .loop rfl rfl fun hd => absurd hd (policy.not_decided_returned _)⟩
  | register hc hg hcv hconflict =>
      cases hc
      refine ⟨_, rfl, .inside policy deadline _, rfl, ?_⟩
      cases deadline <;> exact .register
  | read hc =>
      cases hc
      rename_i timer
      refine ⟨_, rfl, .inside policy deadline _, rfl, ?_⟩
      generalize m.clocks.now m.mono timer.clock = reading
      cases timer.pass reading with
      | park p => exact .stay .awake trivial
      | finish how => exact .away _ _
  | park hc hg =>
      cases hc
      cases hg
      exact ⟨_, rfl, .inside policy deadline _, state?_of_free rfl _, .park⟩
  | retake hc hg hx hfree =>
      cases hc
      cases hg
      rename_i notified timed x
      refine ⟨_, rfl, .inside policy deadline _, state?_of_taken hx rfl _, ?_⟩
      -- only a park that ran out leads to another pass
      cases timed with
      | none => exact .away _ _
      | some timed =>
          cases notified with
          | true => exact .away _ _
          | false => exact .retake
  | leave hc =>
      cases hc
      refine ⟨_, rfl, .looping _, rfl, ?_⟩
      rw [Control.standing, if_neg (policy.not_decided_returned _)]
      exact .away _ _
  | calm line hc hcalm => cases hc
  | _ hc => cases hc

theorem Waiter.stepped (hw : Waiter h th) (ht : m.threads[t]? = some th)
    (hs : Stepped h.code m t th m') : ∃ th', WaiterStep h t m m' (m.shown h.code t) th th' := by
  cases hw with
  | arriving policy =>
      rw [shown_running ht rfl]
      obtain ⟨x, hx, -, rfl⟩ := hs.command
      refine ⟨_, .loop rfl (state?_of_taken hx rfl _) fun hd => ?_⟩
      cases policy <;> cases hd
  | looping state => exact Waiter.stepped_looping ht hs
  | inside policy deadline stage => exact Waiter.stepped_inside ht hs
  | departed =>
      rw [shown_running ht rfl]
      obtain ⟨notes, c, line, hcalm, rfl⟩ := hs.command
      cases hcalm
      exact ⟨_, rfl, .ended, rfl, .away _ _⟩
  | ended =>
      cases hs with
      | calm line hc hcalm => cases hc
      | _ hc => cases hc

/-- What a step of a producer does: to the state and the waiter nothing, or a change to the state,
or a notification. -/
inductive ProducerStep (h : Handoff σ) (u : ThreadId) (m m' : Machine σ (Place σ) ε)
    (th th' : Thread (Place σ)) : Event → Prop
  | still (hset : m'.threads = m.threads.set u th') (hstate : m'.state? h.mutex = m.state? h.mutex)
      (howes : th.owes = true → th'.owes = true) : ProducerStep h u m m' th th' .silent
  | change (hset : m'.threads = m.threads.set u th') (hholds : th.holding = some h.mutex)
      (howes : th'.owes = true) : ProducerStep h u m m' th th' .silent
  | notify {place : Place σ} (all : Bool) (hrun : th.control = .running place)
      (hset : m'.threads = (m.notify u h.condvar all).1.threads.set u th')
      (hstate : m'.state? h.mutex = m.state? h.mutex) :
      ProducerStep h u m m' th th'
        (.woke h.condvar (m.woken h.condvar all) (m.notify u h.condvar all).2)

theorem Producer.stepped (hp : Producer h th) (hu : m.threads[u]? = some th)
    (hs : Stepped h.code m u th m') :
    ∃ th', Producer h th' ∧ ProducerStep h u m m' th th' (m.shown h.code u) := by
  cases hp with
  | idle jobs =>
      rw [shown_running hu rfl]
      cases jobs with
      | nil =>
          obtain ⟨notes, c, line, hcalm, rfl⟩ := hs.command
          cases hcalm
          exact ⟨_, .ended, .still rfl rfl nofun⟩
      | cons job jobs =>
          obtain ⟨x, hx, -, rfl⟩ := hs.command
          exact ⟨_, .changing job jobs, .still rfl (state?_of_taken hx rfl _) nofun⟩
  | changing job jobs =>
      rw [shown_running hu rfl]
      obtain ⟨mutex, x, hg, hx, rfl⟩ := hs.command
      exact ⟨_, .changed job jobs, .change rfl rfl rfl⟩
  | changed job jobs =>
      rw [shown_running hu rfl]
      obtain ⟨change, all, early⟩ := job
      cases early with
      | true =>
          obtain rfl := hs.command
          have hstate := state?_congr (mutexes_notify m u h.condvar all) h.mutex
          exact ⟨_, .closing ⟨change, all, true⟩ jobs, .notify all rfl rfl hstate⟩
      | false =>
          obtain ⟨mutex, hg, rfl⟩ := hs.command
          cases hg
          exact ⟨_, .closing ⟨change, all, false⟩ jobs,
            .still rfl (state?_of_free rfl _) fun _ => rfl⟩
  | closing job jobs =>
      rw [shown_running hu rfl]
      obtain ⟨change, all, early⟩ := job
      cases early with
      | true =>
          obtain ⟨mutex, hg, rfl⟩ := hs.command
          cases hg
          exact ⟨_, .idle jobs, .still rfl (state?_of_free rfl _) nofun⟩
      | false =>
          obtain rfl := hs.command
          have hstate := state?_congr (mutexes_notify m u h.condvar all) h.mutex
          exact ⟨_, .idle jobs, .notify all rfl rfl hstate⟩
  | ended =>
      cases hs with
      | calm line hc hcalm => cases hc
      | _ hc => cases hc

/-! ### All threads together -/

/-- Thread `t` is the waiter, and all others are producers. -/
structure Crew (h : Handoff σ) (t : ThreadId) (m : Machine σ (Place σ) ε) : Prop where
  waiter : ∀ {th : Thread (Place σ)}, m.threads[t]? = some th → Waiter h th
  producer : ∀ {u : ThreadId} {th : Thread (Place σ)}, u ≠ t → m.threads[u]? = some th →
    Producer h th

theorem Start.crew (hs : Start t m) : Crew h t m where
  waiter ht := by
    obtain ⟨policy, hw⟩ := hs.waiter
    obtain rfl := Option.some.inj (hw.symm.trans ht)
    exact .arriving policy
  producer hut hu := by
    obtain ⟨jobs, rfl⟩ := hs.producers hut hu
    exact .idle jobs

theorem Crew.set (hc : Crew h t m) (hu : m.threads[u]? = some th)
    (hset : m'.threads = m.threads.set u th') (hw : u = t → Waiter h th')
    (hp : u ≠ t → Producer h th') : Crew h t m' where
  waiter ht := by
    rw [hset, getElem?_set_of_getElem? hu] at ht
    split at ht
    · rename_i htu
      cases ht
      exact hw htu.symm
    · exact hc.waiter ht
  producer {v thv} hvt hv := by
    rw [hset, getElem?_set_of_getElem? hu] at hv
    split at hv
    · rename_i hvu
      cases hv
      exact hp (hvu ▸ hvt)
    · exact hc.producer hvt hv

/-- Only the waiter is ever parked, and on its own condition variable. -/
theorem Crew.eq_of_parkedOn? (hc : Crew h t m) {q : Option CondvarId}
    (hq : m.parkedOn? u = some q) : u = t ∧ q = some h.condvar ∧ m.standing t = .queued := by
  obtain ⟨th, hu, hpark⟩ := Option.bind_eq_some_iff.mp hq
  by_cases hut : u = t
  · subst hut
    obtain ⟨hq, hs⟩ := (hc.waiter hu).queued_iff.mp hpark
    refine ⟨rfl, hq, ?_⟩
    rw [standing, hu, Option.map_some, Option.getD_some, hs]
  · rw [(hc.producer hut hu).unparked] at hpark
    cases hpark

theorem standing_eq (ht : m.threads[t]? = some th) : m.standing t = th.control.standing := by
  rw [standing, ht, Option.map_some, Option.getD_some]

theorem standing_congr (ht : m'.threads[t]? = m.threads[t]?) : m'.standing t = m.standing t := by
  rw [standing, standing, ht]

/-- A waiter that stands anywhere but elsewhere exists. -/
theorem exists_of_standing (hs : m.standing t ≠ .elsewhere) :
    ∃ th, m.threads[t]? = some th ∧ th.control.standing = m.standing t := by
  cases ht : m.threads[t]? with
  | none =>
      rw [standing, ht] at hs
      exact absurd rfl hs
  | some th => exact ⟨th, rfl, (standing_eq ht).symm⟩

theorem Crew.queued_iff (hc : Crew h t m) (hp : Parking m) :
    m.standing t = .queued ↔ t ∈ m.queue h.condvar := by
  rw [hp.mem_queue_iff]
  refine ⟨fun hs => ?_, fun hq => (hc.eq_of_parkedOn? hq).2.2⟩
  obtain ⟨th, ht, hst⟩ := exists_of_standing (by rw [hs]; nofun)
  rw [parkedOn?, ht, Option.bind_some, (hc.waiter ht).queued_iff, hst]
  exact ⟨rfl, hs⟩

/-- A waiter that decided to wait, or is awake, keeps producers from the state. -/
theorem Crew.free_of_holding (hc : Crew h t m) (hg : Guarded m) (hut : u ≠ t)
    (hu : m.threads[u]? = some th) (hh : th.holding = some h.mutex) :
    m.standing t ≠ .decided ∧ m.standing t ≠ .awake := by
  have hfree : ¬(m.standing t = .decided ∨ m.standing t = .awake) := by
    intro hs
    obtain ⟨thw, ht, hst⟩ := exists_of_standing (by rcases hs with hs | hs <;> rw [hs] <;> nofun)
    have hholder := hg.holder ht ((hc.waiter ht).holding (by rwa [hst]))
    rw [hg.holder hu hh] at hholder
    exact hut (Option.some.inj (Option.some.inj hholder))
  exact ⟨fun hs => hfree (.inl hs), fun hs => hfree (.inr hs)⟩

theorem Owed.set (ho : Owed m) (hu : m.threads[u]? = some th)
    (hset : m'.threads = m.threads.set u th') (howes : th.owes = true → th'.owes = true) :
    Owed m' := by
  obtain ⟨v, thv, hv, hvo⟩ := ho
  by_cases hvu : v = u
  · subst hvu
    obtain rfl := Option.some.inj (hu.symm.trans hv)
    exact ⟨v, th', by rw [hset, getElem?_set_self_of_getElem? hu], howes hvo⟩
  · exact ⟨v, thv, by rw [hset, getElem?_set_of_getElem? hu, if_neg hvu, hv], hvo⟩

theorem standing_set (hut : u ≠ t) (hu : m.threads[u]? = some th)
    (hset : m'.threads = m.threads.set u th') : m'.standing t = m.standing t :=
  standing_congr (by rw [hset, getElem?_set_of_getElem? hu, if_neg (Ne.symm hut)])

theorem Waiter.standing_wake (hw : Waiter h th) (hs : th.control.standing = .queued) (b : Bool) :
    (th.wake b).control.standing = if b then .elsewhere else .lapsed := by
  cases hw with
  | inside policy deadline stage =>
      cases stage with
      | queued timed => cases b <;> rfl
      | woken notified timed => cases notified <;> cases hs
      | _ => cases hs
  | looping state =>
      rw [Control.standing] at hs
      split at hs <;> cases hs
  | _ => cases hs

/-! Waking changes the waiter only, and the waiter only if it is queued. -/

section

variable {b : Bool} {ts : List ThreadId} (hw : Woke m b ts m')

include hw

theorem Crew.wake (hc : Crew h t m) : Crew h t m' where
  waiter ht := by
    rw [hw] at ht
    split at ht
    · obtain ⟨th, hth, rfl⟩ := Option.map_eq_some_iff.mp ht
      exact (hc.waiter hth).wake b
    · exact hc.waiter ht
  producer {v thv} hvt hv := by
    rw [hw] at hv
    split at hv
    · obtain ⟨th, hth, rfl⟩ := Option.map_eq_some_iff.mp hv
      have hp := hc.producer hvt hth
      rw [hp.wake b]
      exact hp
    · exact hc.producer hvt hv

theorem Crew.owed_wake (hc : Crew h t m) (ho : Owed m) : Owed m' := by
  obtain ⟨v, thv, hv, hvo⟩ := ho
  have hvt : v ≠ t := by
    rintro rfl
    rw [(hc.waiter hv).not_owes] at hvo
    cases hvo
  refine ⟨v, thv, ?_, hvo⟩
  rw [hw, hv, Option.map_some, (hc.producer hvt hv).wake b, ite_self]

theorem Crew.standing_wake (hc : Crew h t m) (ht : t ∈ ts) (hs : m.standing t = .queued) :
    m'.standing t = if b then .elsewhere else .lapsed := by
  obtain ⟨th, hth, hst⟩ := exists_of_standing (by rw [hs]; nofun)
  have hwake : m'.threads[t]? = some (th.wake b) := by
    rw [hw, if_pos ht, hth, Option.map_some]
  rw [standing_eq hwake]
  exact (hc.waiter hth).standing_wake (hst.trans hs) b

end

/-- A notification wakes the waiter if it is queued, and else nobody. -/
theorem Crew.woken (hc : Crew h t m) (hp : Parking m) (all : Bool) :
    (m.standing t = .queued → t ∈ m.woken h.condvar all) ∧
      (m.standing t ≠ .queued → m.woken h.condvar all = []) := by
  have honly : ∀ v ∈ m.queue h.condvar, v = t ∧ m.standing t = .queued := by
    intro v hv
    obtain ⟨hvt, -, hs⟩ := hc.eq_of_parkedOn? (hp.mem_queue_iff.mp hv)
    exact ⟨hvt, hs⟩
  constructor
  · intro hs
    -- the queue is not empty, and its first thread can only be the waiter
    have ht := (hc.queued_iff hp).mp hs
    rw [Machine.woken]
    split
    · exact ht
    · cases hq : m.queue h.condvar with
      | nil => simp [hq] at ht
      | cons v vs =>
          obtain ⟨rfl, -⟩ := honly v (by simp [hq])
          simp
  · intro hs
    refine List.eq_nil_iff_forall_not_mem.mpr fun v hv => ?_
    exact hs (honly v (mem_queue_of_mem_woken hv)).2

/-- What a move is to the waiter: it goes on itself, or a producer changes the state, which the
waiter does not hold then, or a producer notifies. -/
inductive Effect (h : Handoff σ) (t : ThreadId) (m m' : Machine σ (Place σ) ε) : Event → Prop
  | still {e : Event} (hstate : m'.state? h.mutex = m.state? h.mutex) (howed : Owed m → Owed m')
      (turned : Turned t (¬h.Holds m) e (m.standing t) (m'.standing t)) : Effect h t m m' e
  | change (howed : Owed m') (hstay : m'.standing t = m.standing t)
      (hfree : m.standing t ≠ .decided ∧ m.standing t ≠ .awake) : Effect h t m m' .silent
  | notify {ts : List ThreadId}
      (hstate : m'.state? h.mutex = m.state? h.mutex)
      (hqueued : m.standing t = .queued → m'.standing t = .elsewhere)
      (hmissed : m.standing t ≠ .queued → m'.standing t = m.standing t ∧ ts = []) :
      Effect h t m m' (.woke h.condvar ts (.ofCount ts.length))

theorem Crew.effect_notify (hc : Crew h t m) (hp : Parking m) (hut : u ≠ t)
    (hu : m.threads[u]? = some th) {place : Place σ} (hrun : th.control = .running place)
    {all : Bool} (hset : m'.threads = (m.notify u h.condvar all).1.threads.set u th')
    (hstate : m'.state? h.mutex = m.state? h.mutex) :
    Effect h t m m' (.woke h.condvar (m.woken h.condvar all) (m.notify u h.condvar all).2) := by
  have hw := woke_notify m u h.condvar all
  have hu' := notify_running m u h.condvar all hu hrun
  have hstand : m'.standing t = (m.notify u h.condvar all).1.standing t :=
    standing_set hut hu' hset
  obtain ⟨hmem, hnil⟩ := hc.woken hp all
  refine .notify hstate (fun hs => ?_) fun hs => ⟨?_, hnil hs⟩
  · rw [hstand, hc.standing_wake hw (hmem hs) hs, if_pos rfl]
  · rw [hstand]
    refine standing_congr ?_
    rw [hw, if_neg (by simp [hnil hs])]

theorem Crew.stepped (hc : Crew h t m) (hp : Parking m) (hg : Guarded m)
    (hu : m.threads[u]? = some th) (hs : Stepped h.code m u th m') :
    Crew h t m' ∧ Effect h t m m' (m.shown h.code u) := by
  by_cases hut : u = t
  · -- the waiter's own step: producers owe what they owed
    subst hut
    have hw := hc.waiter hu
    obtain ⟨th', ws⟩ := hw.stepped hu hs
    refine ⟨hc.set hu ws.threads (fun _ => ws.waiter) fun hne => absurd rfl hne, ?_⟩
    have hset : m'.threads[u]? = some th' := by
      rw [ws.threads, getElem?_set_self_of_getElem? hu]
    refine .still ws.state (fun ho => ho.set hu ws.threads fun howes => ?_) ?_
    · rw [hw.not_owes] at howes
      cases howes
    · rw [standing_eq hu, standing_eq hset]
      exact ws.turned
  · obtain ⟨th', hp', ps⟩ := (hc.producer hut hu).stepped hu hs
    generalize m.shown h.code u = e at ps ⊢
    cases ps with
    | still hset hstate howes =>
        refine ⟨hc.set hu hset (absurd · hut) fun _ => hp', ?_⟩
        refine .still hstate (fun ho => ho.set hu hset howes) ?_
        rw [standing_set hut hu hset]
        exact .stay _ trivial
    | change hset hholds howes =>
        refine ⟨hc.set hu hset (absurd · hut) fun _ => hp', ?_⟩
        refine .change ⟨u, th', ?_, howes⟩ (standing_set hut hu hset)
          (hc.free_of_holding hg hut hu hholds)
        rw [hset, getElem?_set_self_of_getElem? hu]
    | notify all hrun hset hstate =>
        have hcrew : Crew h t (m.notify u h.condvar all).1 :=
          hc.wake (woke_notify m u h.condvar all)
        have hu' := notify_running m u h.condvar all hu hrun
        exact ⟨hcrew.set hu' hset (absurd · hut) fun _ => hp',
          hc.effect_notify hp hut hu hrun hset hstate⟩

/-- Every move keeps the waiter and the producers what they are, and has one of the effects. -/
theorem Crew.own (hc : Crew h t m) (hp : Parking m) (hg : Guarded m) (hm : Own h.code m e m') :
    Crew h t m' ∧ Effect h t m m' e := by
  cases hm with
  | step hs =>
      obtain ⟨th, hu, hst⟩ := stepped_of_step hs
      exact hc.stepped hp hg hu hst
  | @expire p u instant hmem hu hle =>
      have hq := (hp.mem_iff p.thread p.condvar).mp ⟨p.wakeAt, hmem⟩
      obtain ⟨hpt, -, hs⟩ := hc.eq_of_parkedOn? hq
      rw [hpt]
      have hw := woke_expire m instant t
      refine ⟨hc.wake hw, .still rfl (hc.owed_wake hw) ?_⟩
      rw [hc.standing_wake hw List.mem_cons_self hs, hs]
      exact .expire
  | tick instant => exact ⟨⟨hc.waiter, hc.producer⟩, .still rfl id (.stay _ trivial)⟩
  | clocks clocks => exact ⟨⟨hc.waiter, hc.producer⟩, .still rfl id (.stay _ trivial)⟩

/-- All that is used of a machine with a waiter and producers. -/
structure Staffed (h : Handoff σ) (t : ThreadId) (m : Machine σ (Place σ) ε) : Prop where
  crew : Crew h t m
  parking : Parking m
  guarded : Guarded m

theorem Start.staffed (hs : Start t m) : Staffed h t m :=
  ⟨hs.crew, hs.fresh.parking, hs.fresh.guarded⟩

theorem Staffed.effect (hs : Staffed h t m) (hm : Own h.code m e m') : Effect h t m m' e :=
  (hs.crew.own hs.parking hs.guarded hm).2

theorem Staffed.own (hm : Own h.code m e m') (hs : Staffed h t m) : Staffed h t m' :=
  ⟨(hs.crew.own hs.parking hs.guarded hm).1, hs.parking.next (.own hm), hs.guarded.next (.own hm)⟩

end Handoff

end TimedCondvar
