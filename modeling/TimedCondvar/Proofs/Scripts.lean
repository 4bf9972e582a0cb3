import TimedCondvar.Proofs.Binding
import TimedCondvar.Proofs.Calls

/-!
Scripted threads. A script holds its mutex from the first instruction to the last, but for its
waits, and it uses a condition variable that exists. So a world comes to rest only with every mutex
free and every waiter queued: whoever else is inside a wait could go on.
-/

namespace TimedCondvar

namespace Script.Place

/-- Whether the script is at a point at which it does not have its mutex. -/
def outside (p : Place) : Bool :=
  match p.point with
  | .locking | .released => true
  | _ => false

/-- The place belongs to one of the first `n` condition variables, and the mutex is held there. -/
def Inside (n : Nat) (p : Place) : Prop := p.condvar < n ∧ p.outside = false

end Script.Place

open Script (Place)

/-- What a script does while it has its mutex: no command takes another one, and only one gives
it up. -/
def Command.Within (n : Nat) : Command Inbox Place Finished → Prop
  | .unlock next => next.condvar < n ∧ next.outside = true
  | .access f => ∀ inbox, (f inbox).2.Inside n
  | .wait condvar _ next => condvar < n ∧ ∀ r, (next r).Inside n
  | .read condvar next => condvar < n ∧ ∀ r, (next r).Inside n
  | .notify _ _ next => ∀ r, (next r).Inside n
  | .instant next => ∀ i, (next i).Inside n
  | .emit _ next => next.Inside n
  | _ => False

namespace Script.Place

variable {n : Nat} {p : Place}

theorem Inside.moveTo (h : p.Inside n) {point : Point}
    (hp : (p.moveTo point).outside = false) : (p.moveTo point).Inside n := ⟨h.1, hp⟩

theorem Inside.within_finish (h : p.Inside n) (start : Option Int) (answer : Answer) :
    (p.finish start answer).Within n := by
  cases start with
  | none => exact ⟨h.1, rfl⟩
  | some start => exact fun _ => h.moveTo rfl

theorem Inside.within_loop (h : p.Inside n) (policy : Policy) (condition : Condition)
    (start : Option Int) (state : Policy.State) (tally : Tally) :
    (p.loop policy condition start state tally).Within n := by
  cases state with
  | check q => exact fun _ => h.moveTo rfl
  | arm q interval => exact ⟨h.1, fun _ => h.moveTo rfl⟩
  | block q deadline => exact ⟨h.1, fun _ => h.moveTo rfl⟩
  | recheck => exact fun _ => h.moveTo rfl
  | done result => exact h.within_finish start _

theorem Inside.within_perform (h : p.Inside n) (start : Option Int) (operation : Operation) :
    (p.perform start operation).Within n := by
  cases operation with
  | wait => exact ⟨h.1, fun _ => h.moveTo rfl⟩
  | waitUntil deadline => exact ⟨h.1, fun _ => h.moveTo rfl⟩
  | waitFor interval => exact ⟨h.1, fun _ => h.moveTo rfl⟩
  | waitPredicate policy condition => exact h.within_loop policy condition start policy.start {}
  | now => exact ⟨h.1, fun _ => h.moveTo rfl⟩
  | deadlineAfter interval => exact ⟨h.1, fun _ => h.moveTo rfl⟩
  | push item => exact fun _ => h.moveTo rfl
  | close => exact fun _ => h.moveTo rfl
  | drain => exact fun _ => h.moveTo rfl
  | signal condvar => exact fun _ => h.moveTo rfl

/-- A script keeps its mutex from point to point. -/
theorem Inside.within_code (h : p.Inside n) : (code p).Within n := by
  obtain ⟨condvar, clock, mutex, index, rest, point⟩ := p
  cases point with
  | locking => cases h.2
  | fetching =>
      cases rest with
      | nil => exact ⟨h.1, rfl⟩
      | cons i rest =>
          rw [code]
          dsimp only
          split
          · exact fun _ => h.moveTo rfl
          · exact h.within_perform none i.operation
  | opening start => exact h.moveTo rfl
  | beginning start =>
      cases rest with
      | nil => exact ⟨h.1, rfl⟩
      | cons i rest => exact h.within_perform start i.operation
  | armed interval start now =>
      cases now with
      | error e => exact h.within_finish start _
      | ok now => exact ⟨h.1, fun _ => h.moveTo rfl⟩
  | looping policy condition start state tally =>
      exact h.within_loop policy condition start state tally
  | ending answer start => exact h.within_finish start answer
  | reporting answer span => exact ⟨h.1, rfl⟩
  | released => cases h.2

end Script.Place

/-- What is true of a thread that runs a script with one of the first `n` condition variables: it
has its mutex just at the points inside, and a wait leads back to such a point. -/
def Thread.Scripted (n : Nat) (th : Thread Place) : Prop :=
  match th.control with
  | .running p => p.condvar < n ∧ (th.guard = none ↔ p.outside = true)
  | .waiting condvar _ _ next => condvar < n ∧ th.guard ≠ none ∧ ∀ r, (next r).Inside n
  | .sleeping _ => False
  | .ended => th.guard = none

namespace Thread

variable {n : Nat} {th : Thread Place} {p : Place}

theorem scripted_running_inside (hp : p.Inside n) {g : Option MutexId} (hg : g ≠ none) :
    (⟨.running p, g⟩ : Thread Place).Scripted n :=
  ⟨hp.1, by simp [hp.2, hg]⟩

theorem Scripted.mono {n' : Nat} (h : th.Scripted n) (hn : n ≤ n') : th.Scripted n' := by
  obtain ⟨c, g⟩ := th
  cases c with
  | running p => exact ⟨Nat.lt_of_lt_of_le h.1 hn, h.2⟩
  | waiting condvar deadline stage next =>
      have hlt : condvar < n := h.1
      exact ⟨Nat.lt_of_lt_of_le hlt hn, h.2.1, fun r =>
        ⟨Nat.lt_of_lt_of_le (h.2.2 r).1 hn, (h.2.2 r).2⟩⟩
  | sleeping next => exact h
  | ended => exact h

theorem Scripted.wake (h : th.Scripted n) (b : Bool) : (th.wake b).Scripted n := by
  obtain ⟨c, g⟩ := th
  cases c with
  | waiting condvar deadline stage next => cases stage <;> exact h
  | sleeping next => exact h.elim
  | _ => exact h

/-- A thread with a mutex runs its script at a point inside. -/
theorem Scripted.inside {g : MutexId} (h : (⟨.running p, some g⟩ : Thread Place).Scripted n) :
    p.Inside n := by
  refine ⟨h.1, ?_⟩
  cases ho : p.outside with
  | false => rfl
  | true => exact absurd (h.2.mpr ho) (by simp)

/-- What a script does next: it goes on inside, takes its mutex or stops. -/
theorem Scripted.code (h : th.Scripted n) (hc : th.control = .running p) :
    ((∃ g, th.guard = some g) ∧ (Script.code p).Within n) ∨
    (th.guard = none ∧ Script.code p = .lock p.mutex (p.moveTo .fetching) ∧
      (p.moveTo .fetching).Inside n) ∨ (th.guard = none ∧ Script.code p = .stop) := by
  obtain ⟨c, g⟩ := th
  obtain rfl : c = .running p := hc
  cases g with
  | some g => exact .inl ⟨⟨g, rfl⟩, h.inside.within_code⟩
  | none =>
      have hout : p.outside = true := h.2.mp rfl
      obtain ⟨condvar, clock, mutex, index, rest, point⟩ := p
      cases point with
      | locking => exact .inr (.inl ⟨rfl, rfl, h.1, rfl⟩)
      | released => exact .inr (.inr ⟨rfl, rfl⟩)
      | _ => cases hout

/-- A command inside is done with the mutex held. -/
theorem Scripted.within (h : th.Scripted n) (hc : th.control = .running p)
    (hlock : ∀ mutex next, Script.code p ≠ .lock mutex next) (hstop : Script.code p ≠ .stop) :
    th.guard ≠ none ∧ (Script.code p).Within n := by
  rcases h.code hc with ⟨⟨g, hg⟩, hw⟩ | ⟨-, hcode, -⟩ | ⟨-, hcode⟩
  · exact ⟨by simp [hg], hw⟩
  · exact absurd hcode (hlock _ _)
  · exact absurd hcode hstop

/-- A wait of a script comes with its mutex and leads back to its script. -/
theorem Scripted.waiting {condvar : CondvarId} {deadline : Option Time} {stage : Stage}
    {next : Except SyncError WaitStatus → Place} (h : th.Scripted n)
    (hc : th.control = .waiting condvar deadline stage next) :
    condvar < n ∧ th.guard ≠ none ∧ ∀ r, (next r).Inside n := by
  obtain ⟨c, g⟩ := th
  obtain rfl : c = .waiting condvar deadline stage next := hc
  exact h

end Thread

namespace Machine

/-- All threads run scripts, and every mutex that is held is held by a thread that has it. -/
structure Scripted (m : ScriptMachine) : Prop where
  threads : ∀ {t : ThreadId} {th : Thread Place}, m.threads[t]? = some th →
    th.Scripted m.condvars.length
  held : ∀ {x : MutexId} {u : ThreadId}, m.holder? x = some (some u) →
    ∃ th, m.threads[u]? = some th ∧ th.holding = some x

variable {m m' : ScriptMachine} {t : ThreadId} {th th' : Thread Place} {e : Event}

theorem Scripted.set (h : Scripted m) (ht : m.threads[t]? = some th)
    (hset : m'.threads = m.threads.set t th') (hn : m'.condvars.length = m.condvars.length)
    (hth' : th'.Scripted m.condvars.length)
    (hself : ∀ x, m'.holder? x = some (some t) → th'.holding = some x)
    (hothers : ∀ u ≠ t, ∀ x, m'.holder? x = some (some u) → m.holder? x = some (some u)) :
    Scripted m' where
  threads {u thu} hu := by
    rw [hset, getElem?_set_of_getElem? ht] at hu
    rw [hn]
    split at hu
    · cases hu
      exact hth'
    · exact h.threads hu
  held {x u} hx := by
    rw [hset, getElem?_set_of_getElem? ht]
    split
    · rename_i hut
      rw [hut] at hx
      exact ⟨th', rfl, hself x hx⟩
    · rename_i hut
      exact h.held (hothers u hut x hx)

theorem Scripted.holding (h : Scripted m) (ht : m.threads[t]? = some th) {x : MutexId}
    (hx : m.holder? x = some (some t)) : th.holding = some x := by
  obtain ⟨th₁, ht₁, hh⟩ := h.held hx
  obtain rfl : th = th₁ := by simpa [ht] using ht₁
  exact hh

/-- A step that takes no mutex and gives none up. -/
theorem Scripted.keep (h : Scripted m) (ht : m.threads[t]? = some th)
    (hset : m'.threads = m.threads.set t th') (hn : m'.condvars.length = m.condvars.length)
    (hth' : th'.Scripted m.condvars.length) (hh : th'.holding = th.holding)
    (hx : ∀ x, m'.holder? x = m.holder? x) : Scripted m' :=
  h.set ht hset hn hth' (fun x hxt => hh.trans (h.holding ht (hx x ▸ hxt)))
    fun _ _ x hxu => hx x ▸ hxu

/-- A step that takes a free mutex, by a thread that holds none. -/
theorem Scripted.take (h : Scripted m) (ht : m.threads[t]? = some th)
    (hset : m'.threads = m.threads.set t th') (hn : m'.condvars.length = m.condvars.length)
    (hth' : th'.Scripted m.condvars.length) {x : MutexId} {mutex : Mutex Inbox}
    (hx : m.mutexes[x]? = some mutex) (hnone : th.holding = none) (hh : th'.holding = some x)
    (hm : m'.mutexes = m.mutexes.set x { mutex with holder := some t }) : Scripted m' := by
  have hholder := holder?_of_set hx hm
  refine h.set ht hset hn hth' (fun y hyt => ?_) fun u hut y hyu => ?_
  · rw [hholder] at hyt
    split at hyt
    · rename_i hyx
      rw [hyx, hh]
    · have hheld := h.holding ht hyt
      rw [hnone] at hheld
      cases hheld
  · rw [hholder] at hyu
    split at hyu
    · have htu : t = u := by simpa using hyu
      exact absurd htu.symm hut
    · exact hyu

/-- A step that gives up the one mutex that the thread holds. -/
theorem Scripted.give (h : Scripted m) (ht : m.threads[t]? = some th)
    (hset : m'.threads = m.threads.set t th') (hn : m'.condvars.length = m.condvars.length)
    (hth' : th'.Scripted m.condvars.length) {x : MutexId} (hh : th.holding = some x)
    (hm : m'.mutexes = m.mutexes.modify x fun mutex => { mutex with holder := none }) :
    Scripted m' := by
  have hholder := holder?_of_free hm
  refine h.set ht hset hn hth' (fun y hyt => ?_) fun u hut y hyu => ?_
  · rw [hholder] at hyt
    split at hyt
    · simp at hyt
    · rename_i hyx
      have hheld := h.holding ht hyt
      rw [hh] at hheld
      cases hheld
      exact absurd rfl hyx
  · rw [hholder] at hyu
    split at hyu
    · simp at hyu
    · exact hyu

theorem Scripted.wake (h : Scripted m) {b : Bool} {ts : List ThreadId} (hw : Woke m b ts m')
    (hn : m'.condvars.length = m.condvars.length) (hm : m'.mutexes = m.mutexes) :
    Scripted m' := by
  refine ⟨fun {u thu} hu => ?_, fun {x u} hx => ?_⟩
  · rw [hw] at hu
    rw [hn]
    split at hu
    · obtain ⟨old, hold, rfl⟩ := Option.map_eq_some_iff.mp hu
      exact (h.threads hold).wake b
    · exact h.threads hu
  · rw [holder?, hm] at hx
    obtain ⟨th, hth, hh⟩ := h.held hx
    rw [hw, hth]
    split
    · exact ⟨th.wake b, rfl, by simpa [Thread.holding] using hh⟩
    · exact ⟨th, rfl, hh⟩

theorem Scripted.notify (h : Scripted m) (thread : Option ThreadId) (condvar : CondvarId)
    (all : Bool) : Scripted (m.notify thread condvar all).1 :=
  h.wake (woke_notify m thread condvar all)
    (by rw [condvars_notify]) (mutexes_notify ..)

theorem Scripted.calm (h : Scripted m) (ht : m.threads[t]? = some th) {place : Place}
    {notes : List (Note Finished)} {c : Control Place} (hc : th.control = .running place)
    (hcalm : Calm m (Script.code place) notes c) :
    (⟨c, th.guard⟩ : Thread Place).Scripted m.condvars.length := by
  have hth := h.threads ht
  generalize hcode : Script.code place = cmd at hcalm
  rcases hth.code hc with ⟨⟨g, hg⟩, hw⟩ | ⟨-, hlock, -⟩ | ⟨hg, hstop⟩
  · rw [hcode] at hw
    rw [hg]
    cases hcalm with
    | wait condvar deadline next => exact ⟨hw.1, by simp, hw.2⟩
    | read hcv => exact Thread.scripted_running_inside (hw.2 _) (by simp)
    | instant next => exact Thread.scripted_running_inside (hw _) (by simp)
    | emit notes next => exact Thread.scripted_running_inside hw (by simp)
    | _ => exact hw.elim
  · rw [hlock] at hcode
    subst hcode
    cases hcalm
  · rw [hstop] at hcode
    subst hcode
    cases hcalm
    exact hg

/-- The thread goes on at a point inside, with the mutex that it has. -/
theorem Scripted.goOn (h : Scripted m) (ht : m.threads[t]? = some th) {p : Place}
    (hp : p.Inside m.condvars.length) (hg : th.guard ≠ none) (hr : th.control.released = false)
    (hset : m'.threads = m.threads.set t { th with control := .running p })
    (hn : m'.condvars.length = m.condvars.length)
    (hx : ∀ x, m'.holder? x = m.holder? x) : Scripted m' := by
  refine h.keep ht hset hn (Thread.scripted_running_inside hp hg) ?_ hx
  rw [holding_of_not_released hr]
  rfl

/-- The thread goes on with its wait, with the mutex that it has. -/
theorem Scripted.goOnWaiting (h : Scripted m) (ht : m.threads[t]? = some th)
    {condvar : CondvarId} {deadline : Option Time} {stage stage' : Stage}
    {next : Except SyncError WaitStatus → Place}
    (hc : th.control = .waiting condvar deadline stage next) (hr : th.control.released = false)
    (hr' : (Control.waiting condvar deadline stage' next).released = false)
    (hset : m'.threads =
      m.threads.set t { th with control := .waiting condvar deadline stage' next })
    (hn : m'.condvars.length = m.condvars.length)
    (hx : ∀ x, m'.holder? x = m.holder? x) : Scripted m' := by
  refine h.keep ht hset hn ((h.threads ht).waiting hc) ?_ hx
  rw [holding_of_not_released hr, holding_of_not_released hr']

theorem Scripted.stepped (h : Scripted m) (ht : m.threads[t]? = some th)
    (hs : Stepped Script.code m t th m') : Scripted m' := by
  have hth := h.threads ht
  cases hs with
  | @lock place mutex next x hc hcode hx hfree =>
      rcases hth.code hc with ⟨-, hw⟩ | ⟨hg, hlock, hin⟩ | ⟨-, hstop⟩
      · rw [hcode] at hw
        exact hw.elim
      · rw [hcode] at hlock
        cases hlock
        have hnone : th.holding = none := by
          rw [holding_of_not_released (by rw [hc]; rfl), hg]
        exact h.take ht rfl rfl (Thread.scripted_running_inside hin (by simp)) hx hnone rfl rfl
      · rw [hcode] at hstop
        cases hstop
  | @unlock place next mutex hc hcode hg =>
      have hw := (hth.within hc (by simp [hcode]) (by simp [hcode])).2
      rw [hcode] at hw
      have hholding : th.holding = some mutex := by
        rw [holding_of_not_released (by rw [hc]; rfl), hg]
      have hth' : (⟨.running next, none⟩ : Thread Place).Scripted m.condvars.length :=
        ⟨hw.1, by simp [hw.2]⟩
      exact h.give ht rfl rfl hth' hholding rfl
  | @access place f mutex x hc hcode hg hx =>
      have hw := (hth.within hc (by simp [hcode]) (by simp [hcode])).2
      rw [hcode] at hw
      refine h.goOn ht (hw x.state) (by simp [hg]) (by rw [hc]; rfl) rfl rfl fun y => ?_
      rw [holder?_of_set hx rfl]
      split
      · rename_i hy
        rw [hy, holder?, hx]
        rfl
      · rfl
  | calm line hc hcalm =>
      refine h.keep ht rfl rfl (h.calm ht hc hcalm) ?_ fun _ => rfl
      rw [holding_of_not_released hcalm.unparked.2, holding_of_not_released (by rw [hc]; rfl)]
  | @notify place condvar all next hc hcode =>
      obtain ⟨hg, hw⟩ := hth.within hc (by simp [hcode]) (by simp [hcode])
      rw [hcode] at hw
      refine (h.notify t condvar all).goOn (notify_running m t condvar all ht hc) ?_ hg
        (by rw [hc]; rfl) rfl rfl fun _ => rfl
      rw [condvars_notify]
      exact hw _
  | sleep hc hcode hl =>
      have hw := (hth.within hc (by simp [hcode]) (by simp [hcode])).2
      rw [hcode] at hw
      exact hw.elim
  | reject hc hg hcv hconflict =>
      have hw := hth.waiting hc
      exact h.goOn ht (hw.2.2 _) hw.2.1 (by rw [hc]; rfl) rfl rfl fun _ => rfl
  | register hc hg hcv hconflict =>
      exact h.goOnWaiting ht hc (by rw [hc]; rfl) (Control.released_registered ..) rfl
        (List.length_set ..) fun _ => rfl
  | read hc =>
      exact h.goOnWaiting ht hc (by rw [hc]; rfl) (Control.released_ofPass ..) rfl rfl fun _ => rfl
  | park hc hg =>
      have hholding := (holding_of_not_released (by rw [hc]; rfl)).trans hg
      exact h.give ht rfl rfl (hth.waiting hc) hholding rfl
  | @retake condvar deadline notified timed next mutex x hc hg hx hfree =>
      have hnone : th.holding = none := by
        rw [Thread.holding, hc]
        rfl
      have hholding : (⟨.waiting condvar deadline (.ofWake notified timed) next, th.guard⟩ :
          Thread Place).holding = some mutex := by
        rw [holding_of_not_released (Control.released_ofWake ..), hg]
      exact h.take ht rfl rfl (hth.waiting hc) hx hnone hholding rfl
  | leave hc =>
      have hw := hth.waiting hc
      exact h.goOn ht (hw.2.2 _) hw.2.1 (by rw [hc]; rfl) rfl (List.length_modify ..) fun _ => rfl

theorem Scripted.congr (h : Scripted m) (ht : m'.threads = m.threads)
    (hn : m.condvars.length ≤ m'.condvars.length) (hx : ∀ x, m'.holder? x = m.holder? x) :
    Scripted m' :=
  ⟨fun hu => (h.threads (ht ▸ hu)).mono hn, fun hxu => ht ▸ h.held (hx _ ▸ hxu)⟩

theorem Scripted.spawn (h : Scripted m) {p : Place} (hp : p.condvar < m.condvars.length)
    (hout : p.outside = true) : Scripted (m.spawn p) := by
  refine ⟨fun {u th} hu => ?_, fun {x u} hx => ?_⟩
  · rw [getElem?_threads_spawn] at hu
    split at hu
    · cases hu
      exact ⟨hp, by simp [hout]⟩
    · exact h.threads hu
  · obtain ⟨th, hth, hh⟩ := h.held (m := m) hx
    refine ⟨th, ?_, hh⟩
    rw [getElem?_threads_spawn, if_neg, hth]
    rintro rfl
    rw [getElem?_threads_length] at hth
    cases hth

theorem Scripted.move (hm : World.Move m e m') (h : Scripted m) : Scripted m' := by
  cases hm with
  | own ho =>
      cases ho with
      | step hs =>
          obtain ⟨th, ht, hst⟩ := stepped_of_step hs
          exact h.stepped ht hst
      | @expire p u instant hp hu hle =>
          exact h.wake (woke_expire m instant p.thread) rfl rfl
      | tick instant => exact h.congr rfl (Nat.le_refl _) fun _ => rfl
      | clocks clocks => exact h.congr rfl (Nat.le_refl _) fun _ => rfl
  | spawn condvar clock mutex script hc => exact h.spawn hc rfl
  | bind clock =>
      refine h.congr (bind_threads ..) ?_ fun x => by rw [holder?, holder?, bind_mutexes]
      rw [Machine.bind]
      split
      · exact Nat.le_refl _
      · simp
  | notify condvar all => exact h.notify none condvar all
  | modify mutex f => exact h.congr rfl (Nat.le_refl _) (holder?_of_modify rfl)
  | log log => exact h.congr rfl (Nat.le_refl _) fun _ => rfl

theorem scripted_start (monotonic monotonicRaw boottime realtime : Int) :
    Scripted (World.start monotonic monotonicRaw boottime realtime).machine := by
  have hfresh := World.fresh_start monotonic monotonicRaw boottime realtime
  refine ⟨fun hu => absurd (List.mem_of_getElem? hu) List.not_mem_nil, fun {x u} hx => ?_⟩
  obtain ⟨mutex, hmutex, hholder⟩ := Option.map_eq_some_iff.mp hx
  rw [hfresh.mutexes mutex (List.mem_of_getElem? hmutex)] at hholder
  cases hholder

/-! ### Rest

A machine is at rest if no thread can do anything. Whoever is inside a script and is not parked
could, unless it waits for its mutex; and no thread rests with a mutex that it holds. -/

/-- No thread can run. -/
def Resting (m : ScriptMachine) : Prop := ∀ t, m.step Script.code t = none

theorem exists_of_holder? {x : MutexId} (h : m.holder? x ≠ none) :
    ∃ mutex, m.mutexes[x]? = some mutex := by
  rw [holder?, Ne, Option.map_eq_none_iff] at h
  exact Option.ne_none_iff_exists'.mp h

theorem exists_condvar {condvar : CondvarId} (h : condvar < m.condvars.length) :
    ∃ cv, m.condvars[condvar]? = some cv := ⟨_, List.getElem?_eq_getElem h⟩

/-- Inside its script, a thread that runs can go on. -/
theorem step_ne_none_of_within (ht : m.threads[t]? = some th) {p : Place} {x : MutexId}
    {mutex : Mutex Inbox} (hc : th.control = .running p) (hg : th.guard = some x)
    (hx : m.mutexes[x]? = some mutex) (hw : (Script.code p).Within m.condvars.length) :
    m.step Script.code t ≠ none := by
  have hstep : m.step Script.code t = m.commandStep t (Script.code p) := by
    simp only [step, control?, ht, Option.map_some, hc]
  rw [hstep]
  cases hcode : Script.code p with
  | unlock next => simp [commandStep, ht, hg]
  | access f => simp [commandStep, ht, hg, hx]
  | read condvar next =>
      rw [hcode] at hw
      obtain ⟨cv, hcv⟩ := exists_condvar hw.1
      simp [commandStep, hcv]
  | wait condvar deadline next => simp [commandStep]
  | notify condvar all next => simp [commandStep]
  | instant next => simp [commandStep]
  | emit notes next => simp [commandStep]
  | _ =>
      rw [hcode] at hw
      exact hw.elim

/-- Within a wait, a thread that is not parked can go on if its mutex is free or its own. -/
theorem step_ne_none_of_waiting (ht : m.threads[t]? = some th) {condvar : CondvarId}
    {deadline : Option Time} {stage : Stage} {next : Except SyncError WaitStatus → Place}
    {x : MutexId} {mutex : Mutex Inbox} (hc : th.control = .waiting condvar deadline stage next)
    (hg : th.guard = some x) (hx : m.mutexes[x]? = some mutex)
    (hcv : condvar < m.condvars.length) (hparked : th.control.parkedOn = none)
    (hfree : th.control.released = true → mutex.holder = none) :
    m.step Script.code t ≠ none := by
  have hstep : m.step Script.code t = m.waitStep t condvar deadline next stage := by
    simp only [step, control?, ht, Option.map_some, hc]
  rw [hstep]
  cases stage with
  | entering =>
      obtain ⟨cv, hcv⟩ := exists_condvar hcv
      simp only [waitStep, enter, ht, hg, hcv, Option.bind_eq_bind, Option.bind_some]
      split <;> simp
  | reading timer => simp [waitStep]
  | parking timed => simp [waitStep, ht, hg]
  | queued timed =>
      rw [hc] at hparked
      cases hparked
  | woken notified timed =>
      have hholder := hfree (by rw [hc]; rfl)
      simp [waitStep, ht, hg, hx, hholder]
  | leaving how => simp [waitStep]

/-- At rest no mutex is held: its holder could go on. -/
theorem Scripted.not_held (h : Scripted m) (hguarded : Guarded m) (hrest : Resting m)
    (x : MutexId) (u : ThreadId) : m.holder? x ≠ some (some u) := by
  intro hx
  -- the holder has not given the mutex up, so it is not parked, and its script goes on
  obtain ⟨th, ht, hh⟩ := h.held hx
  have hg := Thread.guard_of_holding hh
  obtain ⟨mutex, hmutex⟩ := exists_of_holder? (hguarded.exists_mutex ht hg)
  have hr : th.control.released = false := by
    cases hr : th.control.released with
    | false => rfl
    | true => simp [Thread.holding, hr] at hh
  cases hc : th.control with
  | running p =>
      rcases (h.threads ht).code hc with ⟨-, hw⟩ | ⟨hnone, -⟩ | ⟨hnone, -⟩
      · exact step_ne_none_of_within ht hc hg hmutex hw (hrest u)
      · rw [hnone] at hg
        cases hg
      · rw [hnone] at hg
        cases hg
  | waiting condvar deadline stage next =>
      have hparked : th.control.parkedOn = none := by
        rw [hc] at hr ⊢
        cases stage with
        | queued timed => cases hr
        | _ => rfl
      have hfree : th.control.released = true → mutex.holder = none := by simp [hr]
      exact step_ne_none_of_waiting ht hc hg hmutex ((h.threads ht).waiting hc).1 hparked hfree
        (hrest u)
  | sleeping next =>
      have hth := h.threads ht
      rw [Thread.Scripted, hc] at hth
      exact hth
  | ended =>
      have hth := h.threads ht
      rw [Thread.Scripted, hc] at hth
      rw [show th.guard = none from hth] at hg
      cases hg

/-- At rest, whoever is inside a wait is parked in it. -/
theorem Scripted.parkedOn_of_registeredOn (h : Scripted m) (hguarded : Guarded m)
    (hrest : Resting m) (ht : m.threads[t]? = some th) {condvar : CondvarId}
    (hreg : th.control.registeredOn = some condvar) :
    th.control.parkedOn = some (some condvar) := by
  cases hc : th.control with
  | waiting condvar' deadline stage next =>
      have hw := (h.threads ht).waiting hc
      obtain ⟨x, hg⟩ := Option.ne_none_iff_exists'.mp hw.2.1
      obtain ⟨mutex, hmutex⟩ := exists_of_holder? (hguarded.exists_mutex ht hg)
      have hfree : mutex.holder = none := by
        cases hholder : mutex.holder with
        | none => rfl
        | some u =>
            have hheld : m.holder? x = some (some u) := by rw [holder?, hmutex, ← hholder]; rfl
            exact absurd hheld (h.not_held hguarded hrest x u)
      have hparked : th.control.parkedOn ≠ none := by
        intro hparked
        exact step_ne_none_of_waiting ht hc hg hmutex hw.1 hparked (fun _ => hfree) (hrest t)
      rw [hc] at hreg hparked
      cases stage with
      | entering => cases hreg
      | queued timed => simpa [Control.registeredOn, Control.parkedOn] using hreg
      | _ => exact absurd rfl hparked
  | _ => simp [hc, Control.registeredOn] at hreg

/-- At rest, the queue of a condition variable is all that waits on it. -/
theorem Scripted.length_queue (h : Scripted m) (hguarded : Guarded m) (hparking : Parking m)
    (hrest : Resting m) (condvar : CondvarId) :
    (m.queue condvar).length = m.registered condvar := by
  rw [hparking.length_queue, registered]
  refine List.countP_congr fun th hth => ?_
  obtain ⟨t, ht⟩ := List.getElem?_of_mem hth
  simp only [beq_iff_eq]
  refine ⟨Control.registeredOn_of_parkedOn, fun hreg => ?_⟩
  exact h.parkedOn_of_registeredOn hguarded hrest ht hreg

end Machine

end TimedCondvar
