import TimedCondvar.Proofs.Binding
import TimedCondvar.Proofs.Calls

/-!
When a wait is turned away. The binding of its condition variable decides, and in every run the
binding tells who is inside: so a wait is turned away just if somebody is inside with another
mutex, and is told that mutex and how many are inside. Nothing but the log has changed then. A wait
that is let in is not turned away later, as no end of a wait says so.
-/

namespace TimedCondvar

theorem Binding.conflict?_eq_some_iff {b : Binding} {offered bound : MutexId} {waiters : Nat} :
    b.conflict? offered = some (bound, waiters) ↔
      b.mutex = some bound ∧ 0 < b.waiters ∧ bound ≠ offered ∧ b.waiters = waiters := by
  rw [conflict?]
  cases hm : b.mutex with
  | none => simp
  | some other =>
      simp only [Option.ite_none_right_eq_some, Option.some.injEq, Prod.mk.injEq]
      constructor
      · rintro ⟨⟨hpos, hne⟩, rfl, rfl⟩
        exact ⟨rfl, hpos, hne, rfl⟩
      · rintro ⟨rfl, hpos, hne, rfl⟩
        exact ⟨⟨hpos, hne⟩, rfl, rfl⟩

theorem WaitEnd.result_ne_mismatch (how : WaitEnd) (bound offered : MutexId) (waiters : Nat) :
    how.result ≠ .error (.mutexMismatch bound offered waiters) := by
  cases how <;> exact nofun

namespace Machine

variable {σ κ ε : Type} {code : κ → Command σ κ ε} {m₀ m m' : Machine σ κ ε} {t : ThreadId}
  {es : List Event} {condvar : CondvarId} {bound offered : MutexId} {cv : Condvar} {call : Call κ}
  {stage : Stage}

/-- Some thread is inside a wait on the condition variable, and came with this mutex. -/
def Inside (m : Machine σ κ ε) (condvar : CondvarId) (mutex : MutexId) : Prop :=
  ∃ (t : ThreadId) (th : Thread κ), m.threads[t]? = some th ∧
    th.control.registeredOn = some condvar ∧ th.guard = some mutex

/-- The machine after the call of thread `t` was turned away: the thread goes on with an error and
with its mutex, the log has a line more, and nothing else is different. -/
def turnedAway (m : Machine σ κ ε) (t : ThreadId) (call : Call κ) (bound : MutexId) :
    Machine σ κ ε :=
  { m with
    threads := m.threads.set t ⟨.running (call.next
      (.error (.mutexMismatch bound call.mutex (m.registered call.condvar)))), some call.mutex⟩
    log := m.logWith t
      [.record (.mutexOffered bound call.mutex (m.registered call.condvar))] }

/-- The machine after the call of thread `t` was let in. -/
def letIn (m : Machine σ κ ε) (t : ThreadId) (call : Call κ) (cv : Condvar) : Machine σ κ ε :=
  { m with
    threads := m.threads.set t (call.thread (.registered cv.clock call.deadline))
    condvars := m.condvars.set call.condvar
      { cv with binding := cv.binding.register call.mutex } }

theorem step_of_conflict (ht : m.threads[t]? = some (call.thread .entering))
    (hcv : m.condvars[call.condvar]? = some cv)
    (h : cv.binding.conflict? call.mutex = some (bound, m.registered call.condvar)) :
    m.step code t = some (m.turnedAway t call bound) := by
  have hcontrol : m.control? t = some (call.thread .entering).control := by
    rw [control?, ht, Option.map_some]
  simp only [step, hcontrol]
  simp [Call.thread, waitStep, enter, ht, hcv, h, setControl, write, logWith, turnedAway,
    modify_eq_set ht]

theorem step_of_conflict_none (ht : m.threads[t]? = some (call.thread .entering))
    (hcv : m.condvars[call.condvar]? = some cv) (h : cv.binding.conflict? call.mutex = none) :
    m.step code t = some (m.letIn t call cv) := by
  have hcontrol : m.control? t = some (call.thread .entering).control := by
    rw [control?, ht, Option.map_some]
  simp only [step, hcontrol]
  simp [Call.thread, waitStep, enter, ht, hcv, h, setControl, setBinding, letIn,
    modify_eq_set ht, modify_eq_set hcv]

/-! ### Who is inside -/

/-- What stands against a wait is a mutex that somebody is inside with, another one than its own. -/
theorem Bound.conflict?_eq_some_iff (h : Bound m) (hcv : m.condvars[condvar]? = some cv)
    {waiters : Nat} : cv.binding.conflict? offered = some (bound, waiters) ↔
      m.Inside condvar bound ∧ bound ≠ offered ∧ waiters = m.registered condvar := by
  rw [Binding.conflict?_eq_some_iff, h.count hcv]
  constructor
  · rintro ⟨hmutex, hpos, hne, rfl⟩
    obtain ⟨th, hth, hreg⟩ := List.countP_pos_iff.mp hpos
    obtain ⟨u, hu⟩ := List.getElem?_of_mem hth
    have hreg : th.control.registeredOn = some condvar := by simpa using hreg
    obtain ⟨cv', hcv', hguard⟩ := h.mutex hu hreg
    obtain rfl : cv' = cv := by simpa [hcv'] using hcv
    exact ⟨⟨u, th, hu, hreg, hguard.symm.trans hmutex⟩, hne, rfl⟩
  · rintro ⟨⟨u, th, hu, hreg, hguard⟩, hne, rfl⟩
    obtain ⟨cv', hcv', hmutex⟩ := h.mutex hu hreg
    obtain rfl : cv' = cv := by simpa [hcv'] using hcv
    exact ⟨hmutex.trans hguard, registered_pos hu hreg, hne, rfl⟩

/-- All that are inside came with one mutex. -/
theorem Bound.inside_unique (h : Bound m) (hb : m.Inside condvar bound)
    (ho : m.Inside condvar offered) : offered = bound := by
  obtain ⟨u, th, hu, hreg, hguard⟩ := hb
  obtain ⟨v, th', hv, hreg', hguard'⟩ := ho
  obtain ⟨cv, hcv, hmutex⟩ := h.mutex hu hreg
  obtain ⟨cv', hcv', hmutex'⟩ := h.mutex hv hreg'
  obtain rfl : cv' = cv := by simpa [hcv'] using hcv
  exact Option.some.inj (hguard'.symm.trans (hmutex'.symm.trans (hmutex.trans hguard)))

theorem not_inside_of_registered (h : m.registered condvar = 0) (mutex : MutexId) :
    ¬m.Inside condvar mutex := by
  rintro ⟨u, th, hu, hreg, -⟩
  exact absurd h (Nat.ne_of_gt (registered_pos hu hreg))

/-- A condition variable that nobody waits on is bound to no mutex. -/
theorem Bound.binding_of_registered (h : Bound m) (hcv : m.condvars[condvar]? = some cv)
    (hzero : m.registered condvar = 0) : cv.binding = {} := by
  have hwaiters : cv.binding.waiters = 0 := (h.count hcv).trans hzero
  have hmutex : cv.binding.mutex = none := (h.valid hcv).mpr hwaiters
  rw [← hwaiters, ← hmutex]

/-! ### After the entry -/

/-- In a run that shows `es`, the thread comes back from the call, and from no other before. -/
def ComesBack (code : κ → Command σ κ ε) (m : Machine σ κ ε) (t : ThreadId) (call : Call κ)
    (es : List Event) (how : WaitEnd) : Prop :=
  ∃ before after m', es = before ++ .returned t call.condvar how :: after ∧
    (∀ condvar how, .returned t condvar how ∉ before) ∧
    Run (Next code) m (before ++ [.returned t call.condvar how]) m' ∧
    m'.threads[t]? = some (call.returned how)

theorem Moved.ne_returned {e : Event} {stage' : Stage} (h : Moved t condvar e stage stage')
    (condvar' : CondvarId) (how : WaitEnd) : e ≠ .returned t condvar' how := by
  rintro rfl
  cases h with
  | stay h => exact h rfl

/-- A wait that was let in is inside until it comes back. -/
theorem Run.inside_or_comesBack (hs : Sound m) (run : Run (Next code) m es m')
    (ht : m.threads[t]? = some (call.thread stage)) (hreg : stage ≠ .entering) :
    (∃ stage', m'.threads[t]? = some (call.thread stage') ∧ stage' ≠ .entering ∧
        ∀ condvar how, .returned t condvar how ∉ es) ∨
      ∃ how, ComesBack code m t call es how := by
  induction run with
  | nil => exact .inl ⟨stage, ht, hreg, fun _ _ => List.not_mem_nil⟩
  | @snoc es e m₁ m₂ run move ih =>
      rcases ih with ⟨stage₁, ht₁, hreg₁, hnone⟩ | ⟨how, before, after, m', rfl, hback⟩
      · rcases (run.invariant Sound.next hs).moved move ht₁ hreg₁ with
          ⟨stage₂, ht₂, hmoved⟩ | ⟨how, -, rfl, ht₂⟩
        · refine .inl ⟨stage₂, ht₂, hmoved.ne_entering hreg₁, fun condvar how hmem => ?_⟩
          rcases List.mem_append.mp hmem with hmem | hmem
          · exact hnone condvar how hmem
          · exact hmoved.ne_returned condvar how (List.mem_singleton.mp hmem).symm
        · exact .inr ⟨how, es, [], m₂, rfl, hnone, run.snoc move, ht₂⟩
      · exact .inr ⟨how, before, after ++ [e], m', by simp, hback⟩

/-- In every run of any threads, take a thread that calls a wait with the guard of a mutex. It is
turned away just if some thread is inside a wait on that condition variable with another mutex, and
then it is told that mutex and how many threads are inside. Only its own place and the log change,
no clock is read, and it still holds its mutex. Otherwise it is let in, and never told of a mismatch
when it comes back. When nobody is inside, no mutex is bound and any mutex will do. -/
theorem mismatch_of_run (hfresh : Fresh m₀) (hrun : Run (Next code) m₀ es m)
    (ht : m.threads[t]? = some (call.thread .entering))
    (hcv : m.condvars[call.condvar]? = some cv) :
    ((∃ m' bound offered waiters, m.step code t = some m' ∧ m'.control? t =
        some (.running (call.next (.error (.mutexMismatch bound offered waiters))))) ↔
      ∃ other, m.Inside call.condvar other ∧ other ≠ call.mutex) ∧
    (∀ other, m.Inside call.condvar other → other ≠ call.mutex →
      m.step code t = some (m.turnedAway t call other) ∧ m.shown code t = .silent ∧
      (m.turnedAway t call other).holder? call.mutex = some (some t) ∧
      ∀ mutex, m.Inside call.condvar mutex → mutex = other) ∧
    ((∀ other, m.Inside call.condvar other → other = call.mutex) →
      m.step code t = some (m.letIn t call cv) ∧
      ∀ es' m', Run (Next code) (m.letIn t call cv) es' m' →
        (∃ stage, m'.threads[t]? = some (call.thread stage) ∧ stage ≠ .entering ∧
          ∀ condvar how, .returned t condvar how ∉ es') ∨
        ∃ how, ComesBack code (m.letIn t call cv) t call es' how ∧
          ∀ bound offered waiters, how.result ≠ .error (.mutexMismatch bound offered waiters)) ∧
    (m.registered call.condvar = 0 →
      cv.binding = {} ∧ m.step code t = some (m.letIn t call cv)) := by
  have hbound : Bound m := hrun.invariant Bound.next hfresh.bound
  have hsound : Sound m := hrun.invariant Sound.next hfresh.sound
  have away : ∀ other, m.Inside call.condvar other → other ≠ call.mutex →
      m.step code t = some (m.turnedAway t call other) := fun other hin hne =>
    step_of_conflict ht hcv ((hbound.conflict?_eq_some_iff hcv).mpr ⟨hin, hne, rfl⟩)
  have letIn : (∀ other, m.Inside call.condvar other → other = call.mutex) →
      m.step code t = some (m.letIn t call cv) := by
    intro hall
    refine step_of_conflict_none ht hcv (Option.eq_none_iff_forall_ne_some.mpr ?_)
    rintro ⟨other, waiters⟩ hconflict
    obtain ⟨hin, hne, -⟩ := (hbound.conflict?_eq_some_iff hcv).mp hconflict
    exact hne (hall other hin)
  have hlet : (m.letIn t call cv).threads[t]? =
      some (call.thread (.registered cv.clock call.deadline)) := by
    change (m.threads.set t _)[t]? = _
    rw [getElem?_set_of_getElem? ht, if_pos rfl]
  refine ⟨⟨?_, ?_⟩, ?_, ?_, ?_⟩
  · rintro ⟨m', bound, offered, waiters, hstep, hcontrol⟩
    by_contra hnone
    push Not at hnone
    -- a thread that was let in waits, and does not run
    rw [letIn hnone, Option.some.injEq] at hstep
    rw [← hstep, control?, hlet] at hcontrol
    cases hcontrol
  · rintro ⟨other, hin, hne⟩
    refine ⟨_, other, call.mutex, m.registered call.condvar, away other hin hne, ?_⟩
    change ((m.threads.set t _)[t]?).map (·.control) = _
    rw [getElem?_set_of_getElem? ht, if_pos rfl]
    rfl
  · intro other hin hne
    refine ⟨away other hin hne, shown_waiting ht rfl, ?_, fun mutex h => hbound.inside_unique hin h⟩
    exact hsound.guarded.holder ht rfl
  · intro hall
    have move : Next code m (m.shown code t) (m.letIn t call cv) := .own (.step (letIn hall))
    refine ⟨letIn hall, fun es' m' run => ?_⟩
    rcases run.inside_or_comesBack (hsound.next move) hlet
      (registered_ne_entering cv.clock call.deadline) with hin | ⟨how, hback⟩
    · exact .inl hin
    · exact .inr ⟨how, hback, how.result_ne_mismatch⟩
  · intro hzero
    exact ⟨hbound.binding_of_registered hcv hzero,
      letIn fun other hin => absurd hin (not_inside_of_registered hzero other)⟩

/-- A script that waits until a deadline, with a mutex of its own. -/
def strayWait : Script.Place :=
  { condvar := 0, clock := .monotonic, mutex := 1, rest := [{ operation := .waitUntil .zero }] }

/-- While a scripted thread is queued with one mutex, another one comes with a second mutex and
with a deadline that has passed. -/
theorem mismatch_of_stray_wait : ∃ es m call cv, Fresh (World.start 0 0 0 0).machine ∧
    Run (Next Script.code) (World.start 0 0 0 0).machine es m ∧ m.queue 0 = [0] ∧
    m.threads[1]? = some (call.thread .entering) ∧ call.deadline = some .zero ∧
    m.condvars[call.condvar]? = some cv ∧
    m.step Script.code 1 = some (m.turnedAway 1 call 0) := by
  have spawned : Run (Next Script.code) (World.start 0 0 0 0).machine _ _ :=
    ((Run.nil.snoc (.act (.bind none .monotonic))).snoc (.act (.spawn plainWait))).snoc
      (.act (.spawn strayWait))
  -- the first one parks, and the second one has just called
  have called := spawned.play [.step 0, .step 0, .step 0, .step 0, .step 1, .step 1] rfl
  obtain ⟨m, call, cv, run, hqueue, ht, hdeadline, hcv, hin, hmutex⟩ :
      ∃ (m : ScriptMachine) (call : Call Script.Place) (cv : Condvar),
        Run (Next Script.code) (World.start 0 0 0 0).machine _ m ∧ m.queue 0 = [0] ∧
        m.threads[1]? = some (call.thread .entering) ∧ call.deadline = some .zero ∧
        m.condvars[call.condvar]? = some cv ∧ m.Inside call.condvar 0 ∧ call.mutex = 1 :=
    ⟨_, ⟨_, _, _, _⟩, _, called, rfl, rfl, rfl, rfl, ⟨0, _, rfl, rfl, rfl⟩, rfl⟩
  have h := mismatch_of_run (World.fresh_start 0 0 0 0) run ht hcv
  have hne : 0 ≠ call.mutex := by simp [hmutex]
  exact ⟨_, m, call, cv, World.fresh_start 0 0 0 0, run, hqueue, ht, hdeadline, hcv,
    (h.2.1 0 hin hne).1⟩

end Machine

end TimedCondvar
