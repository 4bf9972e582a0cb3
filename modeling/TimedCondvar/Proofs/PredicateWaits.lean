import TimedCondvar.Proofs.Timely
import TimedCondvar.Machine.PredicateWait

/-!
Predicate waits within the code of a thread. What a timely move does to one is a move of its loop:
it evaluates its condition, reads the clock, blocks, or goes on in the wait it has blocked in. Each
of these shows in the history, as the states it looked at, the deadlines it waited for and the
notifications that woke it.
-/

namespace TimedCondvar

open Machine

/-- A predicate wait in some code: its condition, the places that carry it, and what its thread does
with the result. -/
structure PredicateWait {σ κ ε : Type} (code : κ → Command σ κ ε) (μ : Type) where
  condvar : CondvarId
  eval : μ → σ → Bool × μ × σ
  goOn : Policy.State → μ → κ
  finish : μ → Except SyncError Bool → Command σ κ ε
  code_goOn : ∀ state memory, code (goOn state memory) =
    state.command condvar (eval memory) memory goOn (finish memory)

namespace Machine

variable {σ κ ε : Type} {code : κ → Command σ κ ε} {m m' : Machine σ κ ε} {t u : ThreadId}
  {th : Thread κ} {c : Cause} {hs : List (Machine σ κ ε × Cause)}

/-! ### Threads that are not parked

Nobody else does anything to such a thread. -/

theorem Parking.not_mem_woken (h : Parking m) (ht : m.threads[t]? = some th)
    (hp : th.control.parkedOn = none) (condvar : CondvarId) (all : Bool) :
    t ∉ m.woken condvar all := by
  intro hmem
  have hq := h.mem_queue_iff.mp (mem_queue_of_mem_woken hmem)
  rw [parkedOn?, ht, Option.bind_some, hp] at hq
  cases hq

theorem Parking.not_wakes (h : Parking m) (ht : m.threads[t]? = some th)
    (hp : th.control.parkedOn = none) (hm : Timely code m c m') :
    (c.shown code m).wakes t = false := by
  cases hm with
  | @step u m' hstep =>
      obtain ⟨thu, hu, -⟩ := stepped_of_step hstep
      rw [Cause.shown]
      cases hc : thu.control with
      | running place =>
          rw [shown_running hu hc]
          cases code place with
          | notify condvar all next => exact decide_eq_false (h.not_mem_woken ht hp condvar all)
          | _ => rfl
      | waiting condvar deadline stage next =>
          rw [shown_waiting hu hc]
          cases stage <;> rfl
      | _ => simp [shown, control?, hu, hc, Event.wakes]
  | act hact =>
      cases hact with
      | notify thread condvar all => exact decide_eq_false (h.not_mem_woken ht hp condvar all)
      | _ => rfl
  | _ => rfl

theorem Parking.stepped_others (h : Parking m) {thu : Thread κ} (hu : m.threads[u]? = some thu)
    (hs : Stepped code m u thu m') (hut : u ≠ t) (ht : m.threads[t]? = some th)
    (hp : th.control.parkedOn = none) : m'.threads[t]? = some th := by
  have hothers (th' : Thread κ) : (m.threads.set u th')[t]? = some th := by
    rw [getElem?_set_of_getElem? hu, if_neg (Ne.symm hut), ht]
  cases hs with
  | @notify place condvar all next hc hcode =>
      have hu' := notify_running m u condvar all hu hc
      rw [getElem?_set_of_getElem? hu', if_neg (Ne.symm hut), getElem?_threads_notify,
        if_neg (h.not_mem_woken ht hp condvar all), ht]
  | _ => exact hothers _

/-- No park but its own runs out for a thread. -/
theorem Parking.expire_others (h : Parking m) {p : Parked} (hpm : p ∈ m.parked) (instant : Int)
    (ht : m.threads[t]? = some th) (hp : th.control.parkedOn = none) :
    (m.expire instant p.thread).threads[t]? = some th := by
  have hpt : t ∉ [p.thread] := by
    intro hmem
    obtain rfl := List.mem_singleton.mp hmem
    have hq := (h.mem_iff p.thread p.condvar).mp ⟨p.wakeAt, hpm⟩
    rw [parkedOn?, ht, Option.bind_some, hp] at hq
    cases hq
  rw [woke_expire m instant p.thread t, if_neg hpt, ht]

theorem Parking.act_others (h : Parking m) {e : Event} (hact : Act m e m')
    (ht : m.threads[t]? = some th) (hp : th.control.parkedOn = none) :
    m'.threads[t]? = some th := by
  cases hact with
  | spawn place =>
      rw [getElem?_threads_spawn, if_neg, ht]
      rintro rfl
      rw [getElem?_threads_length] at ht
      cases ht
  | bind thread clock => rw [bind_threads, ht]
  | notify thread condvar all =>
      rw [getElem?_threads_notify, if_neg (h.not_mem_woken ht hp condvar all), ht]
  | modify mutex f => exact ht
  | log log => exact ht

/-- A thread that is not parked takes its next step, or stays as it is. -/
theorem Parking.own_or_same (h : Parking m) (hm : Caused code m c m')
    (ht : m.threads[t]? = some th) (hp : th.control.parkedOn = none) :
    c = .thread t ∧ Stepped code m t th m' ∨
      c ≠ .thread t ∧ m'.threads[t]? = some th := by
  cases hm with
  | @step u m' hstep =>
      obtain ⟨thu, hu, hs⟩ := stepped_of_step hstep
      by_cases hut : u = t
      · subst hut
        obtain rfl : thu = th := by simpa [hu] using ht
        exact .inl ⟨rfl, hs⟩
      · exact .inr ⟨fun hc => hut (by cases hc; rfl), h.stepped_others hu hs hut ht hp⟩
  | @expire p u instant hpm hu hle => exact .inr ⟨by simp, h.expire_others hpm instant ht hp⟩
  | tick instant => exact .inr ⟨by simp, ht⟩
  | clocks clocks => exact .inr ⟨by simp, ht⟩
  | act hact => exact .inr ⟨by simp, h.act_others hact ht hp⟩

/-! ### Condition variables

They stay, and stay with their clocks. -/

def clockOf? (m : Machine σ κ ε) (condvar : CondvarId) : Option Clock :=
  (m.condvars[condvar]?).map (·.clock)

theorem Stepped.clockOf? (hs : Stepped code m t th m') (condvar : CondvarId) :
    m'.clockOf? condvar = m.clockOf? condvar := by
  cases hs with
  | @notify place c all next hc hcode =>
      rw [Machine.clockOf?, Machine.clockOf?, condvars_notify]
  | @register c deadline next offered cv hc hg hcv hno =>
      rw [Machine.clockOf?, Machine.clockOf?, getElem?_set_of_getElem? hcv]
      split
      · rename_i heq
        rw [heq, hcv]
        rfl
      · rfl
  | leave hc =>
      rw [Machine.clockOf?, Machine.clockOf?, List.getElem?_modify]
      cases m.condvars[condvar]? with
      | none => rfl
      | some cv =>
          rw [Option.map_eq_map, Option.map_some, Option.map_some]
          split <;> rfl
  | _ => rfl

theorem Timely.clockOf? {condvar : CondvarId} {clock : Clock} (hm : Timely code m c m')
    (hclock : m.clockOf? condvar = some clock) : m'.clockOf? condvar = some clock := by
  cases hm with
  | step h =>
      obtain ⟨th, -, hs⟩ := stepped_of_step h
      rw [hs.clockOf?, hclock]
  | act hact =>
      cases hact with
      | bind thread clock' =>
          rw [bind]
          split
          · exact hclock
          · obtain ⟨cv, hcv, rfl⟩ := Option.map_eq_some_iff.mp hclock
            have hlt := (List.getElem?_eq_some_iff.mp hcv).1
            rw [Machine.clockOf?, List.getElem?_append_left hlt, hcv]
            rfl
      | notify thread c all =>
          rw [Machine.clockOf?, condvars_notify]
          exact hclock
      | _ => exact hclock
  | _ => exact hclock

/-! ### What a history shows of a thread's own code -/

/-- The command that thread `t` does in a move. -/
def command? (code : κ → Command σ κ ε) (t : ThreadId) :
    Machine σ κ ε × Cause → Option (Command σ κ ε)
  | (m, .thread u) =>
    if u = t then
      match m.control? t with
      | some (.running place) => some (code place)
      | _ => none
    else none
  | _ => none

/-- The state behind the mutex that thread `t` has. -/
def guarded? (m : Machine σ κ ε) (t : ThreadId) : Option σ := do
  let th ← m.threads[t]?
  let mutex ← th.guard
  let x ← m.mutexes[mutex]?
  return x.state

/-- The states that thread `t` worked on, each with the instant at which it did. -/
def looks (code : κ → Command σ κ ε) (t : ThreadId) (hs : List (Machine σ κ ε × Cause)) :
    List (Int × σ) :=
  hs.filterMap fun x =>
    match command? code t x with
    | some (.access _) => (x.1.guarded? t).map (x.1.mono, ·)
    | _ => none

/-- The deadlines of the waits that thread `t` began. -/
def deadlines (code : κ → Command σ κ ε) (t : ThreadId) (hs : List (Machine σ κ ε × Cause)) :
    List (Option Time) :=
  hs.filterMap fun x =>
    match command? code t x with
    | some (.wait _ deadline _) => some deadline
    | _ => none

theorem looks_append (hs hs' : List (Machine σ κ ε × Cause)) :
    looks code t (hs ++ hs') = looks code t hs ++ looks code t hs' :=
  List.filterMap_append

theorem deadlines_append (hs hs' : List (Machine σ κ ε × Cause)) :
    deadlines code t (hs ++ hs') = deadlines code t hs ++ deadlines code t hs' :=
  List.filterMap_append

theorem command?_of_ne (h : c ≠ .thread t) : command? code t (m, c) = none := by
  cases c with
  | thread u => exact if_neg fun hut : u = t => h (by rw [hut])
  | _ => rfl

theorem command?_of_running {place : κ} {g : Option MutexId}
    (ht : m.threads[t]? = some ⟨.running place, g⟩) :
    command? code t (m, .thread t) = some (code place) := by
  simp [command?, control?, ht]

theorem command?_of_waiting {call : Call κ} {stage : Stage}
    (ht : m.threads[t]? = some (call.thread stage)) : command? code t (m, c) = none := by
  cases c with
  | thread u => simp [command?, control?, ht, Call.thread]
  | _ => rfl

theorem told_singleton (h : (c.shown code m).wakes t = false) : told code t [(m, c)] = [] := by
  simp [told, h]

/-- A move in which the thread does no command. -/
theorem shows_nothing (h : command? code t (m, c) = none) :
    looks code t [(m, c)] = [] ∧ deadlines code t [(m, c)] = [] := by
  simp [looks, deadlines, h]

theorem shows_access {f : σ → σ × κ} {s : σ} (h : command? code t (m, c) = some (.access f))
    (hs : m.guarded? t = some s) :
    looks code t [(m, c)] = [(m.mono, s)] ∧ deadlines code t [(m, c)] = [] := by
  simp [looks, deadlines, h, hs]

theorem shows_read {condvar : CondvarId} {next : Except SyncError Time → κ}
    (h : command? code t (m, c) = some (.read condvar next)) :
    looks code t [(m, c)] = [] ∧ deadlines code t [(m, c)] = [] := by
  simp [looks, deadlines, h]

theorem shows_wait {condvar : CondvarId} {deadline : Option Time}
    {next : Except SyncError WaitStatus → κ}
    (h : command? code t (m, c) = some (.wait condvar deadline next)) :
    looks code t [(m, c)] = [] ∧ deadlines code t [(m, c)] = [deadline] := by
  simp [looks, deadlines, h]

end Machine

variable {σ κ ε μ : Type} {code : κ → Command σ κ ε} {m m' : Machine σ κ ε} {t : ThreadId}
  {mutex : MutexId} {clock : Clock} {c : Cause}

/-- Where a predicate wait stands: in its own loop, or at a stage of the wait it has blocked in. -/
inductive Phase (μ : Type)
  | running (state : Policy.State) (memory : μ)
  | waiting (policy : Policy) (deadline : Option Time) (stage : Stage) (memory : μ)

/-- Whether the predicate wait has its result. -/
def Phase.done : Phase μ → Bool
  | .running (.done _) _ => true
  | _ => false

theorem Phase.eq_done {phase : Phase μ} (h : phase.done = true) :
    ∃ result memory, phase = .running (.done result) memory := by
  cases phase with
  | running state memory =>
      cases state with
      | done result => exact ⟨result, memory, rfl⟩
      | _ => cases h
  | waiting policy deadline stage memory => cases h

namespace PredicateWait

variable (w : PredicateWait code μ)

/-- The wait in which it blocks. -/
def call (mutex : MutexId) (policy : Policy) (deadline : Option Time) (memory : μ) : Call κ :=
  ⟨w.condvar, deadline, fun r => w.goOn (policy.returned r) memory, mutex⟩

/-- Thread `t` is at a phase of the predicate wait, with the mutex. It may have begun anywhere. -/
def Stands (t : ThreadId) (mutex : MutexId) (m : Machine σ κ ε) : Phase μ → Prop
  | .running (.done result) memory =>
    m.threads[t]? = some ⟨.running (w.goOn (.done result) memory), some mutex⟩
  | .running state memory => ∃ place, m.threads[t]? = some ⟨.running place, some mutex⟩ ∧
    code place = state.command w.condvar (w.eval memory) memory w.goOn (w.finish memory)
  | .waiting policy deadline stage memory =>
    m.threads[t]? = some ((w.call mutex policy deadline memory).thread stage)

theorem stands_goOn {state : Policy.State} {memory : μ}
    (ht : m.threads[t]? = some ⟨.running (w.goOn state memory), some mutex⟩) :
    w.Stands t mutex m (.running state memory) := by
  cases state with
  | done result => exact ht
  | _ => exact ⟨_, ht, w.code_goOn _ memory⟩

/-- What a move does to a predicate wait, with what it adds to the states that were looked at, the
notifications and the deadlines. -/
inductive Advances (t : ThreadId) (clock : Clock) (m m' : Machine σ κ ε) :
    List (Int × σ) → List Int → List (Option Time) → Phase μ → Phase μ → Prop
  | stay {phase : Phase μ} (hq : ∀ policy deadline stage memory,
      phase = .waiting policy deadline stage memory → stage = .entering)
      (hmono : m'.mono = m.mono) : Advances t clock m m' [] [] [] phase phase
  | check (policy : Policy) (memory : μ) (s : σ) (hmono : m'.mono = m.mono) :
      Advances t clock m m' [(m.mono, s)] [] [] (.running (.check policy) memory)
        (.running (policy.checked (w.eval memory s).1) (w.eval memory s).2.1)
  | recheck (memory : μ) (s : σ) (hmono : m'.mono = m.mono) :
      Advances t clock m m' [(m.mono, s)] [] [] (.running .recheck memory)
        (.running (.done (.ok (w.eval memory s).1)) (w.eval memory s).2.1)
  | arm (policy : Policy) (interval : Duration) (memory : μ) (hmono : m'.mono = m.mono) :
      Advances t clock m m' [] [] [] (.running (.arm policy interval) memory)
        (.running (policy.armed interval (m.readClock clock)) memory)
  | block (policy : Policy) (deadline : Option Time) (memory : μ) (hmono : m'.mono = m.mono) :
      Advances t clock m m' [] [] [deadline] (.running (.block policy deadline) memory)
        (.waiting policy deadline .entering memory)
  | register (policy : Policy) (deadline : Option Time) (memory : μ)
      (hmono : m'.mono = m.mono) :
      Advances t clock m m' [] [] [] (.waiting policy deadline .entering memory)
        (.waiting policy deadline (.registered clock deadline) memory)
  | goes (policy : Policy) (deadline : Option Time) (memory : μ) {e : Event}
      {stage stage' : Stage} {new : List Int} (hreg : stage' ≠ .entering)
      (h : Goes t w.condvar m m' e stage stage') (hdue : m'.due stage' = m.due stage ++ new) :
      Advances t clock m m' [] new [] (.waiting policy deadline stage memory)
        (.waiting policy deadline stage' memory)
  | returned (policy : Policy) (deadline : Option Time) (memory : μ) (how : WaitEnd)
      (hmono : m'.mono = m.mono) :
      Advances t clock m m' [] [] [] (.waiting policy deadline (.leaving how) memory)
        (.running (policy.returned how.result) memory)

variable {w} {state : Policy.State} {memory : μ} {phase : Phase μ}

theorem Stands.exists_place (h : w.Stands t mutex m (.running state memory)) :
    ∃ place, m.threads[t]? = some ⟨.running place, some mutex⟩ ∧
      code place = state.command w.condvar (w.eval memory) memory w.goOn (w.finish memory) := by
  cases state with
  | done result => exact ⟨_, h, w.code_goOn _ memory⟩
  | _ => exact h

theorem Stands.congr (h : w.Stands t mutex m phase) (hsame : m'.threads[t]? = m.threads[t]?) :
    w.Stands t mutex m' phase := by
  cases phase with
  | running state memory => cases state <;> simpa only [Stands, hsame] using h
  | waiting policy deadline stage memory => simpa only [Stands, hsame] using h

theorem exists_mutex (h : Sound m) {control : Control κ}
    (ht : m.threads[t]? = some ⟨control, some mutex⟩) : ∃ x, m.mutexes[mutex]? = some x := by
  have hx := h.guarded.exists_mutex ht rfl
  rw [holder?] at hx
  exact Option.ne_none_iff_exists'.mp fun hnone => hx (by rw [hnone]; rfl)

/-- A predicate wait without its result that is not queued can go on. -/
theorem Stands.not_atRest (hstands : w.Stands t mutex m phase) (h : Sound m)
    (hclock : m.clockOf? w.condvar = some clock) (hdone : phase.done = false)
    (hq : ∀ policy deadline timed memory, phase ≠ .waiting policy deadline (.queued timed) memory) :
    ¬AtRest code m := by
  obtain ⟨cv, hcv, -⟩ := Option.map_eq_some_iff.mp hclock
  intro hrest
  have hidle := hrest.idle t
  cases phase with
  | running state memory =>
      obtain ⟨place, ht, hcode⟩ := hstands.exists_place
      obtain ⟨x, hx⟩ := exists_mutex h ht
      rw [step, control?, ht, Option.map_some] at hidle
      cases state with
      | done result => cases hdone
      | _ => simp [hcode, Policy.State.command, commandStep, ht, hx, hcv] at hidle
  | waiting policy deadline stage memory =>
      have ht : m.threads[t]? = some ((w.call mutex policy deadline memory).thread stage) := hstands
      by_cases hreg : stage = .entering
      · subst hreg
        simp only [step, control?, ht, Option.map_some, Call.thread, waitStep, enter,
          Option.bind_eq_bind, Option.bind_some, call, hcv] at hidle
        split at hidle <;> cases hidle
      · refine Machine.not_atRest ht hreg (fun timed hqueued => ?_) hrest
        subst hqueued
        exact hq policy deadline timed memory rfl

section

variable (h : Punctual m) (hm : Timely code m c m') (hclock : m.clockOf? w.condvar = some clock)

include h hm hclock

theorem advances_running (hstands : w.Stands t mutex m (.running state memory))
    (hdone : (Phase.running state memory).done = false) :
    ∃ phase', w.Stands t mutex m' phase' ∧ w.Advances t clock m m' (looks code t [(m, c)])
      (told code t [(m, c)]) (deadlines code t [(m, c)]) (.running state memory) phase' := by
  obtain ⟨place, ht, hcode⟩ := hstands.exists_place
  rw [told_singleton (h.sound.parking.not_wakes ht rfl hm)]
  rcases h.sound.parking.own_or_same hm.caused ht rfl with ⟨rfl, hs⟩ | ⟨hc, hsame⟩
  · have hdoes : command? code t (m, .thread t) = some (state.command w.condvar (w.eval memory)
        memory w.goOn (w.finish memory)) := hcode ▸ command?_of_running ht
    have hself := getElem?_set_self_of_getElem? ht
    have hcommand := hs.command
    rw [hcode] at hcommand
    cases state with
    | check policy =>
        obtain ⟨mutex', x, hg, hx, rfl⟩ := hcommand
        cases hg
        obtain ⟨hlooks, hdeadlines⟩ := shows_access (s := x.state) hdoes
          (by simp [guarded?, ht, hx])
        rw [hlooks, hdeadlines]
        exact ⟨_, w.stands_goOn (hself _), .check policy memory x.state rfl⟩
    | arm policy interval =>
        obtain ⟨notes, control, line, hcalm, rfl⟩ := hcommand
        rw [(shows_read hdoes).1, (shows_read hdoes).2]
        cases hcalm with
        | @read _ _ cv hcv =>
            obtain rfl : cv.clock = clock := by simpa [clockOf?, hcv] using hclock
            exact ⟨_, w.stands_goOn (hself _), .arm policy interval memory rfl⟩
    | block policy deadline =>
        obtain ⟨notes, control, line, hcalm, rfl⟩ := hcommand
        rw [(shows_wait hdoes).1, (shows_wait hdoes).2]
        cases hcalm
        exact ⟨.waiting policy deadline .entering memory, hself _,
          .block policy deadline memory rfl⟩
    | recheck =>
        obtain ⟨mutex', x, hg, hx, rfl⟩ := hcommand
        cases hg
        obtain ⟨hlooks, hdeadlines⟩ := shows_access (s := x.state) hdoes
          (by simp [guarded?, ht, hx])
        rw [hlooks, hdeadlines]
        exact ⟨_, w.stands_goOn (hself _), .recheck memory x.state rfl⟩
    | done result => cases hdone
  · refine ⟨_, hstands.congr (hsame.trans ht.symm), ?_⟩
    rw [(shows_nothing (command?_of_ne hc)).1, (shows_nothing (command?_of_ne hc)).2]
    exact .stay (fun _ _ _ _ he => nomatch he)
      (hm.mono_eq (hstands.not_atRest h.sound hclock hdone fun _ _ _ _ he => nomatch he))

theorem advances_entering {policy : Policy} {deadline : Option Time}
    (hfree : ∀ cv, m.condvars[w.condvar]? = some cv → cv.binding.conflict? mutex = none)
    (hstands : w.Stands t mutex m (.waiting policy deadline .entering memory)) :
    ∃ phase', w.Stands t mutex m' phase' ∧ w.Advances t clock m m' (looks code t [(m, c)])
      (told code t [(m, c)]) (deadlines code t [(m, c)])
      (.waiting policy deadline .entering memory) phase' := by
  have ht : m.threads[t]? = some ((w.call mutex policy deadline memory).thread .entering) := hstands
  rw [told_singleton (h.sound.parking.not_wakes ht rfl hm),
    (shows_nothing (command?_of_waiting ht)).1, (shows_nothing (command?_of_waiting ht)).2]
  rcases h.sound.parking.own_or_same hm.caused ht rfl with ⟨rfl, hs⟩ | ⟨hc, hsame⟩
  · have hself := getElem?_set_self_of_getElem? ht
    cases hs with
    | @register condvar deadline next offered cv hc hg hcv hno =>
        cases hc
        have hcv : m.condvars[w.condvar]? = some cv := hcv
        obtain rfl : cv.clock = clock := by simpa [clockOf?, hcv] using hclock
        exact ⟨.waiting policy deadline _ memory, hself _, .register policy deadline memory rfl⟩
    | @reject condvar deadline next offered bound waiters cv hc hg hcv hconflict =>
        cases hc
        cases hg
        cases (hfree cv hcv).symm.trans hconflict
    | calm line hc hcalm => cases hc
    | _ hc => cases hc
  · refine ⟨_, hstands.congr (hsame.trans ht.symm), .stay (fun _ _ _ _ he => by cases he; rfl) ?_⟩
    exact hm.mono_eq (hstands.not_atRest h.sound hclock rfl fun _ _ _ _ he => nomatch he)

omit hclock in
theorem advances_waiting {policy : Policy} {deadline : Option Time} {stage : Stage}
    (hreg : stage ≠ .entering)
    (hstands : w.Stands t mutex m (.waiting policy deadline stage memory)) :
    ∃ phase', w.Stands t mutex m' phase' ∧ w.Advances t clock m m' (looks code t [(m, c)])
      (told code t [(m, c)]) (deadlines code t [(m, c)])
      (.waiting policy deadline stage memory) phase' := by
  have ht : m.threads[t]? = some ((w.call mutex policy deadline memory).thread stage) := hstands
  rw [(shows_nothing (command?_of_waiting ht)).1, (shows_nothing (command?_of_waiting ht)).2]
  rcases h.goes hm ht hreg with ⟨stage', ht', hreg', goes⟩ | ⟨how, rfl, rfl, he⟩
  · have hover : stage ≠ .woken false none := by
      rintro rfl
      cases h.sound.endless.woken ht
    obtain ⟨new, hnew, hdue⟩ := goes.due_eq hover []
    obtain rfl : new = told code t [(m, c)] := by simpa [told] using hnew.symm
    exact ⟨.waiting policy deadline stage' memory, ht',
      .goes policy deadline memory hreg' goes hdue⟩
  · rw [told_singleton (by rw [he]; rfl)]
    cases hm with
    | step hstep =>
        rw [step_of_leaving ht rfl] at hstep
        cases hstep
        refine ⟨_, w.stands_goOn ?_, .returned policy deadline memory how rfl⟩
        rw [setControl, List.getElem?_modify_eq, setBinding, ht]
        rfl

/-- A predicate wait without its result goes on as its loop has it, as long as no other mutex is
bound to its condition variable. -/
theorem Stands.advances (hstands : w.Stands t mutex m phase) (hdone : phase.done = false)
    (hfree : ∀ cv, m.condvars[w.condvar]? = some cv → cv.binding.conflict? mutex = none) :
    ∃ phase', w.Stands t mutex m' phase' ∧ w.Advances t clock m m' (looks code t [(m, c)])
      (told code t [(m, c)]) (deadlines code t [(m, c)]) phase phase' := by
  cases phase with
  | running state memory => exact advances_running h hm hclock hstands hdone
  | waiting policy deadline stage memory =>
      by_cases hreg : stage = .entering
      · subst hreg
        exact advances_entering h hm hclock hfree hstands
      · exact advances_waiting h hm hreg hstands

end

end PredicateWait

end TimedCondvar
