import TimedCondvar.Proofs.Steps

/-!
What other clocks do to a machine: nothing. A machine reads the clocks that its condition variables
are bound to, and no others. So if two machines differ in other clocks only, then each step of the
one is a step of the other, and they differ in those clocks only ever after, in whatever order the
moves are made and whatever the other clocks are set to meanwhile.
-/

namespace TimedCondvar

/-- The clocks of `named` are the same, and will read the same whenever they are read. -/
def Clocks.Agree (named : Clock → Prop) (cs cs' : Clocks) : Prop :=
  ∀ c, named c → cs.get c = cs'.get c

theorem Clocks.now_congr {cs cs' : Clocks} {c : Clock} (h : cs.get c = cs'.get c) (mono : Int) :
    cs.now mono c = cs'.now mono c := by
  rw [now, now, h]

theorem Clocks.get_modify (cs : Clocks) (f : VirtualClock → VirtualClock) (c c' : Clock) :
    (cs.modify f c).get c' = if c = c' then f (cs.get c') else cs.get c' := by
  cases c <;> cases c' <;> rfl

/-- Both clocks are set alike, or the one that is set is not named. -/
theorem Clocks.Agree.modify {named : Clock → Prop} {cs cs' : Clocks} (h : Agree named cs cs')
    (f : VirtualClock → VirtualClock) (c : Clock) :
    Agree named (cs.modify f c) (cs'.modify f c) := by
  intro c' hc'
  rw [get_modify, get_modify, h c' hc']

theorem Clocks.Agree.modify_others {named : Clock → Prop} {cs cs' : Clocks}
    (h : Agree named cs cs') (f f' : VirtualClock → VirtualClock) {c c' : Clock} (hc : ¬named c)
    (hc' : ¬named c') : Agree named (cs.modify f c) (cs'.modify f' c') := by
  intro c₀ hc₀
  have hne : c ≠ c₀ := fun heq => hc (heq ▸ hc₀)
  have hne' : c' ≠ c₀ := fun heq => hc' (heq ▸ hc₀)
  rw [get_modify, get_modify, if_neg hne, if_neg hne', h c₀ hc₀]

/-- The timer of a thread in a wait with a deadline. -/
def Control.timer? {κ : Type} : Control κ → Option Timer
  | .waiting _ _ (.reading timer) _ => some timer
  | .waiting _ _ (.parking timed) _ | .waiting _ _ (.queued timed) _
  | .waiting _ _ (.woken _ timed) _ => timed.map (·.1)
  | _ => none

theorem Control.timer?_wake {κ : Type} (b : Bool) (c : Control κ) :
    (c.wake b).timer? = c.timer? := by
  cases c with
  | waiting condvar deadline stage next => cases stage <;> rfl
  | _ => rfl

namespace Machine

variable {σ κ ε : Type} {code : κ → Command σ κ ε} {m m' : Machine σ κ ε} {t : ThreadId}
  {named : Clock → Prop} {cs : Clocks}

/-- The machine with other clocks. The park clock is none of them. -/
def withClocks (m : Machine σ κ ε) (cs : Clocks) : Machine σ κ ε := { m with clocks := cs }

/-- All that is bound to a clock, or is being timed, is so on clocks of `named`. -/
structure Confined (named : Clock → Prop) (m : Machine σ κ ε) : Prop where
  condvar : ∀ cv ∈ m.condvars, named cv.clock
  timer : ∀ th ∈ m.threads, ∀ timer, th.control.timer? = some timer → named timer.clock

/-! ### What is confined stays confined -/

section

variable {th th' : Thread κ}

theorem Confined.set (h : Confined named m) (hset : m'.threads = m.threads.set t th')
    (hth' : ∀ timer, th'.control.timer? = some timer → named timer.clock)
    (hcv : ∀ cv ∈ m'.condvars, named cv.clock) : Confined named m' := by
  refine ⟨hcv, fun th hth => ?_⟩
  rw [hset] at hth
  rcases List.mem_or_eq_of_mem_set hth with hth | rfl
  · exact h.timer th hth
  · exact hth'

theorem Confined.keep (h : Confined named m) (hset : m'.threads = m.threads.set t th')
    (hth' : th'.control.timer? = none) (hcv : m'.condvars = m.condvars) : Confined named m' :=
  h.set hset (fun timer htimer => by rw [hth'] at htimer; cases htimer) (hcv ▸ h.condvar)

theorem Confined.wakeAll (h : Confined named m) (b : Bool) (ts : List ThreadId) :
    Confined named (ts.foldl (wake · b) m) := by
  induction ts generalizing m with
  | nil => exact h
  | cons t ts ih =>
      refine ih ⟨h.condvar, fun th hth => ?_⟩
      obtain ⟨i, hi⟩ := List.getElem?_of_mem hth
      have hi : (m.threads.modify t fun th => { th with control := th.control.wake b })[i]? =
          some th := hi
      rw [List.getElem?_modify] at hi
      obtain ⟨old, hold, rfl⟩ := Option.map_eq_some_iff.mp hi
      intro timer htimer
      refine h.timer old (List.mem_of_getElem? hold) timer ?_
      split at htimer
      · rwa [Control.timer?_wake] at htimer
      · exact htimer

theorem Confined.notify (h : Confined named m) (thread : Option ThreadId) (condvar : CondvarId)
    (all : Bool) : Confined named (m.notify thread condvar all).1 :=
  have hwoken := h.wakeAll true (m.woken condvar all)
  ⟨hwoken.condvar, hwoken.timer⟩

theorem Confined.of_modify_binding (h : Confined named m) (condvar : CondvarId)
    (f : Binding → Binding) :
    ∀ cv ∈ m.condvars.modify condvar (fun c => { c with binding := f c.binding }),
      named cv.clock := by
  intro cv hcv
  obtain ⟨i, hi⟩ := List.getElem?_of_mem hcv
  rw [List.getElem?_modify] at hi
  obtain ⟨old, hold, rfl⟩ := Option.map_eq_some_iff.mp hi
  have hnamed := h.condvar old (List.mem_of_getElem? hold)
  split <;> exact hnamed

theorem Confined.stepped (h : Confined named m) (ht : m.threads[t]? = some th)
    (hs : Stepped code m t th m') : Confined named m' := by
  have hth := h.timer th (List.mem_of_getElem? ht)
  cases hs with
  | lock hc hcode hx hfree => exact h.keep rfl rfl rfl
  | unlock hc hcode hg => exact h.keep rfl rfl rfl
  | access hc hcode hg hx => exact h.keep rfl rfl rfl
  | calm line hc hcalm =>
      refine h.keep rfl ?_ rfl
      generalize code _ = command at hcalm
      cases hcalm <;> rfl
  | notify hc hcode => exact (h.notify (some t) _ _).keep rfl rfl rfl
  | sleep hc hcode hl => exact h.keep rfl rfl rfl
  | reject hc hg hcv hconflict => exact h.keep rfl rfl rfl
  | @register condvar deadline next offered cv hc hg hcv hconflict =>
      have hnamed := h.condvar cv (List.mem_of_getElem? hcv)
      refine h.set rfl (fun timer htimer => ?_) fun cv' hcv' => ?_
      · cases deadline with
        | none => cases htimer
        | some deadline =>
            cases htimer
            exact hnamed
      · rcases List.mem_or_eq_of_mem_set hcv' with hcv' | rfl
        · exact h.condvar cv' hcv'
        · exact hnamed
  | @read condvar deadline timer next hc =>
      rw [hc] at hth
      refine h.set rfl (fun timer' htimer => ?_) h.condvar
      dsimp only at htimer
      cases hpass : timer.pass (m.clocks.now m.mono timer.clock) <;> rw [hpass] at htimer <;>
        cases htimer
      exact hth timer rfl
  | park hc hg =>
      rw [hc] at hth
      exact h.set rfl hth h.condvar
  | @retake condvar deadline notified timed next mutex x hc hg hx hfree =>
      rw [hc] at hth
      refine h.set rfl (fun timer' htimer => ?_) h.condvar
      match timed, notified with
      | none, _ => cases htimer
      | some (timer, p), true => cases htimer
      | some (timer, p), false =>
          cases htimer
          exact hth timer rfl
  | leave hc => exact h.set rfl (fun _ htimer => nomatch htimer) (h.of_modify_binding _ _)

theorem Confined.step (h : Confined named m) (hs : m.step code t = some m') :
    Confined named m' := by
  obtain ⟨th, ht, hs⟩ := stepped_of_step hs
  exact h.stepped ht hs

end

/-! ### Steps

A step that reads no clock does not see the clocks at all. One that does reads the clock of a
condition variable or of a timer. -/

theorem wakeAll_withClocks (cs : Clocks) (ts : List ThreadId) (m : Machine σ κ ε) :
    ts.foldl (wake · true) (m.withClocks cs) = (ts.foldl (wake · true) m).withClocks cs := by
  induction ts generalizing m with
  | nil => rfl
  | cons t ts ih => exact ih (m.wake true t)

theorem notify_withClocks (m : Machine σ κ ε) (cs : Clocks) (thread : Option ThreadId)
    (condvar : CondvarId) (all : Bool) : (m.withClocks cs).notify thread condvar all =
      ((m.notify thread condvar all).1.withClocks cs, (m.notify thread condvar all).2) := by
  have hwoken := wakeAll_withClocks cs (m.woken condvar all) m
  have hnotify : (m.withClocks cs).notify thread condvar all =
      (((m.woken condvar all).foldl (wake · true) (m.withClocks cs)).write thread _, _) := rfl
  rw [hnotify, hwoken]
  rfl

theorem enter_withClocks (m : Machine σ κ ε) (cs : Clocks) (t : ThreadId) (condvar : CondvarId)
    (deadline : Option Time) (next : Except SyncError WaitStatus → κ) :
    (m.withClocks cs).enter t condvar deadline next =
      (m.enter t condvar deadline next).map (·.withClocks cs) := by
  simp only [enter, withClocks, Option.bind_eq_bind]
  cases m.threads[t]? with
  | none => rfl
  | some th =>
      cases hg : th.guard with
      | none => simp [hg]
      | some offered =>
          cases m.condvars[condvar]? with
          | none => simp
          | some cv =>
              cases hconflict : cv.binding.conflict? offered with
              | none => simp [hg, hconflict, setBinding, setControl]
              | some conflict => simp [hg, hconflict, write, setControl]

section

variable (hagree : Clocks.Agree named m.clocks cs)

include hagree

theorem waitStep_withClocks (condvar : CondvarId) (deadline : Option Time)
    (next : Except SyncError WaitStatus → κ) (stage : Stage)
    (htimer : ∀ timer, (Control.waiting condvar deadline stage next).timer? = some timer →
      named timer.clock) :
    (m.withClocks cs).waitStep t condvar deadline next stage =
      (m.waitStep t condvar deadline next stage).map (·.withClocks cs) := by
  cases stage with
  | entering => exact enter_withClocks m cs t condvar deadline next
  | reading timer =>
      have hnow := Clocks.now_congr (hagree _ (htimer timer rfl)) m.mono
      simp only [waitStep, withClocks, ← hnow]
      rfl
  | parking timed =>
      simp only [waitStep, withClocks, Option.bind_eq_bind]
      cases m.threads[t]? with
      | none => rfl
      | some th => cases hg : th.guard <;> simp [hg, setHolder, Machine.park, setControl, wakeAt]
  | queued timed => rfl
  | woken notified timed =>
      simp only [waitStep, withClocks, Option.bind_eq_bind]
      cases m.threads[t]? with
      | none => rfl
      | some th =>
          cases hg : th.guard with
          | none => simp [hg]
          | some mutex =>
              cases hx : m.mutexes[mutex]? with
              | none => simp [hg, hx]
              | some x => cases hh : x.holder <;> simp [hg, hx, hh, setHolder, setControl]
  | leaving how => rfl

theorem commandStep_withClocks (hcv : ∀ cv ∈ m.condvars, named cv.clock) (command : Command σ κ ε)
    (hwall : ∀ next, command ≠ .wallTime next) : (m.withClocks cs).commandStep t command =
      (m.commandStep t command).map (·.withClocks cs) := by
  cases command with
  | lock mutex next =>
      simp only [commandStep, withClocks, Option.bind_eq_bind]
      cases hx : m.mutexes[mutex]? with
      | none => rfl
      | some x => cases hh : x.holder <;> simp [hh, setHolder, setGuard, setControl]
  | unlock next =>
      simp only [commandStep, withClocks, Option.bind_eq_bind]
      cases m.threads[t]? with
      | none => rfl
      | some th => cases hg : th.guard <;> simp [hg, setHolder, setGuard, setControl]
  | access f =>
      simp only [commandStep, withClocks, Option.bind_eq_bind]
      cases m.threads[t]? with
      | none => rfl
      | some th =>
          cases hg : th.guard with
          | none => simp [hg]
          | some mutex => cases hx : m.mutexes[mutex]? <;> simp [hg, hx, setControl]
  | wait condvar deadline next => rfl
  | read condvar next =>
      simp only [commandStep, withClocks, Option.bind_eq_bind]
      cases hfound : m.condvars[condvar]? with
      | none => rfl
      | some cv =>
          have hnamed := hcv cv (List.mem_of_getElem? hfound)
          have hnow := Clocks.now_congr (hagree _ hnamed) m.mono
          simp [readClock, hnow, setControl]
  | notify condvar all next =>
      simp only [commandStep, notify_withClocks]
      rfl
  | instant next => rfl
  | wallTime next => exact absurd rfl (hwall next)
  | sleep length next =>
      simp only [commandStep]
      split <;> rfl
  | join other next =>
      have hsame : (m.withClocks cs).control? other = m.control? other := rfl
      simp only [commandStep, hsame]
      split <;> rfl
  | emit notes next => rfl
  | stop => rfl

/-- A thread of a confined machine takes the same steps under other clocks, as long as its code does
not look at the wall clock. -/
theorem step_withClocks (h : Confined named m) (hwall : ∀ place next, code place ≠ .wallTime next) :
    (m.withClocks cs).step code t = (m.step code t).map (·.withClocks cs) := by
  have hthreads : (m.withClocks cs).threads = m.threads := rfl
  simp only [step, control?, hthreads]
  cases ht : m.threads[t]? with
  | none => rfl
  | some th =>
      have hth := h.timer th (List.mem_of_getElem? ht)
      cases hc : th.control with
      | running place =>
          simp only [Option.map_some, hc]
          exact commandStep_withClocks hagree h.condvar (code place) (hwall place)
      | waiting condvar deadline stage next =>
          simp only [Option.map_some, hc]
          rw [hc] at hth
          exact waitStep_withClocks hagree condvar deadline next stage hth
      | sleeping next => simp [hc]
      | ended => simp [hc]

end

/-! ### Two machines -/

theorem clocks_wakeAll (ts : List ThreadId) (m : Machine σ κ ε) :
    (ts.foldl (wake · true) m).clocks = m.clocks := by
  induction ts generalizing m with
  | nil => rfl
  | cons t ts ih => exact ih (m.wake true t)

theorem notify_clocks (m : Machine σ κ ε) (thread : Option ThreadId) (condvar : CondvarId)
    (all : Bool) : (m.notify thread condvar all).1.clocks = m.clocks :=
  clocks_wakeAll (m.woken condvar all) m

theorem step_clocks (hs : m.step code t = some m') : m'.clocks = m.clocks := by
  obtain ⟨th, -, hs⟩ := stepped_of_step hs
  cases hs with
  | notify hc hcode => exact notify_clocks m (some t) _ _
  | _ => rfl

/-- Two machines that differ in clocks only, and in none that the first one is bound to. -/
structure Alike (named : Clock → Prop) (m m' : Machine σ κ ε) : Prop where
  confined : Confined named m
  agree : Clocks.Agree named m.clocks m'.clocks
  eq_withClocks : m' = m.withClocks m'.clocks

theorem Confined.alike (h : Confined named m) (hagree : Clocks.Agree named m.clocks cs) :
    Alike named m (m.withClocks cs) := ⟨h, hagree, rfl⟩

theorem Alike.tick (h : Alike named m m') (instant : Int) :
    Alike named { m with mono := instant } { m' with mono := instant } := by
  refine ⟨⟨h.confined.condvar, h.confined.timer⟩, h.agree, ?_⟩
  rw [h.eq_withClocks]
  rfl

theorem Alike.expire (h : Alike named m m') (instant : Int) (t : ThreadId) :
    Alike named (m.expire instant t) (m'.expire instant t) := by
  have hexpire : m'.expire instant t = (m.expire instant t).withClocks m'.clocks := by
    rw [h.eq_withClocks]
    rfl
  rw [hexpire]
  exact ((h.tick instant).confined.wakeAll false [t]).alike h.agree

section

variable (hwall : ∀ place next, code place ≠ .wallTime next)

include hwall

theorem Alike.turn (h : Alike named m m') :
    m'.turn code = (m.turn code).map (·.withClocks m'.clocks) := by
  have hline : m'.line = m.line := by rw [h.eq_withClocks]; rfl
  have hstep : m'.step code = fun t => (m.step code t).map (·.withClocks m'.clocks) := by
    funext t
    have hstep := step_withClocks (t := t) h.agree h.confined hwall
    rwa [← h.eq_withClocks] at hstep
  rw [Machine.turn, Machine.turn, hline, hstep, List.map_findSome?]
  rfl

theorem Alike.settle (h : Alike named m m') (n : Nat) :
    Alike named (m.settle code n) (m'.settle code n) := by
  induction n generalizing m m' with
  | zero => exact h
  | succ n ih =>
      rw [Machine.settle, Machine.settle, h.turn hwall]
      cases hturn : m.turn code with
      | none => exact h
      | some m₁ =>
          obtain ⟨t, -, hs⟩ := List.exists_of_findSome?_eq_some hturn
          exact ih ((h.confined.step hs).alike (step_clocks hs ▸ h.agree))

theorem Alike.elapse (h : Alike named m m') (work : Nat) (limit : Option Int) (n : Nat) :
    Alike named (m.elapse code work limit n) (m'.elapse code work limit n) := by
  induction n generalizing m m' with
  | zero => exact h
  | succ n ih =>
      have hparked : m'.parked = m.parked := by rw [h.eq_withClocks]; rfl
      rw [Machine.elapse, Machine.elapse, hparked]
      cases firstExpiry m.parked with
      | none => exact h
      | some first =>
          obtain ⟨instant, t⟩ := first
          dsimp only
          split
          · exact ih ((h.expire instant t).settle hwall work)
          · exact h

theorem Alike.advance (h : Alike named m m') (work : Nat) (d : Duration) :
    Alike named (m.advance code work d) (m'.advance code work d) := by
  have hmono : m'.mono = m.mono := by rw [h.eq_withClocks]; rfl
  have hthreads : m'.threads = m.threads := by rw [h.eq_withClocks]; rfl
  rw [Machine.advance, Machine.advance, hmono, hthreads]
  exact (h.elapse hwall work _ _).tick _

end

/-! ### Any moves -/

/-- One move of a machine or act from outside, with all that is left open about it. -/
inductive Choice (σ κ ε : Type)
  | step (t : ThreadId)
  | expire (instant : Int) (t : ThreadId)
  | tick (instant : Int)
  | clocks (cs : Clocks)
  | spawn (place : κ)
  | bind (thread : Option ThreadId) (clock : Clock)
  | notify (thread : Option ThreadId) (condvar : CondvarId) (all : Bool)
  | modify (mutex : MutexId) (f : σ → σ)
  | log (log : List (Entry ε))

/-- What a move shows and leads to, if it can be made. -/
def choose (code : κ → Command σ κ ε) (m : Machine σ κ ε) :
    Choice σ κ ε → Option (Event × Machine σ κ ε)
  | .step t => (m.step code t).map (m.shown code t, ·)
  | .expire instant t =>
    if m.parked.any fun p => p.thread == t && p.wakeAt.any (· ≤ instant) then
      some (.expired t, m.expire instant t)
    else none
  | .tick instant => some (.silent, { m with mono := instant })
  | .clocks cs => some (.silent, m.withClocks cs)
  | .spawn place => some (.silent, m.spawn place)
  | .bind thread clock => some (.silent, (m.bind thread clock).1)
  | .notify thread condvar all =>
    some (.woke condvar (m.woken condvar all) (m.notify thread condvar all).2,
      (m.notify thread condvar all).1)
  | .modify mutex f =>
    some (.silent,
      { m with mutexes := m.mutexes.modify mutex fun x => { x with state := f x.state } })
  | .log log => some (.silent, { m with log := log })

/-- What moves show and lead to, one after the other. -/
def chooseAll (code : κ → Command σ κ ε) (m : Machine σ κ ε) :
    List (Choice σ κ ε) → Option (List Event × Machine σ κ ε)
  | [] => some ([], m)
  | d :: ds =>
    (m.choose code d).bind fun (e, m') =>
      (m'.chooseAll code ds).map fun (es, m'') => (e :: es, m'')

/-- All moves can be chosen, and no others. -/
theorem next_iff_choose {e : Event} :
    Next code m e m' ↔ ∃ d, m.choose code d = some (e, m') := by
  constructor
  · rintro (own | act)
    · cases own with
      | @step t m' h => exact ⟨.step t, by rw [choose, h]; rfl⟩
      | @expire p u instant hp hu h =>
          refine ⟨.expire instant p.thread, if_pos (List.any_eq_true.mpr ⟨p, hp, ?_⟩)⟩
          simp [hu, h]
      | tick instant => exact ⟨.tick instant, rfl⟩
      | clocks cs => exact ⟨.clocks cs, rfl⟩
    · cases act with
      | spawn place => exact ⟨.spawn place, rfl⟩
      | bind thread clock => exact ⟨.bind thread clock, rfl⟩
      | notify thread condvar all => exact ⟨.notify thread condvar all, rfl⟩
      | modify mutex f => exact ⟨.modify mutex f, rfl⟩
      | log log => exact ⟨.log log, rfl⟩
  · rintro ⟨d, h⟩
    cases d with
    | step t =>
        obtain ⟨m₁, hs, he⟩ := Option.map_eq_some_iff.mp h
        cases he
        exact .own (.step hs)
    | expire instant t =>
        rw [choose] at h
        split at h
        · rename_i hany
          cases h
          obtain ⟨p, hp, hdue⟩ := List.any_eq_true.mp hany
          rw [Bool.and_eq_true, beq_iff_eq, Option.any_eq_true] at hdue
          obtain ⟨rfl, u, hu, hle⟩ := hdue
          exact .own (.expire instant hp hu (of_decide_eq_true hle))
        · cases h
    | tick instant =>
        cases h
        exact .own (.tick instant)
    | clocks cs =>
        cases h
        exact .own (.clocks cs)
    | spawn place =>
        cases h
        exact .act (.spawn place)
    | bind thread clock =>
        cases h
        exact .act (.bind thread clock)
    | notify thread condvar all =>
        cases h
        exact .act (.notify thread condvar all)
    | modify mutex f =>
        cases h
        exact .act (.modify mutex f)
    | log log =>
        cases h
        exact .act (.log log)

/-- Two moves that are the same, or that both set the clocks, each in its own way but for those of
`named`. -/
inductive Choice.Alike (named : Clock → Prop) : Choice σ κ ε → Choice σ κ ε → Prop
  | same (d : Choice σ κ ε) : Alike named d d
  | clocks {cs cs' : Clocks} (h : Clocks.Agree named cs cs') :
      Alike named (.clocks cs) (.clocks cs')

section

theorem Alike.shown (h : Alike named m m') (t : ThreadId) : m'.shown code t = m.shown code t := by
  rw [h.eq_withClocks]
  have hcontrol : (m.withClocks m'.clocks).control? t = m.control? t := rfl
  rw [Machine.shown, Machine.shown, hcontrol]
  cases hc : m.control? t with
  | none => rfl
  | some c =>
      cases c with
      | running place =>
          dsimp only
          cases code place with
          | notify condvar all next =>
              rw [commandShown, commandShown, notify_withClocks]
              rfl
          | _ => rfl
      | waiting condvar deadline stage next =>
          obtain ⟨th, ht, hth⟩ := Option.map_eq_some_iff.mp hc
          cases stage with
          | reading timer =>
              have htimer := h.confined.timer th (List.mem_of_getElem? ht) timer (by rw [hth]; rfl)
              exact congrArg _ (Clocks.now_congr (h.agree _ htimer) m.mono).symm
          | _ => rfl
      | sleeping next => rfl
      | ended => rfl

theorem Alike.spawn (h : Alike named m m') (place : κ) :
    Alike named (m.spawn place) (m'.spawn place) := by
  rw [h.eq_withClocks]
  refine Confined.alike ⟨h.confined.condvar, fun th hth => ?_⟩ h.agree
  rcases List.mem_append.mp hth with hth | hth
  · exact h.confined.timer th hth
  · obtain rfl := List.mem_singleton.mp hth
    intro timer htimer
    cases htimer

theorem Alike.bind (h : Alike named m m') (thread : Option ThreadId) {c : Clock} (hc : named c) :
    Alike named (m.bind thread c).1 (m'.bind thread c).1 ∧
      (m.bind thread c).2 = (m'.bind thread c).2 := by
  obtain ⟨hconfined, hagree, heq⟩ := h
  rw [heq]
  generalize m'.clocks = cs at hagree
  have hnow : (m.withClocks cs).clocks.now (m.withClocks cs).mono c = m.clocks.now m.mono c :=
    (Clocks.now_congr (hagree c hc) m.mono).symm
  rw [Machine.bind, Machine.bind, hnow]
  cases m.clocks.now m.mono c with
  | error e => exact ⟨⟨⟨hconfined.condvar, hconfined.timer⟩, hagree, rfl⟩, rfl⟩
  | ok now =>
      refine ⟨⟨⟨fun cv hcv => ?_, hconfined.timer⟩, hagree, rfl⟩, rfl⟩
      rcases List.mem_append.mp hcv with hcv | hcv
      · exact hconfined.condvar cv hcv
      · rwa [List.mem_singleton.mp hcv]

theorem Alike.notify (h : Alike named m m') (thread : Option ThreadId) (condvar : CondvarId)
    (all : Bool) :
    Alike named (m.notify thread condvar all).1 (m'.notify thread condvar all).1 ∧
      (m.notify thread condvar all).2 = (m'.notify thread condvar all).2 := by
  rw [h.eq_withClocks, notify_withClocks]
  exact ⟨(h.confined.notify thread condvar all).alike
    (notify_clocks m thread condvar all ▸ h.agree), rfl⟩

variable (hwall : ∀ place next, code place ≠ .wallTime next)

include hwall

/-- Moves that are alike show the same and lead to machines that are alike. -/
theorem Alike.choose (h : Alike named m m') {d d' : Choice σ κ ε} (hd : Choice.Alike named d d')
    (hbind : ∀ thread c, d = .bind thread c → named c) {e : Event} {m₁ : Machine σ κ ε}
    (hm : m.choose code d = some (e, m₁)) :
    ∃ m₁', m'.choose code d' = some (e, m₁') ∧ Alike named m₁ m₁' := by
  -- what is not bound to a clock may change in both
  have keep {x : Machine σ κ ε} (hcondvars : x.condvars = m.condvars)
      (hthreads : x.threads = m.threads) : Confined named x :=
      ⟨hcondvars ▸ h.confined.condvar, hthreads ▸ h.confined.timer⟩
  cases hd with
  | clocks hagree =>
      cases hm
      refine ⟨_, rfl, ?_⟩
      rw [h.eq_withClocks]
      exact ⟨keep rfl rfl, hagree, rfl⟩
  | same =>
      cases d with
      | step t =>
          obtain ⟨m₁, hs, he⟩ := Option.map_eq_some_iff.mp hm
          cases he
          have hstep := step_withClocks (t := t) h.agree h.confined hwall
          rw [← h.eq_withClocks, hs] at hstep
          refine ⟨_, by rw [Machine.choose, hstep, h.shown]; rfl, ?_⟩
          exact (h.confined.step hs).alike (step_clocks hs ▸ h.agree)
      | expire instant t =>
          rw [Machine.choose] at hm
          split at hm
          · rename_i hdue
            cases hm
            have hparked : m'.parked = m.parked := by
              rw [h.eq_withClocks]
              rfl
            exact ⟨_, by rw [Machine.choose, hparked, if_pos hdue], h.expire instant t⟩
          · cases hm
      | tick instant =>
          cases hm
          exact ⟨_, rfl, h.tick instant⟩
      | clocks cs =>
          cases hm
          refine ⟨_, rfl, ?_⟩
          rw [h.eq_withClocks]
          exact ⟨keep rfl rfl, fun _ _ => rfl, rfl⟩
      | spawn place =>
          cases hm
          exact ⟨_, rfl, h.spawn place⟩
      | bind thread clock =>
          cases hm
          exact ⟨_, rfl, (h.bind thread (hbind thread clock rfl)).1⟩
      | notify thread condvar all =>
          cases hm
          obtain ⟨halike, hresult⟩ := h.notify thread condvar all
          have hwoken : m'.woken condvar all = m.woken condvar all := by
            rw [h.eq_withClocks]
            rfl
          exact ⟨_, by rw [Machine.choose, hresult, hwoken], halike⟩
      | modify mutex f =>
          cases hm
          refine ⟨_, rfl, ?_⟩
          rw [h.eq_withClocks]
          exact ⟨keep rfl rfl, h.agree, rfl⟩
      | log log =>
          cases hm
          refine ⟨_, rfl, ?_⟩
          rw [h.eq_withClocks]
          exact ⟨keep rfl rfl, h.agree, rfl⟩

/-- Runs of moves that are alike show the same and lead to machines that are alike. -/
theorem Alike.chooseAll (h : Alike named m m') {ds ds' : List (Choice σ κ ε)}
    (hds : List.Forall₂ (Choice.Alike named) ds ds')
    (hbind : ∀ thread c, .bind thread c ∈ ds → named c) {es : List Event} {m₁ : Machine σ κ ε}
    (hm : m.chooseAll code ds = some (es, m₁)) :
    ∃ m₁', m'.chooseAll code ds' = some (es, m₁') ∧ Alike named m₁ m₁' := by
  induction hds generalizing m m' es with
  | nil =>
      cases hm
      exact ⟨m', rfl, h⟩
  | @cons d d' ds ds' hd hds ih =>
      obtain ⟨⟨e, m₂⟩, hchoose, hm⟩ := Option.bind_eq_some_iff.mp hm
      obtain ⟨⟨es, m₃⟩, hrest, he⟩ := Option.map_eq_some_iff.mp hm
      cases he
      obtain ⟨m₂', hchoose', h₂⟩ := h.choose hwall hd
        (fun thread c hc => hbind thread c (hc ▸ List.mem_cons_self)) hchoose
      obtain ⟨m₁', hrest', h₁⟩ := ih h₂
        (fun thread c hc => hbind thread c (List.mem_cons_of_mem _ hc)) hrest
      refine ⟨m₁', ?_, h₁⟩
      rw [Machine.chooseAll, hchoose', Option.bind_some]
      dsimp only
      rw [hrest']
      rfl

end

end Machine

end TimedCondvar
