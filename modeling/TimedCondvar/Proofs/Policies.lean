import TimedCondvar.Proofs.Rounds

/-!
What the bounded policies promise of a predicate wait on a clock that goes along with the park
clock. Both look at the state when they begin and once for each notification that wakes them. One
waits for a quiet period and starts it anew with each look, and is over without another look when
the period has passed. The other fixes its deadline once and looks again when it is reached.
-/

namespace TimedCondvar

open Machine

namespace PredicateWait

/-- The predicate wait of a scripted thread. -/
def ofScript (p : Script.Place) (policy : Policy) (condition : Condition) (start : Option Int) :
    PredicateWait Script.code Tally where
  condvar := p.condvar
  eval := condition.eval
  goOn state tally := p.moveTo (.looping policy condition start state tally)
  finish tally r := p.finish start (Script.Place.readyAnswer policy tally r)
  code_goOn _ _ := rfl

/-- A script with a predicate wait on the boot clock for a condition that never holds. -/
def futile (policy : Policy) : Script.Place :=
  { condvar := 0, clock := .boottime, mutex := 0
    rest := [{ operation := .waitPredicate policy .never }] }

/-- The machine at which such a script, the only thread there is, enters its wait. -/
def entry (policy : Policy) : ScriptMachine :=
  ((((World.start 0 0 0 0).machine.bind none .boottime).1.spawn (futile policy)).setHolder
    0 (some 0)).setGuard 0 (some 0) |>.setControl 0 (.running ((futile policy).moveTo .fetching))

theorem exists_history_entry (policy : Policy) :
    ∃ hs, History Script.code (World.start 0 0 0 0).machine hs (entry policy) :=
  ⟨_, ((History.nil.snoc (.act (.bind none .boottime))).snoc (.act (.spawn (futile policy)))).trans
    (.of_course [.step 0] rfl)⟩

theorem stands_entry (policy : Policy) :
    (ofScript ((futile policy).moveTo .fetching) policy .never none).Stands 0 0 (entry policy)
      (.running policy.start {}) := by
  cases policy <;> exact ⟨_, rfl, rfl⟩

/-- Time passes up to `instant`, and somebody notifies one thread of the first condition variable. -/
def notification (m : ScriptMachine) (instant : Int) : List (ScriptMachine × Cause) :=
  let m' := { m with mono := instant }
  [(m, .time), (m', .outside (.woke 0 (m'.woken 0 false) (m'.notify none 0 false).2))]

/-- The machine after such a notification. -/
def notifiedAt (m : ScriptMachine) (instant : Int) : ScriptMachine :=
  ({ m with mono := instant }.notify none 0 false).1

/-- Whatever the policy, a wait that parks in its first six turns can be notified at any instant up
to the end of its park. -/
theorem history_notifiedAt {policy : Policy} {hs : List (ScriptMachine × Cause)}
    {m : ScriptMachine} (instant : Int)
    (parks : (entry policy).course Script.code (List.replicate 6 (.step 0)) = some (hs, m))
    (hrest : m.atRest Script.code = true) (hle : m.mono ≤ instant)
    (hbefore : m.parked.all (·.wakeAt.all (instant ≤ ·)) = true) :
    History Script.code (entry policy) (hs ++ notification m instant) (notifiedAt m instant) :=
  (History.of_course _ parks).trans
    ((History.nil.snoc (timely_tick instant hrest hle hbefore)).snoc (.act (.notify none 0 false)))

theorem not_mem_answers_never (p : Script.Place) (policy : Policy) (start : Option Int)
    (tally : Tally) (ss : List Inbox) :
    true ∉ (ofScript p policy .never start).answers tally ss := by
  induction ss generalizing tally with
  | nil => exact List.not_mem_nil
  | cons s ss ih =>
      intro hmem
      rcases List.mem_cons.mp hmem with h | h
      · cases h
      · exact ih _ h

/-- The boot clock goes along with the park clock in the first second, and no mutex but the first
one is bound to the first condition variable. -/
def uneventful (x : ScriptMachine × Cause) : Bool :=
  decide (x.1.clocks.get .boottime = ⟨0, 0, 1, 1, none⟩ ∧ 0 ≤ x.1.mono ∧ x.1.mono ≤ 1000000000) &&
    (x.1.condvars[0]?).all fun cv => decide (cv.binding.conflict? 0 = none)

theorem of_uneventful {x : ScriptMachine × Cause} (h : uneventful x = true) :
    (InStep .boottime 0 x.1 ∧ 0 ≤ x.1.mono + 0) ∧ x.1.mono ≤ 1000000000 ∧
      ∀ cv, x.1.condvars[0]? = some cv → cv.binding.conflict? 0 = none := by
  obtain ⟨hclock, hfree⟩ := Bool.and_eq_true_iff.mp h
  obtain ⟨hget, hle, hlt⟩ := of_decide_eq_true hclock
  have hlow : Time.earliest.totalNanos ≤ 0 := by decide
  have hhigh : 1000000000 ≤ Time.max.totalNanos := by decide
  refine ⟨⟨inStep_of_rate_one hget (by omega) (by omega), by omega⟩, hlt, fun cv hcv => ?_⟩
  simpa [hcv] using hfree

variable {σ κ ε μ : Type} {code : κ → Command σ κ ε} {m₀ m m' : Machine σ κ ε} {t : ThreadId}
  {mutex : MutexId} {clock : Clock} {offset : Int} {memory : μ}
  {hs₀ hs : List (Machine σ κ ε × Cause)} {w : PredicateWait code μ}

/-- In every timely run, for every condition: a wait for a quiet period of `delay` looks at the
state at its start and at each notification that wakes it, and at no other time. It is over at the
first look at which the condition holds, or with `false` when `delay` has passed since the latest
look and no notification has come. -/
theorem quiet_period_of_run {delay : Duration} (hfresh : Fresh m₀)
    (history₀ : History code m₀ hs₀ m) (hclock : m.clockOf? w.condvar = some clock)
    (hentry : w.Stands t mutex m (.running (Policy.quiet delay).start memory))
    (history : History code m hs m')
    (hstep : ∀ x ∈ hs, InStep clock offset x.1 ∧ 0 ≤ x.1.mono + offset)
    (hrange : ∀ x ∈ hs, x.1.mono + delay.totalNanos ≤ lastInstant ∧
      x.1.mono + offset + delay.totalNanos ≤ Time.max.totalNanos)
    (hfree : ∀ x ∈ hs, ∀ cv, x.1.condvars[w.condvar]? = some cv →
      cv.binding.conflict? mutex = none) :
    (w.Underway t mutex m' ∧
      w.answers memory ((looks code t hs).map (·.2)) =
        List.replicate (looks code t hs).length false ∧
      List.IsChain (fun i j : Int => i ≤ j ∧ j ≤ i + delay.totalNanos) (m.mono :: told code t hs) ∧
      ((looks code t hs).map (·.1) = m.mono :: told code t hs ∨
        (looks code t hs).map (·.1) ++ [m'.mono] = m.mono :: told code t hs) ∧
      m'.mono ≤ (told code t hs).getLastD m.mono + delay.totalNanos ∧
      (Settled code m' → (looks code t hs).map (·.1) = m.mono :: told code t hs ∧
        m'.mono < (told code t hs).getLastD m.mono + delay.totalNanos)) ∨
    ∃ before m₁ holds, w.Finishes t mutex m m' hs before m₁ (.ok holds) ∧
      List.IsChain (fun i j : Int => i ≤ j ∧ j ≤ i + delay.totalNanos)
        (m.mono :: told code t before) ∧
      (looks code t before).map (·.1) = m.mono :: told code t before ∧
      (holds = true ∧ m₁.mono = (told code t before).getLastD m.mono ∧
          w.answers memory ((looks code t before).map (·.2)) =
            List.replicate (told code t before).length false ++ [true] ∨
        holds = false ∧ m₁.mono = (told code t before).getLastD m.mono + delay.totalNanos ∧
          w.answers memory ((looks code t before).map (·.2)) =
            List.replicate ((told code t before).length + 1) false) := by
  let r : Terms := ⟨clock, offset, m.mono, (· + delay.totalNanos), false⟩
  have hpunctual := history₀.punctual hfresh.punctual
  have hsteady : ∀ x ∈ hs, r.Steady x.1 := by
    intro x hx
    obtain ⟨hin, hnonneg⟩ := hstep x hx
    obtain ⟨hinstant, htime⟩ := hrange x hx
    refine ⟨hin, hnonneg, hinstant, ?_⟩
    change x.1.mono + delay.totalNanos + offset ≤ _
    omega
  have hlaw : w.Law r memory t {} m (.running (Policy.quiet delay).start memory) := by
    refine ⟨⟨rfl, rfl, List.isChain_singleton _, fun _ hd => nomatch hd⟩,
      .quiet (fun _ => rfl) rfl, rfl, ?_⟩
    exact Int.le_add_of_nonneg_right (Int.natCast_nonneg _)
  rcases hlaw.follow hpunctual hclock hentry rfl history hsteady hfree with
    ⟨phase, hstands, hdone, h⟩ | ⟨before, m₁, result, hfin, hchain, -, -, holds, rfl, hend⟩
  · have hclock' : m'.clockOf? w.condvar = some r.clock :=
      history.invariant Timely.clockOf? hclock
    obtain ⟨hanswers, hchain, -, hrest⟩ :=
      h.underway (history.punctual hpunctual) hclock' hstands hdone
    exact .inl ⟨⟨phase, hstands, hdone⟩, hanswers, hchain, hrest⟩
  · refine .inr ⟨before, m₁, holds, hfin, hchain, ?_⟩
    rcases hend with ⟨htrue, hlooks, hmono, hanswers⟩ |
      ⟨hmono, ⟨-, hfalse, hlooks, hanswers⟩ | ⟨hagain, -⟩⟩
    · exact ⟨hlooks, .inl ⟨htrue, hmono, hanswers⟩⟩
    · exact ⟨hlooks, .inr ⟨hfalse, hmono, hanswers⟩⟩
    · cases hagain

/-- A notification 200 milliseconds into a wait for 300 quiet milliseconds, on a clock that cuts
its parks: the wait is over with `false` once 300 more have passed. -/
theorem quiet_period_of_notification : ∃ (m₀ m m' m₁ : ScriptMachine)
    (w : PredicateWait Script.code Tally) (hs₀ hs before : List (ScriptMachine × Cause)),
    Fresh m₀ ∧ History Script.code m₀ hs₀ m ∧ m.clockOf? w.condvar = some .boottime ∧
    w.Stands 0 0 m (.running (Policy.quiet (.ofMillis 300)).start {}) ∧
    History Script.code m hs m' ∧ told Script.code 0 hs = [200000000] ∧
    (∀ x ∈ hs, InStep .boottime 0 x.1 ∧ 0 ≤ x.1.mono + 0) ∧
    (∀ x ∈ hs, x.1.mono + (Duration.ofMillis 300).totalNanos ≤ lastInstant ∧
      x.1.mono + 0 + (Duration.ofMillis 300).totalNanos ≤ Time.max.totalNanos) ∧
    (∀ x ∈ hs, ∀ cv, x.1.condvars[w.condvar]? = some cv → cv.binding.conflict? 0 = none) ∧
    w.Finishes 0 0 m m' hs before m₁ (.ok false) ∧ m₁.mono = 500000000 := by
  obtain ⟨hs₀, history₀⟩ := exists_history_entry (.quiet (.ofMillis 300))
  obtain ⟨m', hs, history, htold, hall, hend⟩ :
      ∃ (m' : ScriptMachine) (hs : List (ScriptMachine × Cause)),
        History Script.code (entry (.quiet (.ofMillis 300))) hs m' ∧
        told Script.code 0 hs = [200000000] ∧ hs.all uneventful ∧ m'.mono = 600000000 := by
    have notified : History Script.code (entry (.quiet (.ofMillis 300))) _ _ :=
      history_notifiedAt 200000000 rfl rfl (by decide) rfl
    -- retakes the mutex, leaves, looks, and parks for a slice of the new period
    have again := (notified.trans (.of_course
      [.step 0, .step 0, .step 0, .step 0, .step 0, .step 0] rfl)).trans
        (.of_course [.step 0, .step 0] rfl)
    have sliced := again.trans (.of_course [.expire 0, .step 0, .step 0, .step 0] rfl)
    have ended := sliced.trans
      (.of_course [.expire 0, .step 0, .step 0, .step 0, .step 0, .step 0, .step 0] rfl)
    exact ⟨_, _, ended.snoc (timely_tick 600000000 rfl (by decide) rfl), rfl, rfl, rfl⟩
  have hquiet (x) (hx : x ∈ hs) := of_uneventful (List.all_eq_true.mp hall x hx)
  have hrange : ∀ x ∈ hs, x.1.mono + (Duration.ofMillis 300).totalNanos ≤ lastInstant ∧
      x.1.mono + 0 + (Duration.ofMillis 300).totalNanos ≤ Time.max.totalNanos := by
    intro x hx
    have hle := (hquiet x hx).2.1
    have hinstant : 1000000000 + (Duration.ofMillis 300).totalNanos ≤ lastInstant := by decide
    have htime : 1000000000 + (Duration.ofMillis 300).totalNanos ≤ Time.max.totalNanos := by decide
    omega
  let w := ofScript ((futile (.quiet (.ofMillis 300))).moveTo .fetching) (.quiet (.ofMillis 300))
    .never none
  have hentry := stands_entry (.quiet (.ofMillis 300))
  rcases quiet_period_of_run (World.fresh_start 0 0 0 0) history₀ rfl hentry history
      (fun x hx => (hquiet x hx).1) hrange (fun x hx => (hquiet x hx).2.2) with
    ⟨-, -, -, -, hle, -⟩ | ⟨before, m₁, holds, hfin, -, -, ⟨-, -, hanswers⟩ | ⟨rfl, hmono, -⟩⟩
  · -- the period was over 500 milliseconds in
    rw [htold, hend] at hle
    exact absurd hle (by decide)
  · have hmem : true ∈ w.answers {} ((looks Script.code 0 before).map (·.2)) :=
      hanswers ▸ List.mem_concat_self
    exact absurd hmem (not_mem_answers_never _ _ _ _ _)
  · refine ⟨_, _, m', m₁, w, hs₀, hs, before, World.fresh_start 0 0 0 0, history₀, rfl, hentry,
      history, htold, fun x hx => (hquiet x hx).1, hrange, fun x hx => (hquiet x hx).2.2, hfin, ?_⟩
    -- a wait that was over before the notification would have been over later than that
    have hpunctual := history₀.punctual (World.fresh_start 0 0 0 0).punctual
    obtain ⟨after, rfl, hbefore, hafter⟩ := hfin.split
    rw [told_append] at htold
    cases hearly : told Script.code 0 before with
    | nil =>
        rw [hearly] at hmono htold
        have hle := hafter.le_of_mem_told (hbefore.punctual hpunctual)
          (htold ▸ List.mem_singleton_self (200000000 : Int))
        rw [hmono] at hle
        exact absurd hle (by decide)
    | cons i is =>
        rw [hearly, List.cons_append, List.cons.injEq, List.append_eq_nil_iff] at htold
        obtain ⟨rfl, rfl, -⟩ := htold
        rw [hmono, hearly]
        rfl

/-- In every timely run, for every condition: a wait with a `timeout` looks at the state at its
start and at each notification that wakes it. It is over at the first of these looks at which the
condition holds, or else when the timeout has passed since its start, with what the condition is in
one more look there. All its waits are for one deadline, and no notification puts it off. -/
theorem fixed_deadline_of_run {timeout : Duration} (hfresh : Fresh m₀)
    (history₀ : History code m₀ hs₀ m) (hclock : m.clockOf? w.condvar = some clock)
    (hentry : w.Stands t mutex m (.running (Policy.within timeout).start memory))
    (history : History code m hs m')
    (hstep : ∀ x ∈ hs, InStep clock offset x.1 ∧ 0 ≤ x.1.mono + offset)
    (hinstant : m.mono + timeout.totalNanos ≤ lastInstant)
    (htime : m.mono + offset + timeout.totalNanos ≤ Time.max.totalNanos)
    (hfree : ∀ x ∈ hs, ∀ cv, x.1.condvars[w.condvar]? = some cv →
      cv.binding.conflict? mutex = none) :
    (w.Underway t mutex m' ∧
      w.answers memory ((looks code t hs).map (·.2)) =
        List.replicate (looks code t hs).length false ∧
      List.IsChain (fun i j : Int => i ≤ j ∧ j ≤ m.mono + timeout.totalNanos)
        (m.mono :: told code t hs) ∧
      (∀ d ∈ deadlines code t hs, ∃ deadline, d = some deadline ∧
        deadline.totalNanos = m.mono + offset + timeout.totalNanos) ∧
      ((looks code t hs).map (·.1) = m.mono :: told code t hs ∨
        (looks code t hs).map (·.1) ++ [m'.mono] = m.mono :: told code t hs) ∧
      m'.mono ≤ m.mono + timeout.totalNanos ∧
      (Settled code m' → (looks code t hs).map (·.1) = m.mono :: told code t hs ∧
        m'.mono < m.mono + timeout.totalNanos)) ∨
    ∃ before m₁ holds, w.Finishes t mutex m m' hs before m₁ (.ok holds) ∧
      List.IsChain (fun i j : Int => i ≤ j ∧ j ≤ m.mono + timeout.totalNanos)
        (m.mono :: told code t before) ∧
      (∀ d ∈ deadlines code t before, ∃ deadline, d = some deadline ∧
        deadline.totalNanos = m.mono + offset + timeout.totalNanos) ∧
      m₁.mono ≤ m.mono + timeout.totalNanos ∧
      (holds = true ∧ m₁.mono = (told code t before).getLastD m.mono ∧
          (looks code t before).map (·.1) = m.mono :: told code t before ∧
          w.answers memory ((looks code t before).map (·.2)) =
            List.replicate (told code t before).length false ++ [true] ∨
        m₁.mono = m.mono + timeout.totalNanos ∧
          (looks code t before).map (·.1) = m.mono :: told code t before ++ [m₁.mono] ∧
          w.answers memory ((looks code t before).map (·.2)) =
            List.replicate ((told code t before).length + 1) false ++ [holds]) := by
  let r : Terms := ⟨clock, offset, m.mono, fun _ => m.mono + timeout.totalNanos, true⟩
  have hpunctual := history₀.punctual hfresh.punctual
  have hsteady : ∀ x ∈ hs, r.Steady x.1 := by
    intro x hx
    obtain ⟨hin, hnonneg⟩ := hstep x hx
    refine ⟨hin, hnonneg, hinstant, ?_⟩
    change m.mono + timeout.totalNanos + offset ≤ _
    omega
  have hlaw : w.Law r memory t {} m (.running (Policy.within timeout).start memory) :=
    ⟨rfl, rfl, rfl, rfl, rfl, fun _ => rfl⟩
  -- the limit is the same for all looks
  have fixed {ds : List (Option Time)} {is : List Int} (h : ∀ d ∈ ds, ∃ deadline i,
      d = some deadline ∧ i ∈ is ∧ deadline.totalNanos = r.limit i + r.offset) :
      ∀ d ∈ ds, ∃ deadline, d = some deadline ∧
        deadline.totalNanos = m.mono + offset + timeout.totalNanos := by
    intro d hd
    obtain ⟨deadline, i, hdeadline, -, heq⟩ := h d hd
    refine ⟨deadline, hdeadline, ?_⟩
    change _ = m.mono + timeout.totalNanos + offset at heq
    omega
  rcases hlaw.follow hpunctual hclock hentry rfl history hsteady hfree with
    ⟨phase, hstands, hdone, h⟩ |
      ⟨before, m₁, result, hfin, hchain, hdeadlines, hle, holds, rfl, hend⟩
  · have hclock' : m'.clockOf? w.condvar = some r.clock :=
      history.invariant Timely.clockOf? hclock
    obtain ⟨hanswers, hchain, hdeadlines, hrest⟩ :=
      h.underway (history.punctual hpunctual) hclock' hstands hdone
    exact .inl ⟨⟨phase, hstands, hdone⟩, hanswers, hchain, fixed hdeadlines, hrest⟩
  · refine .inr ⟨before, m₁, holds, hfin, hchain, fixed hdeadlines, hle, ?_⟩
    rcases hend with hlook | ⟨hmono, ⟨hagain, -⟩ | ⟨-, hlooks, hanswers⟩⟩
    · exact .inl ⟨hlook.1, hlook.2.2.1, hlook.2.1, hlook.2.2.2⟩
    · cases hagain
    · exact .inr ⟨hmono, hlooks, hanswers⟩

/-- A notification 200 milliseconds into a wait with a timeout of 300: the wait is over when those
have passed. -/
theorem fixed_deadline_of_notification : ∃ (m₀ m m' m₁ : ScriptMachine)
    (w : PredicateWait Script.code Tally) (hs₀ hs before : List (ScriptMachine × Cause)),
    Fresh m₀ ∧ History Script.code m₀ hs₀ m ∧ m.clockOf? w.condvar = some .boottime ∧
    w.Stands 0 0 m (.running (Policy.within (.ofMillis 300)).start {}) ∧
    History Script.code m hs m' ∧ told Script.code 0 hs = [200000000] ∧
    (∀ x ∈ hs, InStep .boottime 0 x.1 ∧ 0 ≤ x.1.mono + 0) ∧
    m.mono + (Duration.ofMillis 300).totalNanos ≤ lastInstant ∧
    m.mono + 0 + (Duration.ofMillis 300).totalNanos ≤ Time.max.totalNanos ∧
    (∀ x ∈ hs, ∀ cv, x.1.condvars[w.condvar]? = some cv → cv.binding.conflict? 0 = none) ∧
    w.Finishes 0 0 m m' hs before m₁ (.ok false) ∧ m₁.mono = 300000000 := by
  obtain ⟨hs₀, history₀⟩ := exists_history_entry (.within (.ofMillis 300))
  obtain ⟨m', hs, history, htold, hall, hend⟩ :
      ∃ (m' : ScriptMachine) (hs : List (ScriptMachine × Cause)),
        History Script.code (entry (.within (.ofMillis 300))) hs m' ∧
        told Script.code 0 hs = [200000000] ∧ hs.all uneventful ∧ m'.mono = 600000000 := by
    have notified : History Script.code (entry (.within (.ofMillis 300))) _ _ :=
      history_notifiedAt 200000000 rfl rfl (by decide) rfl
    -- retakes the mutex, leaves, looks, and parks until the deadline
    have again := (notified.trans (.of_course
      [.step 0, .step 0, .step 0, .step 0, .step 0] rfl)).trans
        (.of_course [.step 0, .step 0] rfl)
    have ended := again.trans (.of_course
      [.expire 0, .step 0, .step 0, .step 0, .step 0, .step 0, .step 0, .step 0] rfl)
    exact ⟨_, _, ended.snoc (timely_tick 600000000 rfl (by decide) rfl), rfl, rfl, rfl⟩
  have hquiet (x) (hx : x ∈ hs) := of_uneventful (List.all_eq_true.mp hall x hx)
  let w := ofScript ((futile (.within (.ofMillis 300))).moveTo .fetching) (.within (.ofMillis 300))
    .never none
  have hentry := stands_entry (.within (.ofMillis 300))
  have hinstant : (0 : Int) + (Duration.ofMillis 300).totalNanos ≤ lastInstant := by decide
  have htime : (0 : Int) + 0 + (Duration.ofMillis 300).totalNanos ≤ Time.max.totalNanos := by decide
  rcases fixed_deadline_of_run (World.fresh_start 0 0 0 0) history₀ rfl hentry history
      (fun x hx => (hquiet x hx).1) hinstant htime (fun x hx => (hquiet x hx).2.2) with
    ⟨-, -, -, -, -, hle, -⟩ | ⟨before, m₁, holds, hfin, -, -, -, h⟩
  · rw [hend] at hle
    exact absurd hle (by decide)
  have hnever := not_mem_answers_never ((futile (.within (.ofMillis 300))).moveTo .fetching)
    (.within (.ofMillis 300)) none {} ((looks Script.code 0 before).map (·.2))
  rcases h with ⟨-, -, -, hanswers⟩ | ⟨hmono, -, hanswers⟩
  · exact absurd (hanswers ▸ List.mem_concat_self) hnever
  · obtain rfl : holds = false := by
      cases holds with
      | false => rfl
      | true => exact absurd (hanswers ▸ List.mem_concat_self) hnever
    exact ⟨_, _, m', m₁, w, hs₀, hs, before, World.fresh_start 0 0 0 0, history₀, rfl, hentry,
      history, htold, fun x hx => (hquiet x hx).1, hinstant, htime, fun x hx => (hquiet x hx).2.2,
      hfin, hmono⟩

end PredicateWait

end TimedCondvar
