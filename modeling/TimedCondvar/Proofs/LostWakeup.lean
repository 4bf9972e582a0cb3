import TimedCondvar.Proofs.Handoff

/-!
When a waiter sleeps through a change it was told of. A wait whose park ran out takes its mutex
again and may park again without a look at the condition: a park is cut to a slice if the clock is
not the park clock, and it may end ahead of any clock. A producer that comes in between changes the
state, notifies, and finds nobody; the waiter parks on a condition that holds, and nobody is left
to tell it. This is the only way, and every run that ends like that says so.
-/

namespace TimedCondvar

namespace Handoff

open Machine

variable {σ ε : Type}

/-- The last park of thread `t` ran out, and `t` has neither parked again nor returned. -/
def Lapsed (t : ThreadId) (es : List Event) : Prop :=
  ∃ before after, es = before ++ .expired t :: after ∧
    ∀ e ∈ after, e ≠ .parked t ∧ ∀ condvar how, e ≠ .returned t condvar how

/-- No notification, and thread `t` is still in the wait it was in. -/
def Unheard (t : ThreadId) (es : List Event) : Prop :=
  ∀ e ∈ es, (∀ condvar ts result, e ≠ .woke condvar ts result) ∧
    ∀ condvar how, e ≠ .returned t condvar how

/-- The last notification of the run found nobody, as it came after a park of thread `t` had run
out and before `t` parked again, and the condition held. -/
def Missed (h : Handoff σ) (t : ThreadId) (m₀ : Machine σ (Place σ) ε) (es : List Event)
    (m : Machine σ (Place σ) ε) : Prop :=
  ∃ (before after : List Event) (m₁ m₂ : Machine σ (Place σ) ε),
    es = before ++ .woke h.condvar [] .noWaiters :: after ∧
    Run (Own h.code) m₀ before m₁ ∧ Lapsed t before ∧ h.Holds m₁ ∧
    Own h.code m₁ (.woke h.condvar [] .noWaiters) m₂ ∧
    Run (Own h.code) m₂ after m ∧ Unheard t after

variable {h : Handoff σ} {m₀ m m' : Machine σ (Place σ) ε} {t : ThreadId}
  {th th' : Thread (Place σ)} {es : List Event} {e : Event} {s s' : Standing}

theorem Lapsed.snoc (hl : Lapsed t es) (hpark : e ≠ .parked t)
    (hreturn : ∀ condvar how, e ≠ .returned t condvar how) : Lapsed t (es ++ [e]) := by
  obtain ⟨before, after, rfl, hafter⟩ := hl
  refine ⟨before, after ++ [e], by simp, ?_⟩
  intro e' he'
  rcases List.mem_append.mp he' with he' | he'
  · exact hafter e' he'
  · obtain rfl := List.mem_singleton.mp he'
    exact ⟨hpark, hreturn⟩

theorem Missed.snoc (hm : Missed h t m₀ es m) (move : Own h.code m e m')
    (hwoke : ∀ condvar ts result, e ≠ .woke condvar ts result)
    (hreturn : ∀ condvar how, e ≠ .returned t condvar how) : Missed h t m₀ (es ++ [e]) m' := by
  obtain ⟨before, after, m₁, m₂, rfl, run₁, hl, hholds, hwake, run₂, hafter⟩ := hm
  refine ⟨before, after ++ [e], m₁, m₂, by simp, run₁, hl, hholds, hwake, run₂.snoc move, ?_⟩
  intro e' he'
  rcases List.mem_append.mp he' with he' | he'
  · exact hafter e' he'
  · obtain rfl := List.mem_singleton.mp he'
    exact ⟨hwoke, hreturn⟩

/-! ### What is known of the condition

The invariant goes by where the waiter stands. It does not park on a condition that holds but when
a notification is owed or was missed; and it can only miss one once its park ran out. -/

def Known (h : Handoff σ) (t : ThreadId) (m₀ : Machine σ (Place σ) ε) (es : List Event)
    (m : Machine σ (Place σ) ε) : Standing → Prop
  | .elsewhere => True
  | .decided => ¬h.Holds m
  | .awake => h.Holds m → Lapsed t es ∧ (Owed m ∨ Missed h t m₀ es m)
  | .queued => h.Holds m → Owed m ∨ Missed h t m₀ es m
  | .lapsed => Lapsed t es ∧ (h.Holds m → Owed m ∨ Missed h t m₀ es m)

theorem Holds.congr (hh : h.Holds m') (hstate : m'.state? h.mutex = m.state? h.mutex) :
    h.Holds m := by
  rw [Holds, ← hstate]
  exact hh

/-- What the waiter does itself keeps what is known. -/
theorem Known.turned (hk : Known h t m₀ es m s) (move : Own h.code m e m')
    (hstate : m'.state? h.mutex = m.state? h.mutex) (howed : Owed m → Owed m')
    (turned : Turned t (¬h.Holds m) e s s') : Known h t m₀ (es ++ [e]) m' s' := by
  -- what was owed or missed still is
  have told (hwoke : ∀ condvar ts result, e ≠ .woke condvar ts result)
      (hreturn : ∀ condvar how, e ≠ .returned t condvar how)
      (hold : h.Holds m → Owed m ∨ Missed h t m₀ es m) (hh : h.Holds m') :
      Owed m' ∨ Missed h t m₀ (es ++ [e]) m' :=
    (hold (hh.congr hstate)).imp howed fun hm => hm.snoc move hwoke hreturn
  cases turned with
  | away => trivial
  | decide _ hunmet => exact fun hh => hunmet (hh.congr hstate)
  | register => exact fun hh => absurd (hh.congr hstate) hk
  | park => exact told (by simp) (by simp) fun hh => (hk hh).2
  | expire => exact ⟨⟨es, [], rfl, by simp⟩, told (by simp) (by simp) hk⟩
  | retake =>
      obtain ⟨hl, hold⟩ := hk
      intro hh
      exact ⟨hl.snoc (by simp) (by simp), told (by simp) (by simp) hold hh⟩
  | stay _ haside =>
      have hwoke : ∀ condvar ts result, e ≠ .woke condvar ts result := by
        rintro condvar ts result rfl
        exact haside
      have hpark : e ≠ .parked t := by
        rintro rfl
        exact haside rfl
      have hreturn : ∀ condvar how, e ≠ .returned t condvar how := by
        rintro condvar how rfl
        exact haside rfl
      cases s with
      | elsewhere => trivial
      | decided => exact fun hh => hk (hh.congr hstate)
      | awake =>
          intro hh
          obtain ⟨hl, hold⟩ := hk (hh.congr hstate)
          exact ⟨hl.snoc hpark hreturn, told hwoke hreturn (fun _ => hold) hh⟩
      | queued => exact told hwoke hreturn hk
      | lapsed => exact ⟨hk.1.snoc hpark hreturn, told hwoke hreturn hk.2⟩

/-- Every move keeps what is known. A notification that finds nobody is the one that is missed. -/
theorem Known.own (hk : Known h t m₀ es m (m.standing t)) (run : Run (Own h.code) m₀ es m)
    (move : Own h.code m e m') (heffect : Effect h t m m' e) :
    Known h t m₀ (es ++ [e]) m' (m'.standing t) := by
  cases heffect with
  | still hstate howed turned => exact hk.turned move hstate howed turned
  | change howed hstay hfree =>
      rw [hstay]
      generalize m.standing t = s at hk hfree ⊢
      cases s with
      | elsewhere => trivial
      | decided => exact absurd rfl hfree.1
      | awake => exact absurd rfl hfree.2
      | queued => exact fun _ => .inl howed
      | lapsed => exact ⟨hk.1.snoc (by simp) (by simp), fun _ => .inl howed⟩
  | notify hstate hqueued hmissed =>
      by_cases hs : m.standing t = .queued
      · rw [hqueued hs]
        trivial
      obtain ⟨hstay, rfl⟩ := hmissed hs
      -- this is the notification that is missed, and it is the last one so far
      have missed (hl : Lapsed t es) (hh : h.Holds m') :
          Missed h t m₀ (es ++ [.woke h.condvar [] .noWaiters]) m' :=
        ⟨es, [], m, m', rfl, run, hl, hh.congr hstate, move, .nil, by simp [Unheard]⟩
      rw [hstay]
      generalize m.standing t = s at hk hs ⊢
      cases s with
      | elsewhere => trivial
      | decided => exact fun hh => hk (hh.congr hstate)
      | awake =>
          intro hh
          obtain ⟨hl, -⟩ := hk (hh.congr hstate)
          exact ⟨hl.snoc (by simp) (by simp), .inr (missed hl hh)⟩
      | queued => exact absurd rfl hs
      | lapsed =>
          obtain ⟨hl, -⟩ := hk
          exact ⟨hl.snoc (by simp) (by simp), fun hh => .inr (missed hl hh)⟩

theorem Start.known (hs : Start t m₀) (run : Run (Own h.code) m₀ es m) :
    Known h t m₀ es m (m.standing t) := by
  induction run with
  | nil =>
      obtain ⟨policy, ht⟩ := hs.waiter
      rw [standing_eq ht]
      trivial
  | snoc run move ih =>
      have hstaffed : Staffed h t _ := run.invariant Staffed.own hs.staffed
      exact ih.own run move (hstaffed.effect move)

/-- As long as nobody notifies, the state is as it was, or a notification is owed. -/
theorem Staffed.owed_or_same (hs : Staffed h t m) (run : Run (Own h.code) m es m')
    (hquiet : Unheard t es) : Owed m' ∨ m'.state? h.mutex = m.state? h.mutex := by
  induction run with
  | nil => exact .inr rfl
  | @snoc es e m₁ m₂ run move ih =>
      have hsame := ih fun e' he' => hquiet e' (List.mem_append_left _ he')
      have hlast := hquiet e (List.mem_append_right _ List.mem_cons_self)
      have hstaffed : Staffed h t m₁ := run.invariant Staffed.own hs
      cases hstaffed.effect move with
      | still hstate howed turned => exact hsame.imp howed hstate.trans
      | change howed hstay hfree => exact .inl howed
      | notify hstate hqueued hmissed => exact absurd rfl (hlast.1 _ _ _)

/-- What is missed leaves the condition true, unless another notification is owed. -/
theorem Missed.holds (hm : Missed h t m₀ es m) (hs : Start t m₀) (hnot : ¬Owed m) :
    h.Holds m := by
  obtain ⟨before, after, m₁, m₂, -, run₁, -, hholds, hwake, run₂, hquiet⟩ := hm
  have hstaffed₁ : Staffed h t m₁ := run₁.invariant Staffed.own hs.staffed
  have hstate : m₂.state? h.mutex = m₁.state? h.mutex := by
    cases hstaffed₁.effect hwake with
    | still hstate howed turned => exact hstate
    | notify hstate hqueued hmissed => exact hstate
  have hsame := ((hstaffed₁.own hwake).owed_or_same run₂ hquiet).resolve_left hnot
  exact hholds.congr (hstate.symm.trans hsame.symm)

/-- A waiter whose park ran out parks again if its clock leaves it time, whatever the condition. -/
theorem parks_again {policy : Policy} {deadline : Option Time} {timer : Timer} {p p' : Park}
    (ht : m.threads[t]? =
      some (h.waiting policy deadline (.woken false (some (timer, p)))))
    (hfree : m.holder? h.mutex = some none)
    (hpass : (timer.expired p).pass (m.clocks.now m.mono timer.clock) = .park p') :
    ∃ es' m', Run (Own h.code) m es' m' ∧ m'.state? h.mutex = m.state? h.mutex ∧
      m'.threads = m.threads.set t
        (h.waiting policy deadline (.queued (some (timer.expired p, p')))) := by
  obtain ⟨x, hx, hnone⟩ := Option.map_eq_some_iff.mp hfree
  have hset {m₁ : Machine σ (Place σ) ε} {stage : Stage}
      (hthreads : m₁.threads = m.threads.set t (h.waiting policy deadline stage)) :
      m₁.threads[t]? = some (h.waiting policy deadline stage) := by
    rw [hthreads, getElem?_set_self_of_getElem? ht]
  -- it takes the mutex, reads its clock and parks
  obtain ⟨m₁, step₁, hthreads₁, hstate₁, hclocks, hmono⟩ :
      ∃ m₁, m.step h.code t = some m₁ ∧
        m₁.threads = m.threads.set t (h.waiting policy deadline (.reading (timer.expired p))) ∧
        m₁.state? h.mutex = m.state? h.mutex ∧ m₁.clocks = m.clocks ∧ m₁.mono = m.mono :=
    ⟨_, step_of_woken ht rfl rfl hx hnone, rfl, state?_of_taken hx rfl _, rfl, rfl⟩
  obtain ⟨m₂, step₂, hthreads₂, hstate₂⟩ :
      ∃ m₂, m₁.step h.code t = some m₂ ∧
        m₂.threads = m₁.threads.set t
          (h.waiting policy deadline (.parking (some (timer.expired p, p')))) ∧
        m₂.state? h.mutex = m₁.state? h.mutex := by
    refine ⟨_, step_of_reading (hset hthreads₁) rfl, ?_, rfl⟩
    rw [hclocks, hmono, show (timer.expired p).clock = timer.clock from rfl, hpass]
    rfl
  rw [hthreads₁, List.set_set] at hthreads₂
  obtain ⟨m₃, step₃, hthreads₃, hstate₃⟩ :
      ∃ m₃, m₂.step h.code t = some m₃ ∧
        m₃.threads = m₂.threads.set t
          (h.waiting policy deadline (.queued (some (timer.expired p, p')))) ∧
        m₃.state? h.mutex = m₂.state? h.mutex :=
    ⟨_, step_of_parking (hset hthreads₂) rfl rfl, rfl, state?_of_free rfl _⟩
  rw [hthreads₂, List.set_set] at hthreads₃
  have run := ((Run.nil.snoc (Own.step step₁)).snoc (.step step₂)).snoc (.step step₃)
  exact ⟨_, m₃, run, hstate₃.trans (hstate₂.trans hstate₁), hthreads₃⟩

/-- A step of the waiter leaves it to others to owe. -/
theorem Owed.of_waiter_set (hw : Waiter h th') (ht : m.threads[t]? = some th)
    (hset : m'.threads = m.threads.set t th') (ho : Owed m') : Owed m := by
  have ht' : m'.threads[t]? = some th' := by
    rw [hset, getElem?_set_self_of_getElem? ht]
  have hback : m.threads = m'.threads.set t th := by
    obtain ⟨hlt, rfl⟩ := List.getElem?_eq_some_iff.mp ht
    rw [hset, List.set_set, List.set_getElem_self]
  refine ho.set ht' hback fun howes => ?_
  rw [hw.not_owes] at howes
  cases howes

/-- A waiter is queued although its condition holds and nobody owes it a notification: this comes
about just where the last notification was missed. And from every state in which one is missed it
does come about if the waiter takes its mutex next and its clock leaves it time. -/
theorem slept_through_iff (hs : Start t m₀) (run : Run (Own h.code) m₀ es m) :
    (t ∈ m.queue h.condvar → (h.Holds m ∧ ¬Owed m ↔ Missed h t m₀ es m ∧ ¬Owed m)) ∧
    ∀ {policy : Policy} {deadline : Option Time} {timer : Timer} {p p' : Park},
      m.threads[t]? = some (h.waiting policy deadline (.woken false (some (timer, p)))) →
      m.holder? h.mutex = some none →
      (timer.expired p).pass (m.clocks.now m.mono timer.clock) = .park p' →
      Missed h t m₀ es m → ¬Owed m →
      ∃ es' m', Run (Own h.code) m es' m' ∧ t ∈ m'.queue h.condvar ∧ h.Holds m' ∧ ¬Owed m' := by
  have hstaffed : Staffed h t m := run.invariant Staffed.own hs.staffed
  constructor
  · intro hq
    have hstand : m.standing t = .queued := (hstaffed.crew.queued_iff hstaffed.parking).mpr hq
    refine and_congr_left fun hnot => ⟨fun hholds => ?_, fun hmissed => hmissed.holds hs hnot⟩
    have hknown := hs.known run
    rw [hstand] at hknown
    exact (hknown hholds).resolve_left hnot
  · intro policy deadline timer p p' ht hfree hpass hmissed hnot
    obtain ⟨es', m', run', hstate, hset⟩ := parks_again ht hfree hpass
    have hstaffed' : Staffed h t m' := run'.invariant Staffed.own hstaffed
    have ht' : m'.threads[t]? =
        some (h.waiting policy deadline (.queued (some (timer.expired p, p')))) := by
      rw [hset, getElem?_set_of_getElem? ht, if_pos rfl]
    refine ⟨es', m', run', ?_, (hmissed.holds hs hnot).congr hstate.symm, fun ho => ?_⟩
    · rw [← hstaffed'.crew.queued_iff hstaffed'.parking, standing_eq ht']
      rfl
    · exact hnot (ho.of_waiter_set (hstaffed'.crew.waiter ht') ht hset)

/-- A flag behind a mutex. -/
def flag : Handoff Bool := ⟨0, 0, id⟩

/-- A thread about to wait two seconds for the flag, on a clock that is not the park clock, and a
producer about to set it and to notify once it has given the mutex up. -/
def flagMachine : Machine Bool (Place Bool) Empty where
  mono := 0
  clocks := ⟨⟨0, 0, 1, 1, none⟩, ⟨0, 0, 1, 1, none⟩, ⟨0, 0, 1, 1, none⟩, ⟨0, 0, 1, 1, none⟩⟩
  mutexes := [{ state := false }]
  condvars := [{ clock := .boottime }]
  threads :=
    [{ control := .running (.arriving (.within (.ofMillis 2000))) },
      { control := .running (.idle [⟨fun _ => true, false, false⟩]) }]

theorem start_flagMachine : Start 0 flagMachine where
  fresh :=
    { threads := by
        intro th hth
        simp only [flagMachine, List.mem_cons, List.not_mem_nil, or_false] at hth
        rcases hth with rfl | rfl <;> exact ⟨⟨_, rfl⟩, rfl⟩
      parked := rfl
      condvars := by simp [flagMachine]
      mutexes := by simp [flagMachine] }
  waiter := ⟨_, rfl⟩
  producers {u th} hut hu := by
    match u with
    | 0 => exact absurd rfl hut
    | 1 =>
        cases hu
        exact ⟨_, rfl⟩
    | _ + 2 => cases hu

/-- The first slice of the wait runs out, the producer sets the flag and finds nobody, and the
waiter parks for the next slice. -/
theorem slept_through_of_slice :
    ∃ (es es' : List Event) (m m' : Machine Bool (Place Bool) Empty),
      Start 0 flagMachine ∧ Run (Own flag.code) flagMachine es m ∧
      Missed flag 0 flagMachine es m ∧ ¬Owed m ∧
      Run (Own flag.code) m es' m' ∧ 0 ∈ m'.queue flag.condvar ∧
      flag.Holds m' ∧ ¬Owed m' ∧ Missed flag 0 flagMachine (es ++ es') m' := by
  have hstart := start_flagMachine
  obtain ⟨es, m₁, m, policy, deadline, timer, p, p', run₁, hl, hholds, hwake, hnot, ht, hfree,
      hpass⟩ :
      ∃ (es : List Event) (m₁ m : Machine Bool (Place Bool) Empty) (policy : Policy)
        (deadline : Option Time) (timer : Timer) (p p' : Park),
        Run (Own flag.code) flagMachine es m₁ ∧ Lapsed 0 es ∧ flag.Holds m₁ ∧
        Own flag.code m₁ (.woke flag.condvar [] .noWaiters) m ∧ ¬Owed m ∧
        m.threads[0]? =
          some (flag.waiting policy deadline (.woken false (some (timer, p)))) ∧
        m.holder? flag.mutex = some none ∧
        (timer.expired p).pass (m.clocks.now m.mono timer.clock) = .park p' := by
    refine ⟨_, _, _, _, _, _, _, _, Run.of_play [.step 0, .step 0, .step 0, .step 0, .step 0,
      .step 0, .step 0, .expire 0, .step 1, .step 1, .step 1] rfl,
      ⟨[.silent, .silent, .silent, .silent, .silent, .read 0 _, .parked 0],
        [.silent, .silent, .silent], rfl, by simp⟩,
      ⟨true, rfl, rfl⟩, own_of_take (.step 1) rfl, ?_, rfl, rfl, rfl⟩
    rintro ⟨u, th, hu, howes⟩
    match u with
    | 0 | 1 =>
        cases hu
        cases howes
    | _ + 2 => cases hu
  have run := run₁.snoc hwake
  have hmissed : Missed flag 0 flagMachine _ m :=
    ⟨es, [], m₁, m, rfl, run₁, hl, hholds, hwake, .nil, by simp [Unheard]⟩
  obtain ⟨es', m', run', hq, hholds', hnot'⟩ :=
    (slept_through_iff hstart run).2 ht hfree hpass hmissed hnot
  have hmissed' := (((slept_through_iff hstart (run.trans run')).1 hq).mp ⟨hholds', hnot'⟩).1
  exact ⟨_, es', m, m', hstart, run, hmissed, hnot, run', hq, hholds', hnot', hmissed'⟩

end Handoff

end TimedCondvar
