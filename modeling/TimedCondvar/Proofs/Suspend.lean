import TimedCondvar.Proofs.Distances
import TimedCondvar.Proofs.Timely

/-!
Deadlines that pass while the system is suspended. The park clock stands still then, so a wait may
find its own clock far ahead when it is next awake. On any clock but the park clock a wait sleeps a
slice at a time. However its clock jumps, it is over one slice after the clock has gone past the
deadline for good.
-/

namespace TimedCondvar

namespace Machine

variable {σ κ ε : Type} {code : κ → Command σ κ ε} {m m' : Machine σ κ ε} {t : ThreadId}
  {clock : Clock} {deadline : Time} {condvar : CondvarId} {stage stage' : Stage} {e : Event}
  {limit : Int}

/-! ### Slice by slice -/

/-- A wait that parks a slice at a time. Its park ends within a slice, unless that is out of
range. -/
def Sliced (t : ThreadId) (clock : Clock) (deadline : Time) (m : Machine σ κ ε) : Stage → Prop
  | .reading timer | .woken _ (some (timer, _)) => timer.IsFor clock deadline
  | .parking (some (timer, p)) => timer.IsFor clock deadline ∧ p.length ≤ parkSlice
  | .queued (some (timer, _)) => timer.IsFor clock deadline ∧
      (m.mono + parkSlice.totalNanos ≤ lastInstant →
        ∃ u, m.ParkedUntil t (some u) ∧ u ≤ m.mono + parkSlice.totalNanos)
  | .leaving _ => True
  | _ => False

theorem Sliced.pass {timer : Timer} (hclock : clock ≠ .monotonic)
    (h : timer.IsFor clock deadline) (reading : Except ClockError Time) :
    Sliced t clock deadline m (.ofPass timer (timer.pass reading)) := by
  cases hpass : timer.pass reading with
  | park p =>
      obtain ⟨now, -, -, rfl⟩ := Timer.exists_park_of_pass hpass
      exact ⟨h, Clock.park_length_le (h.1 ▸ hclock)⟩
  | finish how => trivial

/-- Where a park ends that is entered now, for a slice at most. -/
theorem wakeAt_within_slice {length : Duration} (hle : length ≤ parkSlice)
    (hrange : m.mono + parkSlice.totalNanos ≤ lastInstant) :
    ∃ u, m.wakeAt length = some u ∧ u ≤ m.mono + parkSlice.totalNanos := by
  have hlength : length.totalNanos ≤ parkSlice.totalNanos := hle
  exact ⟨m.mono + length.totalNanos, if_pos (by omega), by omega⟩

theorem Sliced.goes (hclock : clock ≠ .monotonic) (hgoes : Goes t condvar m m' e stage stage')
    (h : Sliced t clock deadline m stage) : Sliced t clock deadline m' stage' := by
  cases hgoes with
  | stay hc hq hmono =>
      match stage, h with
      | .reading _, h | .woken _ (some _), h | .parking (some _), h | .leaving _, h => exact h
      | .queued (some timed), _ => exact absurd rfl (hq _)
  | rest timed hc hmono hpark =>
      match timed, h with
      | some (timer, p), h =>
          refine ⟨h.1, fun hrange => ?_⟩
          obtain ⟨u, hu, hle⟩ := h.2 (by omega)
          exact ⟨u, hpark _ hu, by omega⟩
  | read timer hmono => exact Sliced.pass hclock h _
  | park timed hmono hpark =>
      match timed, h with
      | some (timer, p), h =>
          refine ⟨h.1, fun hrange => ?_⟩
          rw [hmono] at hrange ⊢
          obtain ⟨u, hu, hle⟩ := wakeAt_within_slice h.2 hrange
          exact ⟨u, hu ▸ hpark, hle⟩
  | notified timed result ht hmono =>
      match timed, h with
      | some (timer, p), h => exact h.1
  | expired timed hpark => exact h.1
  | retake notified timed hmono =>
      match notified, timed, h with
      | true, some _, _ => trivial
      | false, some _, h => exact h

/-! ### Past the deadline

Now every reading up to `limit` has reached the deadline. A park that was entered before has its end
in sight, and there is none after it. -/

/-- A wait that does not park again. `left` is the end it may have had in hand at first. -/
def Overdue (t : ThreadId) (clock : Clock) (deadline : Time) (limit : Int)
    (left : WaitEnd → Prop) (m : Machine σ κ ε) : Stage → Prop
  | .reading timer | .woken false (some (timer, _)) =>
      timer.IsFor clock deadline ∧ m.mono ≤ limit
  | .parking (some (timer, p)) => timer.IsFor clock deadline ∧
      m.mono + p.length.totalNanos ≤ limit
  | .queued (some (timer, _)) => timer.IsFor clock deadline ∧
      ∃ u, m.ParkedUntil t (some u) ∧ u ≤ limit
  | .woken true (some _) => m.mono ≤ limit
  | .leaving how => m.mono ≤ limit ∧
      (left how ∨ how = .notified ∨ ∃ now, how = .timedOut deadline now ∧ deadline ≤ now)
  | _ => False

/-- One slice is enough for a wait to know that it is overdue. -/
theorem Sliced.overdue (hstage : Sliced t clock deadline m stage)
    (hrange : m.mono + parkSlice.totalNanos ≤ lastInstant) :
    Overdue t clock deadline (m.mono + parkSlice.totalNanos) (stage = .leaving ·) m stage := by
  match stage, hstage with
  | .reading _, h | .woken false (some _), h => exact ⟨h, by omega⟩
  | .parking (some (timer, p)), h =>
      have hlength : p.length.totalNanos ≤ parkSlice.totalNanos := h.2
      exact ⟨h.1, by omega⟩
  | .queued (some _), h => exact ⟨h.1, h.2 hrange⟩
  | .woken true (some _), _ => exact Int.le_add_of_nonneg_right (Int.natCast_nonneg _)
  | .leaving _, _ => exact ⟨by omega, .inl rfl⟩

theorem Overdue.goes {left : WaitEnd → Prop} (hpunctual : Punctual m)
    (hrange : limit ≤ lastInstant)
    (hpast : m.mono ≤ limit → ∃ now, m.clocks.now m.mono clock = .ok now ∧ deadline ≤ now)
    (hgoes : Goes t condvar m m' e stage stage')
    (h : Overdue t clock deadline limit left m stage) :
    Overdue t clock deadline limit left m' stage' := by
  cases hgoes with
  | stay hc hq hmono =>
      match stage, h with
      | .reading _, h | .woken false (some _), h | .parking (some _), h | .woken true (some _), h
      | .leaving _, h =>
          simp only [Overdue, hmono]
          exact h
      | .queued (some timed), _ => exact absurd rfl (hq _)
  | rest timed hc hmono hpark =>
      cases timed with
      | none => cases h
      | some timed =>
          obtain ⟨htimer, u, hu, hle⟩ := h
          exact ⟨htimer, u, hpark _ hu, hle⟩
  | read timer hmono =>
      obtain ⟨⟨rfl, rfl⟩, hle⟩ := h
      obtain ⟨now, hnow, hlate⟩ := hpast hle
      rw [hnow, Timer.pass, if_pos hlate]
      exact ⟨hmono ▸ hle, .inr (.inr ⟨now, rfl, hlate⟩)⟩
  | park timed hmono hpark =>
      cases timed with
      | none => cases h
      | some timed =>
          obtain ⟨timer, p⟩ := timed
          refine ⟨h.1, m.mono + p.length.totalNanos, ?_, h.2⟩
          have hend : m.wakeAt p.length = some (m.mono + p.length.totalNanos) :=
            if_pos (Int.le_trans h.2 hrange)
          exact hend ▸ hpark
  | notified timed result ht hmono =>
      cases timed with
      | none => cases h
      | some timed =>
          obtain ⟨-, u, ⟨q, hq⟩, hle⟩ := h
          have hcurrent : m.mono ≤ u := hpunctual.current hq rfl
          exact Int.le_trans (Int.le_of_eq hmono) (Int.le_trans hcurrent hle)
  | expired timed hpark =>
      obtain ⟨htimer, u, hu, hle⟩ := h
      cases hpunctual.sound.parking.parkedUntil_unique hu hpark
      exact ⟨htimer, hle⟩
  | retake notified timed hmono =>
      cases timed with
      | none => cases notified <;> cases h
      | some timed =>
          cases notified with
          | true => exact ⟨Int.le_trans (Int.le_of_eq hmono) h, .inr (.inl rfl)⟩
          | false => exact ⟨h.1, Int.le_trans (Int.le_of_eq hmono) h.2⟩

section

variable {call : Call κ} {left : WaitEnd → Prop}

theorem Overdue.within (h : Overdue t clock deadline limit left m stage) :
    Within t limit m stage := by
  match stage, h with
  | .reading _, h | .woken false (some _), h => exact h.2
  | .parking (some (timer, p)), h =>
      have hle := h.2
      exact Int.le_trans (by omega) hle
  | .queued (some _), h => exact h.2
  | .woken true (some _), h => exact h
  | .leaving _, h => exact h.1

/-- In every timely run, whatever is done to the clocks: once the clock of a sliced wait stays past
the deadline, the wait returns within one slice of the park clock. It returns with a time-out unless
a notification comes first, or its end was in hand already. -/
theorem noticed_within_slice {m₀ m₁ m₂ : Machine σ κ ε} {hs₀ hs₁ hs : List (Machine σ κ ε × Cause)}
    {cv : Condvar} (hfresh : Fresh m₀) (history₀ : History code m₀ hs₀ m₁)
    (hregisters : Registers code t call cv m₁ m₂) (hclock : cv.clock ≠ .monotonic)
    (hdeadline : call.deadline = some deadline) (history₁ : History code m₂ hs₁ m)
    (hinside : Underway code t call hs₁ m stage) (history : History code m hs m')
    (hrange : m.mono + parkSlice.totalNanos ≤ lastInstant)
    (hpast : ∀ x ∈ hs, x.1.mono ≤ m.mono + parkSlice.totalNanos →
      ∃ now, x.1.clocks.now x.1.mono cv.clock = .ok now ∧ deadline ≤ now) :
    (∃ stage', Underway code t call hs m' stage' ∧
      m'.mono ≤ m.mono + parkSlice.totalNanos ∧
      (Settled code m' → m'.mono < m.mono + parkSlice.totalNanos)) ∨
    ∃ before m₃ how, Returns code t call hs before m₃ how ∧
      m₃.mono ≤ m.mono + parkSlice.totalNanos ∧
      told code t (hs₁ ++ before) = (if how = .notified then [m₃.mono] else []) ∧
      (how = .notified ∨ (∃ now, how = .timedOut deadline now ∧ deadline ≤ now) ∨
        stage = .leaving how) := by
  have h₂ : Punctual m₂ := hregisters.punctual (history₀.punctual hfresh.punctual)
  have ht₂ := hregisters.registered
  rw [hdeadline] at ht₂
  -- up to `m` nothing is known of the clock
  obtain ⟨hreg, hsliced, htold₁⟩ := history₁.underway (P := fun _ => True)
    (I := fun m _ => Sliced t cv.clock deadline m) h₂ ht₂
    (registered_ne_entering _ _) (fun _ _ => trivial) ⟨rfl, rfl⟩
    (fun _ _ _ hgoes h => h.goes hclock hgoes) hinside
  -- from there on the wait is overdue
  rcases history.follow
    (I := fun m _ => Overdue t cv.clock deadline _ (stage = .leaving ·) m)
    (history₁.punctual h₂) hinside.thread hreg hpast (hsliced.overdue hrange)
    (fun hm _ hpast hgoes h => h.goes hm hrange hpast hgoes) with
    ⟨stage', hway, hreg', hover, -⟩ | ⟨before, m₃, how, hret, hover, htold⟩
  · refine .inl ⟨stage', hway, hover.within.mono_le (history.punctual (history₁.punctual h₂)), ?_⟩
    exact hover.within.lt_of_settled hway.thread hreg'
  · refine .inr ⟨before, m₃, how, hret, hover.1, ?_, ?_⟩
    · have hdue : told code t (hs₁ ++ before) = m₃.due (.leaving how) := by
        rw [told_append, ← htold, ← htold₁]
        rfl
      rw [hdue, due]
      simp only [Stage.notified_leaving_iff]
    · rcases hover.2 with hleft | hnotified | htimedOut
      · exact .inr (.inr hleft)
      · exact .inl hnotified
      · exact .inr (.inl htimedOut)

end

/-- A script that waits on the boot clock until ten seconds. -/
def longWait : Script.Place :=
  { condvar := 0, clock := .boottime, mutex := 0
    rest := [{ operation := .waitUntil (Time.new 10 0) }] }

/-- A clock that was set an hour ahead when the park clock stood at 100 milliseconds. -/
def hourAhead : Clocks :=
  (World.start 0 0 0 0).machine.clocks.modify (·.jump 100000000 3600000000000) .boottime

/-- The script parks for its first slice. Then the system is suspended for an hour, which the park
clock does not see. The wait has timed out when the slice is over. -/
theorem noticed_within_slice_of_jump : ∃ (m₀ m₁ m₂ m m' : ScriptMachine)
    (hs₀ hs₁ hs before : List (ScriptMachine × Cause)) (call : Call Script.Place) (cv : Condvar)
    (stage : Stage), Fresh m₀ ∧ History Script.code m₀ hs₀ m₁ ∧
    Registers Script.code 0 call cv m₁ m₂ ∧ cv.clock = .boottime ∧
    call.deadline = some (Time.new 10 0) ∧ History Script.code m₂ hs₁ m ∧
    Underway Script.code 0 call hs₁ m stage ∧ m.mono = 100000000 ∧ History Script.code m hs m' ∧
    (∀ x ∈ hs, x.1.mono ≤ m.mono + parkSlice.totalNanos →
      ∃ now, x.1.clocks.now x.1.mono cv.clock = .ok now ∧ Time.new 10 0 ≤ now) ∧
    ∃ m₃ how, Returns Script.code 0 call hs before m₃ how ∧ m₃.mono ≤ 350000000 ∧
      how.result = .ok .timedOut := by
  have hfresh := World.fresh_start 0 0 0 0
  have spawned : History Script.code (World.start 0 0 0 0).machine _ _ :=
    (History.nil.snoc (.act (.bind none .boottime))).snoc (.act (.spawn longWait))
  -- locks and waits
  have waits := spawned.trans (.of_course [.step 0, .step 0] rfl)
  obtain ⟨m₁, m₂, m, m', hs₀, hs₁, hs, call, cv, timed, history₀, hregisters, hclock, hdeadline,
      history₁, hinside, hmono, history, hquiet, hpast, hover⟩ :
      ∃ (m₁ m₂ m m' : ScriptMachine) (hs₀ hs₁ hs : List (ScriptMachine × Cause))
        (call : Call Script.Place) (cv : Condvar) (timed : Option (Timer × Park)),
        History Script.code (World.start 0 0 0 0).machine hs₀ m₁ ∧
        Registers Script.code 0 call cv m₁ m₂ ∧ cv.clock = .boottime ∧
        call.deadline = some (Time.new 10 0) ∧ History Script.code m₂ hs₁ m ∧
        Underway Script.code 0 call hs₁ m (.queued timed) ∧ m.mono = 100000000 ∧
        History Script.code m hs m' ∧ told Script.code 0 (hs₁ ++ hs) = [] ∧
        (∀ x ∈ hs, x.1.mono ≤ m.mono + parkSlice.totalNanos →
          ∃ now, x.1.clocks.now x.1.mono cv.clock = .ok now ∧ Time.new 10 0 ≤ now) ∧
        ∀ stage, m'.threads[0]? ≠ some (call.thread stage) := by
    refine ⟨_, _, _, _, _, _, _, ⟨0, some (Time.new 10 0), _, 0⟩, ⟨.boottime, {}⟩, _, waits,
      ⟨rfl, rfl, rfl, rfl⟩, rfl, rfl,
      ((History.of_course [.step 0, .step 0] rfl).snoc
        (timely_tick 100000000 rfl (by decide) rfl)).snoc (.clocks hourAhead),
      ⟨rfl, ?_⟩, rfl, .of_course [.expire 0, .step 0, .step 0, .step 0] rfl, rfl, ?_, ?_⟩
    · intro condvar how
      nofun
    · have late {x : ScriptMachine × Cause} {l : Int} {now : Time}
          (hnow : x.1.clocks.now x.1.mono .boottime = .ok now) (hle : Time.new 10 0 ≤ now) :
          x.1.mono ≤ l →
            ∃ now, x.1.clocks.now x.1.mono .boottime = .ok now ∧ Time.new 10 0 ≤ now :=
        fun _ => ⟨now, hnow, hle⟩
      exact List.forall_mem_cons.mpr ⟨late rfl (by decide), List.forall_mem_cons.mpr
        ⟨late rfl (by decide), List.forall_mem_cons.mpr ⟨late rfl (by decide),
          List.forall_mem_singleton.mpr (late rfl (by decide))⟩⟩⟩
    · intro stage
      nofun
  rcases noticed_within_slice hfresh history₀ hregisters (hclock ▸ nofun) hdeadline history₁ hinside
    history (hmono ▸ by decide) hpast with
    ⟨stage, hway, -⟩ | ⟨before, m₃, how, hret, hle, htold, hnotified | ⟨now, htimedOut, -⟩ | hleft⟩
  · exact absurd hway.thread (hover stage)
  · -- no notification woke the thread
    obtain ⟨after, rfl⟩ := hret.move
    rw [← List.append_assoc, told_append, htold, if_pos hnotified] at hquiet
    cases hquiet
  · rw [hmono, totalNanos_parkSlice] at hle
    exact ⟨_, m₁, m₂, m, m', hs₀, hs₁, hs, before, call, cv, _, hfresh, history₀, hregisters,
      hclock, hdeadline, history₁, hinside, hmono, history, hpast, m₃, how, hret, hle,
      by rw [htimedOut]; rfl⟩
  · cases hleft

end Machine

end TimedCondvar
