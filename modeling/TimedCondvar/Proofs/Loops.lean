import Mathlib.Data.List.Basic
import TimedCondvar.Machine.PredicateWait

/-!
Predicate waits over any primitive. Nothing is known of the primitive here: its clock may read
anything and fail at any time, and a wait may end as it likes and leave any state behind the mutex.
Nor is anything known of the condition, which may change the state it looks at. What the loops do
of themselves is in `Law`, place by place; what their callers are told follows for every primitive.
-/

namespace TimedCondvar

namespace Policy

/-- What a predicate wait did: it evaluated its condition, or had an answer from the primitive. -/
inductive Deed (σ : Type)
  | evaluate (holds : Bool) (before after : σ)
  | read (reading : Except SyncError Time)
  | wait (deadline : Option Time) (result : Except SyncError WaitStatus) (before after : σ)

variable {σ μ : Type}

/-- The error that the primitive answered with. -/
def Deed.failure? : Deed σ → Option SyncError
  | .read (.error e) | .wait _ (.error e) _ _ => some e
  | _ => none

/-- What the condition was evaluated to. -/
def answers (ds : List (Deed σ)) : List Bool :=
  ds.filterMap fun
    | .evaluate holds _ _ => some holds
    | _ => none

def readings (ds : List (Deed σ)) : List (Except SyncError Time) :=
  ds.filterMap fun
    | .read reading => some reading
    | _ => none

/-- The waits, each with its deadline and its result. -/
def waits (ds : List (Deed σ)) : List (Option Time × Except SyncError WaitStatus) :=
  ds.filterMap fun
    | .wait deadline result _ _ => some (deadline, result)
    | _ => none

/-- The state as the last wait left it, or as it was at first. -/
def leftBy (s : σ) (ds : List (Deed σ)) : σ :=
  ds.foldl (fun s d =>
    match d with
    | .wait _ _ _ after => after
    | _ => s) s

/-- The deadline of the waits, once the clock was read if it has to be. -/
def limit : Policy → List (Except SyncError Time) → Option Time
  | .upTo deadline, _ => some deadline
  | .within timeout, [.ok now] => some (now.saturatingAdd timeout)
  | _, _ => none

/-! ### Runs

The commands are those that a thread in a predicate wait does. -/

/-- A predicate wait on its own. Its places are its states, with what the condition remembers. -/
def alone (eval : μ → σ → Bool × μ × σ) : State × μ → Command σ (State × μ) Empty
  | (state, memory) => state.command 0 (eval memory) memory Prod.mk fun _ => .stop

/-- One command and what comes of it. A wait without a deadline cannot tell of one. -/
inductive Step (eval : μ → σ → Bool × μ × σ) :
    State × μ → σ → Deed σ → State × μ → σ → Prop
  | evaluate {place place' : State × μ} {s s' : σ} {f : σ → σ × State × μ} {holds : Bool}
      (hcommand : alone eval place = .access f) (heval : (eval place.2 s).1 = holds)
      (hnext : f s = (s', place')) :
      Step eval place s (.evaluate holds s s') place' s'
  | read {place place' : State × μ} {s : σ} {next : Except SyncError Time → State × μ}
      {reading : Except SyncError Time} (hcommand : alone eval place = .read 0 next)
      (hnext : next reading = place') :
      Step eval place s (.read reading) place' s
  | wait {place place' : State × μ} {s s' : σ} {deadline : Option Time}
      {next : Except SyncError WaitStatus → State × μ} {result : Except SyncError WaitStatus}
      (hcommand : alone eval place = .wait 0 deadline next)
      (hend : deadline = none → result ≠ .ok .timedOut) (hnext : next result = place') :
      Step eval place s (.wait deadline result s s') place' s'

/-- Commands one after the other, with what was done. -/
inductive Runs (eval : μ → σ → Bool × μ × σ) (place : State × μ) (s : σ) :
    List (Deed σ) → State × μ → σ → Prop
  | nil : Runs eval place s [] place s
  | snoc {ds : List (Deed σ)} {d : Deed σ} {place' place'' : State × μ} {s' s'' : σ}
      (run : Runs eval place s ds place' s') (step : Step eval place' s' d place'' s'') :
      Runs eval place s (ds ++ [d]) place'' s''

/-! ### What is known in each state -/

/-- The policy that the loop follows after these readings. -/
inductive Current : Policy → List (Except SyncError Time) → Policy → Prop
  | forever : Current .forever [] .forever
  | upTo (deadline : Time) : Current (.upTo deadline) [] (.upTo deadline)
  | within (timeout : Duration) (now : Time) :
      Current (.within timeout) [.ok now] (.upTo (now.saturatingAdd timeout))

/-- All waits came back with a wake-up, and none ran out. -/
def Signaled (ds : List (Deed σ)) : Prop :=
  ∀ w ∈ waits ds, w.2 = .ok .signaled

/-- The last wait ran out, and all before it came back with a wake-up. -/
def RanOut (ds : List (Deed σ)) : Prop :=
  ∃ earlier w, waits ds = earlier ++ [w] ∧ w.2 = .ok .timedOut ∧
    ∀ w' ∈ earlier, w'.2 = .ok .signaled

def Smooth (ds : List (Deed σ)) : Prop := ∀ d ∈ ds, d.failure? = none

/-- The last thing done was to evaluate the condition, on the state as the last wait left it. -/
def EndsWith (holds : Bool) (s₀ : σ) (ds : List (Deed σ)) (s : σ) : Prop :=
  ∃ earlier before, ds = earlier ++ [.evaluate holds before s] ∧ before = leftBy s₀ earlier

/-- The last thing done failed with `e`, and nothing had failed before. -/
def FailsWith (e : SyncError) (ds : List (Deed σ)) : Prop :=
  ∃ earlier d, ds = earlier ++ [d] ∧ d.failure? = some e ∧ Smooth earlier

/-- All waits were for the one deadline of the policy, and came after the reading that it takes. -/
def SameDeadline (p : Policy) (ds : List (Deed σ)) : Prop :=
  ∀ w ∈ waits ds, w.1 = p.limit (readings ds) ∧ ∃ q, Current p (readings ds) q

/-- What was done, by the state that the loop is in. Each wait follows an evaluation, and so does
its result. -/
def Law (p : Policy) (s₀ : σ) (ds : List (Deed σ)) (s : σ) : State → Prop
  | .check q => Current p (readings ds) q ∧ s = leftBy s₀ ds ∧ Smooth ds ∧ Signaled ds ∧
      (answers ds).length = (waits ds).length
  | .arm q interval => p = .within interval ∧ q = p ∧ ds = [] ∧ s = s₀
  | .block q deadline => Current p (readings ds) q ∧ deadline = p.limit (readings ds) ∧
      Smooth ds ∧ Signaled ds ∧ (answers ds).length = (waits ds).length + 1
  | .recheck => p ≠ .forever ∧ s = leftBy s₀ ds ∧ RanOut ds ∧
      (answers ds).length = (waits ds).length
  | .done (.ok holds) => EndsWith holds s₀ ds s ∧ (answers ds).length = (waits ds).length + 1 ∧
      (holds = true ∧ Signaled ds ∨ p ≠ .forever ∧ RanOut ds)
  | .done (.error e) => FailsWith e ds ∧ (answers ds).length = (waits ds).length ∧
      (.read (.error e) ∈ ds → ds = [.read (.error e)])

variable {eval : μ → σ → Bool × μ × σ} {p q : Policy} {s₀ s s' : σ} {ds : List (Deed σ)}
  {d : Deed σ} {place place' : State × μ} {memory memory' : μ}

section Concat

variable (ds) (holds : Bool) (reading : Except SyncError Time) (deadline : Option Time)
  (result : Except SyncError WaitStatus) (s₀ s s' : σ)

@[simp] theorem answers_concat_evaluate :
    answers (ds ++ [.evaluate holds s s']) = answers ds ++ [holds] := by
  simp [answers]

@[simp] theorem waits_concat_evaluate : waits (ds ++ [.evaluate holds s s']) = waits ds := by
  simp [waits]

@[simp] theorem readings_concat_evaluate :
    readings (ds ++ [.evaluate holds s s']) = readings ds := by
  simp [readings]

@[simp] theorem answers_concat_wait :
    answers (ds ++ [.wait deadline result s s']) = answers ds := by
  simp [answers]

@[simp] theorem waits_concat_wait :
    waits (ds ++ [.wait deadline result s s']) = waits ds ++ [(deadline, result)] := by
  simp [waits]

@[simp] theorem readings_concat_wait :
    readings (ds ++ [.wait deadline result s s']) = readings ds := by
  simp [readings]

@[simp] theorem leftBy_concat_wait :
    leftBy s₀ (ds ++ [.wait deadline result s s']) = s' := by
  simp [leftBy]

end Concat

theorem Smooth.concat (h : Smooth ds) (hd : d.failure? = none) : Smooth (ds ++ [d]) := by
  intro d' hd'
  rcases List.mem_append.mp hd' with hd' | hd'
  · exact h d' hd'
  · obtain rfl := List.mem_singleton.mp hd'
    exact hd

theorem Signaled.concat (h : Signaled ds) (deadline : Option Time) (s s' : σ) :
    Signaled (ds ++ [.wait deadline (.ok .signaled) s s']) := by
  intro w hw
  rw [waits_concat_wait] at hw
  rcases List.mem_append.mp hw with hw | hw
  · exact h w hw
  · obtain rfl := List.mem_singleton.mp hw
    rfl

theorem Signaled.ranOut (h : Signaled ds) (deadline : Option Time) (s s' : σ) :
    RanOut (ds ++ [.wait deadline (.ok .timedOut) s s']) :=
  ⟨waits ds, _, waits_concat_wait .., rfl, h⟩

theorem not_mem_of_smooth (h : Smooth ds) (e : SyncError) : .read (.error e) ∉ ds := by
  intro hmem
  have hnone := h _ hmem
  cases hnone

/-- A condition that does not hold is waited for, until the deadline of the policy. -/
theorem Current.checked (h : Current p (readings ds) q) :
    q.checked false = .block q (p.limit (readings ds)) := by
  generalize readings ds = rs at h
  cases h <;> rfl

theorem law_start (hp : ∀ delay, p ≠ .quiet delay) (s : σ) : Law p s [] s p.start := by
  have hsmooth : Smooth ([] : List (Deed σ)) := fun d hd => absurd hd List.not_mem_nil
  have hsignaled : Signaled ([] : List (Deed σ)) := fun w hw => absurd hw List.not_mem_nil
  cases p with
  | forever => exact ⟨.forever, rfl, hsmooth, hsignaled, rfl⟩
  | upTo deadline => exact ⟨.upTo deadline, rfl, hsmooth, hsignaled, rfl⟩
  | within timeout => exact ⟨rfl, rfl, rfl, rfl⟩
  | quiet delay => exact absurd rfl (hp delay)

theorem Law.evaluate_check {holds : Bool} (h : Law p s₀ ds s (.check q)) (s' : σ) :
    Law p s₀ (ds ++ [.evaluate holds s s']) s' (q.checked holds) := by
  obtain ⟨hcurrent, hs, hsmooth, hsignaled, hcount⟩ := h
  cases holds with
  | true =>
      refine ⟨⟨ds, s, rfl, hs⟩, ?_, .inl ⟨rfl, ?_⟩⟩
      · simp [hcount]
      · simpa [Signaled] using hsignaled
  | false =>
      rw [hcurrent.checked]
      refine ⟨?_, ?_, hsmooth.concat rfl, ?_, ?_⟩
      · simpa using hcurrent
      · simp
      · simpa [Signaled] using hsignaled
      · simp [hcount]

theorem Law.evaluate_recheck (h : Law p s₀ ds s .recheck) (holds : Bool) (s' : σ) :
    Law p s₀ (ds ++ [.evaluate holds s s']) s' (.done (.ok holds)) := by
  obtain ⟨hp, hs, hran, hcount⟩ := h
  refine ⟨⟨ds, s, rfl, hs⟩, ?_, .inr ⟨hp, ?_⟩⟩
  · simp [hcount]
  · simpa [RanOut] using hran

theorem Law.read {interval : Duration} (h : Law p s₀ ds s (.arm q interval))
    (reading : Except SyncError Time) :
    Law p s₀ (ds ++ [.read reading]) s (q.armed interval reading) := by
  obtain ⟨rfl, rfl, rfl, rfl⟩ := h
  cases reading with
  | error e =>
      refine ⟨⟨[], _, rfl, rfl, fun d hd => absurd hd List.not_mem_nil⟩, rfl, fun _ => rfl⟩
  | ok now =>
      refine ⟨.within interval now, rfl, ?_, fun w hw => absurd hw List.not_mem_nil, rfl⟩
      intro d hd
      obtain rfl := List.mem_singleton.mp hd
      rfl

theorem Law.wait {deadline : Option Time} (h : Law p s₀ ds s (.block q deadline))
    {result : Except SyncError WaitStatus} (hend : deadline = none → result ≠ .ok .timedOut)
    (s' : σ) : Law p s₀ (ds ++ [.wait deadline result s s']) s' (q.returned result) := by
  obtain ⟨hcurrent, hdeadline, hsmooth, hsignaled, hcount⟩ := h
  match result with
  | .error e =>
      refine ⟨⟨ds, _, rfl, rfl, hsmooth⟩, ?_, fun hmem => ?_⟩
      · simp [hcount]
      · -- the clock had not failed, and this was a wait
        rcases List.mem_append.mp hmem with hmem | hmem
        · exact absurd hmem (not_mem_of_smooth hsmooth e)
        · cases List.mem_singleton.mp hmem
  | .ok .signaled =>
      refine ⟨?_, ?_, hsmooth.concat rfl, hsignaled.concat deadline s s', ?_⟩
      · simpa using hcurrent
      · simp
      · simp [hcount]
  | .ok .timedOut =>
      -- only a wait with a deadline runs out, and the loop looks again then
      have hq : q.returned (.ok .timedOut) = .recheck ∧ p ≠ .forever := by
        generalize readings ds = rs at hcurrent hdeadline
        cases hcurrent with
        | forever => exact absurd rfl (hend hdeadline)
        | upTo deadline => exact ⟨rfl, nofun⟩
        | within timeout now => exact ⟨rfl, nofun⟩
      rw [hq.1]
      refine ⟨hq.2, ?_, hsignaled.ranOut deadline s s', ?_⟩
      · simp
      · simp [hcount]

theorem Law.next (h : Law p s₀ ds s place.1) (step : Step eval place s d place' s') :
    Law p s₀ (ds ++ [d]) s' place'.1 := by
  obtain ⟨state, memory⟩ := place
  cases step with
  | evaluate hcommand heval hnext =>
      cases state with
      | check q =>
          cases hcommand
          cases hnext
          subst heval
          exact Law.evaluate_check h _
      | recheck =>
          cases hcommand
          cases hnext
          subst heval
          exact Law.evaluate_recheck h _ _
      | _ => cases hcommand
  | read hcommand hnext =>
      cases state with
      | arm q interval =>
          cases hcommand
          subst hnext
          exact Law.read h _
      | _ => cases hcommand
  | wait hcommand hend hnext =>
      cases state with
      | block q deadline =>
          cases hcommand
          subst hnext
          exact Law.wait h hend s'
      | _ => cases hcommand

theorem SameDeadline.next (hsame : SameDeadline p ds) (h : Law p s₀ ds s place.1)
    (step : Step eval place s d place' s') : SameDeadline p (ds ++ [d]) := by
  obtain ⟨state, memory⟩ := place
  cases step with
  | evaluate => simpa [SameDeadline] using hsame
  | read hcommand =>
      cases state with
      | arm q interval =>
          obtain ⟨-, -, rfl, -⟩ := h
          exact fun w hw => absurd hw List.not_mem_nil
      | _ => cases hcommand
  | wait hcommand =>
      cases state with
      | block q deadline =>
          cases hcommand
          obtain ⟨hcurrent, hdeadline, -⟩ := h
          intro w hw
          rw [waits_concat_wait] at hw
          rw [readings_concat_wait]
          rcases List.mem_append.mp hw with hw | hw
          · exact hsame w hw
          · obtain rfl := List.mem_singleton.mp hw
            exact ⟨hdeadline, q, hcurrent⟩
      | _ => cases hcommand

theorem law_of_runs (hp : ∀ delay, p ≠ .quiet delay)
    (runs : Runs eval (p.start, memory) s₀ ds place s) :
    Law p s₀ ds s place.1 ∧ SameDeadline p ds := by
  induction runs with
  | nil => exact ⟨law_start hp s₀, fun w hw => absurd hw List.not_mem_nil⟩
  | snoc _ step ih => exact ⟨ih.1.next step, ih.2.next ih.1 step⟩

/-! ### What the caller is told -/

/-- For every primitive and every condition: a predicate wait that is not for a quiet period and
comes back with a value has that value from its last evaluation, which looked at the state that the
last wait left and was the last thing done. It is `false` only when the last wait ran out, and no
wait before the last one did. An error is the one that the primitive answered with, at once. All
waits of a call are for the same deadline. -/
theorem loop_reports (hp : ∀ delay, p ≠ .quiet delay) {result : Except SyncError Bool}
    (runs : Runs eval (p.start, memory) s₀ ds (.done result, memory') s) :
    (∀ w ∈ waits ds, w.1 = p.limit (readings ds) ∧
      ∀ timeout, p = .within timeout → ∃ now, readings ds = [.ok now]) ∧
    match result with
    | .ok holds =>
        EndsWith holds s₀ ds s ∧ (answers ds).length = (waits ds).length + 1 ∧
          (holds = true ∧ Signaled ds ∨ p ≠ .forever ∧ RanOut ds)
    | .error e =>
        FailsWith e ds ∧ (answers ds).length = (waits ds).length ∧
          (.read (.error e) ∈ ds → ds = [.read (.error e)]) := by
  obtain ⟨hlaw, hsame⟩ := law_of_runs hp runs
  constructor
  · intro w hw
    obtain ⟨hdeadline, q, hcurrent⟩ := hsame w hw
    refine ⟨hdeadline, ?_⟩
    rintro timeout rfl
    generalize readings ds = rs at hcurrent
    cases hcurrent with
    | within timeout now => exact ⟨now, rfl⟩
  · cases result with
    | ok holds => exact hlaw
    | error e => exact hlaw

/-- Takes what is there, and holds when three have been taken in all. -/
def gather (taken s : Nat) : Bool × Nat × Nat := (decide (3 ≤ taken + s), taken + s, 0)

/-- The last one comes while the second wait runs out. -/
def takenInTime (deadline : Time) : List (Deed Nat) :=
  [.read (.ok .zero), .evaluate false 1 0, .wait (some deadline) (.ok .signaled) 0 1,
    .evaluate false 1 0, .wait (some deadline) (.ok .timedOut) 0 1, .evaluate true 1 0]

theorem loop_reports_taken_in_time :
    let timeout := Duration.ofMillis 300
    let deadline := Time.zero.saturatingAdd timeout
    let ds := takenInTime deadline
    Runs gather ((Policy.within timeout).start, 0) 1 ds (.done (.ok true), 3) 0 ∧
      (∀ w ∈ waits ds, w.1 = some deadline) ∧ EndsWith true 1 ds 0 ∧
      (answers ds).length = (waits ds).length + 1 ∧ RanOut ds := by
  intro timeout deadline ds
  have armed : Step gather (.arm (.within timeout) timeout, 0) 1 (.read (.ok .zero))
      (.check (.upTo deadline), 0) 1 := .read rfl rfl
  have looked : Step gather (.check (.upTo deadline), 0) 1 (.evaluate false 1 0)
      (.block (.upTo deadline) (some deadline), 1) 0 := .evaluate rfl rfl rfl
  have woken : Step gather (.block (.upTo deadline) (some deadline), 1) 0
      (.wait (some deadline) (.ok .signaled) 0 1) (.check (.upTo deadline), 1) 1 :=
    .wait rfl nofun rfl
  have again : Step gather (.check (.upTo deadline), 1) 1 (.evaluate false 1 0)
      (.block (.upTo deadline) (some deadline), 2) 0 := .evaluate rfl rfl rfl
  have ran : Step gather (.block (.upTo deadline) (some deadline), 2) 0
      (.wait (some deadline) (.ok .timedOut) 0 1) (.recheck, 2) 1 := .wait rfl nofun rfl
  have last : Step gather (.recheck, 2) 1 (.evaluate true 1 0) (.done (.ok true), 3) 0 :=
    .evaluate rfl rfl rfl
  have runs : Runs gather ((Policy.within timeout).start, 0) 1 ds
      (.done (.ok true), 3) 0 :=
    (((((Runs.nil.snoc armed).snoc looked).snoc woken).snoc again).snoc ran).snoc last
  have notQuiet : ∀ delay, Policy.within timeout ≠ .quiet delay := nofun
  obtain ⟨hwaits, hend, hcount, hlast⟩ := loop_reports notQuiet runs
  refine ⟨runs, fun w hw => (hwaits w hw).1, hend, hcount, ?_⟩
  rcases hlast with ⟨-, hsignaled⟩ | ⟨-, hran⟩
  · cases hsignaled (some deadline, .ok .timedOut) (.tail _ (.head _))
  · exact hran

end Policy

end TimedCondvar
