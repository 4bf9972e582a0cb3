import Mathlib.Data.List.Chain
import TimedCondvar.Proofs.PredicateWaits
import TimedCondvar.Proofs.Slices

/-!
The rounds of a predicate wait whose clock goes along with the park clock. A round is a look at the
guarded state and a wait behind it. The wait of a round is over when a notification comes or its
deadline does, and both lead on at once. So the looks of a predicate wait are its start and the
notifications that wake it, and each of them falls in the time that the one before it left.
-/

namespace TimedCondvar

open Machine

variable {σ κ ε μ : Type} {code : κ → Command σ κ ε} {m m' : Machine σ κ ε} {t : ThreadId}
  {mutex : MutexId} {c : Cause}

/-- What a history shows of a predicate wait. -/
structure Account (σ : Type) where
  looks : List (Int × σ) := []
  told : List Int := []
  deadlines : List (Option Time) := []

/-- The account of thread `t` in a history. -/
def account (code : κ → Command σ κ ε) (t : ThreadId) (hs : List (Machine σ κ ε × Cause)) :
    Account σ :=
  ⟨looks code t hs, told code t hs, deadlines code t hs⟩

/-- The terms of a predicate wait on a clock that is `offset` ahead of the park clock: it begins at
`start`, a look at an instant leaves it time until the limit, and when that runs out, the condition
may be evaluated again. -/
structure Terms where
  clock : Clock
  offset : Int
  start : Int
  limit : Int → Int
  again : Bool

/-- The policy of a predicate wait that has its deadline, or makes one after each look. -/
inductive Terms.Fit (r : Terms) : Policy → Prop
  | upTo {deadline : Time} (hlimit : ∀ i, r.limit i = deadline.totalNanos - r.offset)
      (hagain : r.again = true) : Fit r (.upTo deadline)
  | quiet {delay : Duration} (hlimit : ∀ i, r.limit i = i + delay.totalNanos)
      (hagain : r.again = false) : Fit r (.quiet delay)

/-- The clock can be read and goes along, and the limit is a time on both clocks. -/
structure Terms.Steady (r : Terms) (m : Machine σ κ ε) : Prop where
  inStep : InStep r.clock r.offset m
  nonneg : 0 ≤ m.mono + r.offset
  instant_le : r.limit m.mono ≤ lastInstant
  time_le : r.limit m.mono + r.offset ≤ Time.max.totalNanos

/-- A later look leaves no less time. -/
theorem Terms.Fit.mono {r : Terms} {policy : Policy} (h : r.Fit policy) {i j : Int} (hij : i ≤ j) :
    r.limit i ≤ r.limit j := by
  cases h with
  | upTo hlimit => exact Int.le_of_eq ((hlimit i).trans (hlimit j).symm)
  | quiet hlimit =>
      rw [hlimit, hlimit]
      omega

theorem Terms.Fit.le_limit {r : Terms} {policy : Policy} (h : r.Fit policy) {i j : Int}
    (hj : j ≤ r.limit i) : j ≤ r.limit j := by
  cases h with
  | upTo hlimit =>
      rw [hlimit] at hj ⊢
      exact hj
  | quiet hlimit =>
      rw [hlimit]
      omega

namespace PredicateWait

variable (w : PredicateWait code μ)

/-- What the condition evaluates to on one state after the other. -/
def answers : μ → List σ → List Bool
  | _, [] => []
  | memory, s :: ss => (w.eval memory s).1 :: answers (w.eval memory s).2.1 ss

/-- What the condition remembers of these states. -/
def remembered : μ → List σ → μ
  | memory, [] => memory
  | memory, s :: ss => remembered (w.eval memory s).2.1 ss

theorem answers_concat (memory : μ) (ss : List σ) (s : σ) : w.answers memory (ss ++ [s]) =
    w.answers memory ss ++ [(w.eval (w.remembered memory ss) s).1] := by
  induction ss generalizing memory with
  | nil => rfl
  | cons s' ss ih => rw [List.cons_append, answers, ih, answers, remembered, List.cons_append]

theorem remembered_concat (memory : μ) (ss : List σ) (s : σ) : w.remembered memory (ss ++ [s]) =
    (w.eval (w.remembered memory ss) s).2.1 := by
  induction ss generalizing memory with
  | nil => rfl
  | cons s' ss ih => rw [List.cons_append, remembered, ih, remembered]

/-- What holds of a predicate wait that goes on: its condition was false at all looks, and each
notification came in the time that was left. -/
structure Kept (r : Terms) (memory₀ : μ) (a : Account σ) (memory : μ) : Prop where
  memory_eq : memory = w.remembered memory₀ (a.looks.map (·.2))
  answers_eq : w.answers memory₀ (a.looks.map (·.2)) = List.replicate a.looks.length false
  chain : List.IsChain (fun i j => i ≤ j ∧ j ≤ r.limit i) (r.start :: a.told)
  deadlines : ∀ d ∈ a.deadlines, ∃ deadline i, d = some deadline ∧ i ∈ r.start :: a.told ∧
    deadline.totalNanos = r.limit i + r.offset

end PredicateWait

/-! ### One round -/

theorem getLast?_cons_eq (i : Int) (told : List Int) :
    (i :: told).getLast? = some (told.getLastD i) := by
  rw [List.getLast?_cons, List.getLastD_eq_getLast?]

theorem getLastD_mem (i : Int) (told : List Int) : told.getLastD i ∈ i :: told :=
  List.mem_of_getLast? (getLast?_cons_eq i told)

theorem getLastD_of_append {i j : Int} {is told : List Int} (h : is ++ [j] = i :: told) :
    told.getLastD i = j := by
  have hlast := getLast?_cons_eq i told
  rw [← h, List.getLast?_concat] at hlast
  cases hlast
  rfl

/-- The wait of a round: it was begun after a look at the latest instant in `told`, and what woke it
since then is what it has to return with. -/
structure Terms.Blocked (r : Terms) (t : ThreadId) (a : Account σ) (told : List Int)
    (deadline : Time) (m : Machine σ κ ε) (stage : Stage) : Prop where
  looks_eq : a.looks.map (·.1) = r.start :: told
  told_eq : a.told = told ++ m.due stage
  deadline_eq : deadline.totalNanos = r.limit (told.getLastD r.start) + r.offset
  le : told.getLastD r.start ≤ m.mono
  le_limit : told.getLastD r.start ≤ r.limit (told.getLastD r.start)
  course : stage = .entering ∧ m.mono = told.getLastD r.start ∨
    ∃ es, (Plan.startingAt (told.getLastD r.start) r.clock deadline r.offset).OnTime t m es stage

namespace Terms.Blocked

variable {r : Terms} {a : Account σ} {told : List Int} {deadline : Time} {stage stage' : Stage}
  {condvar : CondvarId} {e : Event}

/-- The wait of a round runs until the limit of the look before it. -/
theorem limit_eq (h : r.Blocked t a told deadline m stage) :
    (Plan.startingAt (told.getLastD r.start) r.clock deadline r.offset).limit =
      r.limit (told.getLastD r.start) := by
  have hle := h.le_limit
  have heq := h.deadline_eq
  change max _ (deadline.totalNanos - r.offset) = _
  omega

theorem goes {policy : Policy} {new : List Int} (h : r.Blocked t a told deadline m stage)
    (hfit : r.Fit policy) (hpunctual : Punctual m) (hm : Timely code m c m')
    (hsteady : r.Steady m) (hgoes : Goes t condvar m m' e stage stage') (hreg : stage' ≠ .entering)
    (hdue : m'.due stage' = m.due stage ++ new) :
    r.Blocked t { a with told := a.told ++ new } told deadline m' stage' where
  looks_eq := h.looks_eq
  told_eq := by rw [hdue, h.told_eq, List.append_assoc]
  deadline_eq := h.deadline_eq
  le := Int.le_trans h.le (hpunctual.mono_le hm)
  le_limit := h.le_limit
  course := by
    rcases h.course with ⟨rfl, -⟩ | ⟨es, hcourse⟩
    · cases hgoes
      exact absurd rfl hreg
    · have hrange : deadline.totalNanos - r.offset ≤ lastInstant := by
        have hlimit := Int.le_trans (hfit.mono h.le) hsteady.instant_le
        have heq := h.deadline_eq
        omega
      exact .inr ⟨_, hcourse.goes hrange (Int.le_max_right ..) hpunctual hsteady.inStep hgoes⟩

/-- Nobody is late for the limit. -/
theorem mono_le (h : r.Blocked t a told deadline m stage) (hpunctual : Punctual m) :
    m.mono ≤ r.limit (told.getLastD r.start) := by
  rcases h.course with ⟨-, hstart⟩ | ⟨es, hcourse⟩
  · exact hstart ▸ h.le_limit
  · exact h.limit_eq ▸ hcourse.within.mono_le hpunctual

end Terms.Blocked

namespace PredicateWait

variable (w : PredicateWait code μ)

/-- How a predicate wait that has its result came by it. -/
def Outcome (r : Terms) (memory₀ : μ) (a : Account σ) (m : Machine σ κ ε)
    (result : Except SyncError Bool) : Prop :=
  List.IsChain (fun i j => i ≤ j ∧ j ≤ r.limit i) (r.start :: a.told) ∧
  (∀ d ∈ a.deadlines, ∃ deadline i, d = some deadline ∧ i ∈ r.start :: a.told ∧
    deadline.totalNanos = r.limit i + r.offset) ∧
  m.mono ≤ r.limit (a.told.getLastD r.start) ∧
  ∃ holds, result = .ok holds ∧
    (holds = true ∧ a.looks.map (·.1) = r.start :: a.told ∧ m.mono = a.told.getLastD r.start ∧
        w.answers memory₀ (a.looks.map (·.2)) = List.replicate a.told.length false ++ [true] ∨
      m.mono = r.limit (a.told.getLastD r.start) ∧
        (r.again = false ∧ holds = false ∧ a.looks.map (·.1) = r.start :: a.told ∧
            w.answers memory₀ (a.looks.map (·.2)) = List.replicate (a.told.length + 1) false ∨
          r.again = true ∧ a.looks.map (·.1) = r.start :: a.told ++ [m.mono] ∧
            w.answers memory₀ (a.looks.map (·.2)) =
              List.replicate (a.told.length + 1) false ++ [holds]))

/-- What a predicate wait keeps to, phase by phase. -/
def Law (r : Terms) (memory₀ : μ) (t : ThreadId) (a : Account σ) (m : Machine σ κ ε) :
    Phase μ → Prop
  | .running (.check policy) memory => w.Kept r memory₀ a memory ∧ r.Fit policy ∧
      a.looks.map (·.1) ++ [m.mono] = r.start :: a.told ∧ m.mono ≤ r.limit m.mono
  | .running (.arm (.within timeout) interval) memory => a = {} ∧ memory = memory₀ ∧
      m.mono = r.start ∧ interval = timeout ∧ r.again = true ∧
      ∀ i, r.limit i = r.start + timeout.totalNanos
  | .running (.arm policy interval) memory => w.Kept r memory₀ a memory ∧ r.Fit policy ∧
      policy = .quiet interval ∧ a.looks.map (·.1) = r.start :: a.told ∧
      m.mono = a.told.getLastD r.start
  | .running (.block policy deadline) memory => w.Kept r memory₀ a memory ∧ r.Fit policy ∧
      a.looks.map (·.1) = r.start :: a.told ∧ m.mono = a.told.getLastD r.start ∧
      m.mono ≤ r.limit m.mono ∧
      ∃ time, deadline = some time ∧ time.totalNanos = r.limit m.mono + r.offset
  | .waiting policy deadline stage memory => w.Kept r memory₀ a memory ∧ r.Fit policy ∧
      ∃ time told, deadline = some time ∧ r.Blocked t a told time m stage
  | .running .recheck memory => w.Kept r memory₀ a memory ∧ r.again = true ∧
      a.looks.map (·.1) = r.start :: a.told ∧ m.mono = r.limit (a.told.getLastD r.start)
  | .running (.done result) _ => w.Outcome r memory₀ a m result

variable {w} {r : Terms} {memory₀ memory : μ} {a : Account σ} {policy : Policy} {told : List Int}

/-! ### What is kept -/

theorem Kept.tell (h : w.Kept r memory₀ a memory) {i : Int} (hle : a.told.getLastD r.start ≤ i)
    (hlimit : i ≤ r.limit (a.told.getLastD r.start)) :
    w.Kept r memory₀ { a with told := a.told ++ [i] } memory where
  memory_eq := h.memory_eq
  answers_eq := h.answers_eq
  chain := by
    rw [← List.cons_append, List.isChain_append]
    refine ⟨h.chain, List.isChain_singleton i, fun j hj k hk => ?_⟩
    rw [getLast?_cons_eq] at hj
    cases hj
    cases hk
    exact ⟨hle, hlimit⟩
  deadlines d hd := by
    obtain ⟨deadline, j, rfl, hj, heq⟩ := h.deadlines d hd
    exact ⟨deadline, j, rfl, List.mem_append_left [i] hj, heq⟩

theorem Kept.block (h : w.Kept r memory₀ a memory) {deadline : Time} {i : Int}
    (hi : i ∈ r.start :: a.told) (heq : deadline.totalNanos = r.limit i + r.offset) :
    w.Kept r memory₀ { a with deadlines := a.deadlines ++ [some deadline] } memory where
  memory_eq := h.memory_eq
  answers_eq := h.answers_eq
  chain := h.chain
  deadlines d hd := by
    rcases List.mem_append.mp hd with hd | hd
    · exact h.deadlines d hd
    · exact ⟨deadline, i, List.mem_singleton.mp hd, hi, heq⟩

theorem Kept.answers_look (h : w.Kept r memory₀ a memory) (i : Int) (s : σ) :
    w.answers memory₀ ((a.looks ++ [(i, s)]).map (·.2)) =
      List.replicate a.looks.length false ++ [(w.eval memory s).1] := by
  rw [List.map_append, List.map_singleton, answers_concat, h.answers_eq, ← h.memory_eq]

theorem Kept.look (h : w.Kept r memory₀ a memory) (i : Int) {s : σ}
    (hs : (w.eval memory s).1 = false) :
    w.Kept r memory₀ { a with looks := a.looks ++ [(i, s)] } (w.eval memory s).2.1 where
  memory_eq := by
    rw [List.map_append, List.map_singleton, remembered_concat, ← h.memory_eq]
  answers_eq := by
    rw [h.answers_look, hs, List.length_append, List.length_singleton, List.replicate_succ']
  chain := h.chain
  deadlines := h.deadlines

/-! ### The moves of the loop -/

theorem Law.check (h : w.Law r memory₀ t a m (.running (.check policy) memory)) (s : σ)
    (hmono : m'.mono = m.mono) :
    w.Law r memory₀ t { a with looks := a.looks ++ [(m.mono, s)] } m'
      (.running (policy.checked (w.eval memory s).1) (w.eval memory s).2.1) := by
  obtain ⟨hkept, hfit, hlooks, hle⟩ := h
  have hlooked : (a.looks ++ [(m.mono, s)]).map (·.1) = r.start :: a.told := by
    rw [List.map_append, ← hlooks, List.map_singleton]
  have hlast := getLastD_of_append hlooks
  cases hs : (w.eval memory s).1 with
  | true =>
      have hlength : a.looks.length = a.told.length := by
        simpa using congrArg List.length hlooks
      refine ⟨hkept.chain, hkept.deadlines, ?_, true, rfl, .inl ⟨rfl, hlooked, ?_, ?_⟩⟩
      · rw [hmono, hlast]
        exact hle
      · rw [hmono, hlast]
      · rw [hkept.answers_look, hs, hlength]
  | false =>
      have hkept' := hkept.look m.mono hs
      cases hfit with
      | @upTo deadline hlimit hagain =>
          refine ⟨hkept', .upTo hlimit hagain, hlooked, ?_, hmono ▸ hle, deadline, rfl, ?_⟩
          · rw [hmono, hlast]
          · rw [hlimit]
            omega
      | quiet hlimit hagain =>
          exact ⟨hkept', .quiet hlimit hagain, rfl, hlooked, hmono.trans hlast.symm⟩

theorem Law.recheck (h : w.Law r memory₀ t a m (.running .recheck memory)) (s : σ)
    (hmono : m'.mono = m.mono) :
    w.Law r memory₀ t { a with looks := a.looks ++ [(m.mono, s)] } m'
      (.running (.done (.ok (w.eval memory s).1)) (w.eval memory s).2.1) := by
  obtain ⟨hkept, hagain, hlooks, hlimit⟩ := h
  have hlength : a.looks.length = a.told.length + 1 := by
    simpa using congrArg List.length hlooks
  have hend := hmono.trans hlimit
  refine ⟨hkept.chain, hkept.deadlines, Int.le_of_eq hend, _, rfl,
    .inr ⟨hend, .inr ⟨hagain, ?_, ?_⟩⟩⟩
  · rw [List.map_append, hlooks, List.map_singleton, hmono]
  · rw [hkept.answers_look, hlength]

theorem Law.arm {interval : Duration}
    (h : w.Law r memory₀ t a m (.running (.arm policy interval) memory)) (hsteady : r.Steady m)
    (hmono : m'.mono = m.mono) :
    w.Law r memory₀ t a m' (.running (policy.armed interval (m.readClock r.clock)) memory) := by
  obtain ⟨now, hnow, heq⟩ := hsteady.inStep
  have hread : m.readClock r.clock = .ok now := by
    rw [readClock, hnow]
    rfl
  -- the deadline is exact, as the limit is a time
  have hdeadline (hlimit : r.limit m.mono = m.mono + interval.totalNanos) :
      (now.saturatingAdd interval).totalNanos = r.limit m.mono + r.offset := by
    have htime := hsteady.time_le
    have hnonneg := hsteady.nonneg
    rw [Time.totalNanos_saturatingAdd] <;> omega
  rw [hread]
  cases policy with
  | quiet delay =>
      obtain ⟨hkept, hfit, hpolicy, hlooks, hlast⟩ := h
      cases hpolicy
      cases hfit with
      | quiet hlimit hagain =>
          refine ⟨hkept, .quiet hlimit hagain, hlooks, hmono.trans hlast, ?_, _, rfl, ?_⟩
          · rw [hlimit]
            omega
          · rw [hmono]
            exact hdeadline (hlimit m.mono)
  | within timeout =>
      obtain ⟨rfl, rfl, hstart, rfl, hagain, hlimit⟩ := h
      have heq' := hdeadline (by rw [hlimit, hstart])
      refine ⟨⟨rfl, rfl, List.isChain_singleton _, fun _ hd => nomatch hd⟩,
        .upTo (fun i => ?_) hagain, ?_, ?_⟩
      · rw [hlimit] at heq' ⊢
        omega
      · rw [hmono, hstart]
        rfl
      · rw [hlimit, hmono, hstart]
        omega
  | forever => cases h.2.2.1
  | upTo deadline => cases h.2.2.1

theorem Law.block {deadline : Option Time}
    (h : w.Law r memory₀ t a m (.running (.block policy deadline) memory))
    (hmono : m'.mono = m.mono) :
    w.Law r memory₀ t { a with deadlines := a.deadlines ++ [deadline] } m'
      (.waiting policy deadline .entering memory) := by
  obtain ⟨hkept, hfit, hlooks, hlast, hle, time, rfl, heq⟩ := h
  refine ⟨hkept.block (hlast ▸ getLastD_mem r.start a.told) heq, hfit, time, a.told, rfl, hlooks,
    (List.append_nil _).symm, hlast ▸ heq, ?_, hlast ▸ hle, .inl ⟨rfl, hmono.trans hlast⟩⟩
  exact Int.le_of_eq (hlast.symm.trans hmono.symm)

theorem Law.register {deadline : Option Time}
    (h : w.Law r memory₀ t a m (.waiting policy deadline .entering memory))
    (hmono : m'.mono = m.mono) :
    w.Law r memory₀ t a m' (.waiting policy deadline (.registered r.clock deadline) memory) := by
  obtain ⟨hkept, hfit, time, told, rfl, hblocked⟩ := h
  have hstart : m.mono = told.getLastD r.start := by
    rcases hblocked.course with ⟨-, hstart⟩ | ⟨es, hcourse⟩
    · exact hstart
    · exact hcourse.elim
  refine ⟨hkept, hfit, time, told, rfl, hblocked.looks_eq, hblocked.told_eq, hblocked.deadline_eq,
    hmono ▸ hblocked.le, hblocked.le_limit, .inr ⟨[], ?_⟩⟩
  rw [← hstart, ← hmono]
  exact Plan.onTime_startingAt t m' r.clock time r.offset

theorem Law.goes {deadline : Option Time} {stage stage' : Stage} {condvar : CondvarId} {e : Event}
    {new : List Int} (h : w.Law r memory₀ t a m (.waiting policy deadline stage memory))
    (hpunctual : Punctual m) (hm : Timely code m c m') (hsteady : r.Steady m)
    (hgoes : Goes t condvar m m' e stage stage') (hreg : stage' ≠ .entering)
    (hdue : m'.due stage' = m.due stage ++ new) :
    w.Law r memory₀ t { a with told := a.told ++ new } m'
      (.waiting policy deadline stage' memory) := by
  obtain ⟨hkept, hfit, time, told, rfl, hblocked⟩ := h
  have hblocked' := hblocked.goes hfit hpunctual hm hsteady hgoes hreg hdue
  refine ⟨?_, hfit, time, told, rfl, hblocked'⟩
  rcases new_of_due_eq hdue with rfl | ⟨hnone, rfl⟩
  · rw [List.append_nil]
    exact hkept
  · -- the notification is the first one of this round, and comes in time
    obtain rfl : a.told = told := by rw [hblocked.told_eq, hnone, List.append_nil]
    exact hkept.tell hblocked'.le (hblocked'.mono_le (hpunctual.next hm))

theorem Law.returned {deadline : Option Time} {how : WaitEnd}
    (h : w.Law r memory₀ t a m (.waiting policy deadline (.leaving how) memory))
    (hmono : m'.mono = m.mono) :
    w.Law r memory₀ t a m' (.running (policy.returned how.result) memory) := by
  obtain ⟨hkept, hfit, time, told, rfl, hblocked⟩ := h
  obtain ⟨es, hle, hend⟩ : ∃ es, (Plan.startingAt (told.getLastD r.start) r.clock time
      r.offset).OnTime t m es (.leaving how) := by
    rcases hblocked.course with ⟨hentering, -⟩ | hcourse
    · cases hentering
    · exact hcourse
  rw [hblocked.limit_eq] at hle hend
  rcases hend with rfl | ⟨hlimit, -, now, rfl, -⟩
  · -- notified: the next look is due
    have htold : a.told = told ++ [m.mono] := hblocked.told_eq
    refine ⟨hkept, hfit, ?_, hmono ▸ hfit.le_limit hle⟩
    rw [hblocked.looks_eq, htold, hmono, List.cons_append]
  · -- run out
    obtain rfl : a.told = told := hblocked.told_eq.trans (List.append_nil told)
    cases hfit with
    | upTo hbound hagain => exact ⟨hkept, hagain, hblocked.looks_eq, hmono.trans hlimit⟩
    | quiet hbound hagain =>
        have hend := hmono.trans hlimit
        refine ⟨hkept.chain, hkept.deadlines, Int.le_of_eq hend, false, rfl, .inr ⟨hend, .inl
          ⟨hagain, rfl, hblocked.looks_eq, ?_⟩⟩⟩
        have hlength : a.looks.length = a.told.length + 1 := by
          simpa using congrArg List.length hblocked.looks_eq
        rw [hkept.answers_eq, hlength]

/-- Where a predicate wait stands still, its law does not depend on the rest of the machine. -/
theorem Law.stay {phase : Phase μ} (h : w.Law r memory₀ t a m phase) (hmono : m'.mono = m.mono)
    (hq : ∀ policy deadline stage memory, phase = .waiting policy deadline stage memory →
      stage = .entering) : w.Law r memory₀ t a m' phase := by
  cases phase with
  | running state memory =>
      cases state with
      | arm policy interval => cases policy <;> simpa only [Law, hmono] using h
      | done result => simpa only [Law, Outcome, hmono] using h
      | _ => simpa only [Law, hmono] using h
  | waiting policy deadline stage memory =>
      obtain rfl := hq policy deadline stage memory rfl
      obtain ⟨hkept, hfit, time, told, rfl, hblocked⟩ := h
      refine ⟨hkept, hfit, time, told, rfl, hblocked.looks_eq, hblocked.told_eq,
        hblocked.deadline_eq, hmono ▸ hblocked.le, hblocked.le_limit, .inl ⟨rfl, ?_⟩⟩
      rcases hblocked.course with ⟨-, hstart⟩ | ⟨es, hcourse⟩
      · exact hmono.trans hstart
      · exact hcourse.elim

/-- One move keeps the law. -/
theorem Law.advances {phase phase' : Phase μ} {looks : List (Int × σ)} {told : List Int}
    {deadlines : List (Option Time)} (h : w.Law r memory₀ t a m phase) (hpunctual : Punctual m)
    (hm : Timely code m c m') (hsteady : r.Steady m) (hdone : phase.done = false)
    (hadv : w.Advances t r.clock m m' looks told deadlines phase phase') :
    w.Law r memory₀ t ⟨a.looks ++ looks, a.told ++ told, a.deadlines ++ deadlines⟩ m' phase' := by
  cases hadv with
  | stay hq hmono =>
      simp only [List.append_nil]
      exact h.stay hmono hq
  | check policy memory s hmono =>
      simp only [List.append_nil]
      exact h.check s hmono
  | recheck memory s hmono =>
      simp only [List.append_nil]
      exact h.recheck s hmono
  | arm policy interval memory hmono =>
      simp only [List.append_nil]
      exact h.arm hsteady hmono
  | block policy deadline memory hmono =>
      simp only [List.append_nil]
      exact h.block hmono
  | register policy deadline memory hmono =>
      simp only [List.append_nil]
      exact h.register hmono
  | goes policy deadline memory hreg hgoes hdue =>
      simp only [List.append_nil]
      exact h.goes hpunctual hm hsteady hgoes hreg hdue
  | returned policy deadline memory how hmono =>
      simp only [List.append_nil]
      exact h.returned hmono

/-! ### Runs -/

/-- In the course of a history from `m` to `m'` the predicate wait comes to its result, in the
machine `m₁` with `before` behind it. -/
structure Finishes (w : PredicateWait code μ) (t : ThreadId) (mutex : MutexId)
    (m m' : Machine σ κ ε) (hs before : List (Machine σ κ ε × Cause)) (m₁ : Machine σ κ ε)
    (result : Except SyncError Bool) : Prop where
  thread : ∃ memory, m₁.threads[t]? = some ⟨.running (w.goOn (.done result) memory), some mutex⟩
  split : ∃ after, hs = before ++ after ∧ History code m before m₁ ∧ History code m₁ after m'

/-- The predicate wait has begun and has no result yet. -/
def Underway (w : PredicateWait code μ) (t : ThreadId) (mutex : MutexId) (m : Machine σ κ ε) :
    Prop :=
  ∃ phase, w.Stands t mutex m phase ∧ phase.done = false

/-- A timely run keeps the law, up to the result of the predicate wait. -/
theorem Law.follow {hs : List (Machine σ κ ε × Cause)} {phase : Phase μ}
    (h : w.Law r memory₀ t {} m phase) (hpunctual : Punctual m)
    (hclock : m.clockOf? w.condvar = some r.clock) (hstands : w.Stands t mutex m phase)
    (hdone : phase.done = false) (history : History code m hs m')
    (hsteady : ∀ x ∈ hs, r.Steady x.1)
    (hfree : ∀ x ∈ hs, ∀ cv, x.1.condvars[w.condvar]? = some cv →
      cv.binding.conflict? mutex = none) :
    (∃ phase', w.Stands t mutex m' phase' ∧ phase'.done = false ∧
      w.Law r memory₀ t (account code t hs) m' phase') ∨
    ∃ before m₁ result, w.Finishes t mutex m m' hs before m₁ result ∧
      w.Outcome r memory₀ (account code t before) m₁ result := by
  induction history with
  | nil => exact .inl ⟨phase, hstands, hdone, h⟩
  | @snoc hs c m₁ m₂ history move ih =>
      rcases ih (fun x hx => hsteady x (List.mem_append_left _ hx))
        (fun x hx => hfree x (List.mem_append_left _ hx)) with
        ⟨phase₁, hstands₁, hdone₁, h₁⟩ | ⟨before, m₃, result, hfin, hout⟩
      · have hmem : (m₁, c) ∈ hs ++ [(m₁, c)] := List.mem_append_right _ List.mem_cons_self
        have hpunctual₁ := history.punctual hpunctual
        have hclock₁ : m₁.clockOf? w.condvar = some r.clock :=
          history.invariant Timely.clockOf? hclock
        obtain ⟨phase₂, hstands₂, hadv⟩ :=
          hstands₁.advances hpunctual₁ move hclock₁ hdone₁ (hfree _ hmem)
        have h₂ := h₁.advances hpunctual₁ move (hsteady _ hmem) hdone₁ hadv
        simp only [account, ← looks_append, ← told_append, ← deadlines_append] at h₂
        cases hdone₂ : phase₂.done with
        | false => exact .inl ⟨phase₂, hstands₂, hdone₂, h₂⟩
        | true =>
            obtain ⟨result, memory, rfl⟩ := Phase.eq_done hdone₂
            exact .inr ⟨_, m₂, result, ⟨⟨memory, hstands₂⟩, [], (List.append_nil _).symm,
              history.snoc move, .nil⟩, h₂⟩
      · obtain ⟨hthread, after, rfl, history', hafter⟩ := hfin
        exact .inr ⟨before, m₃, result, ⟨hthread, after ++ [(m₁, c)], List.append_assoc ..,
          history', hafter.snoc move⟩, hout⟩

/-- What is known of a predicate wait that goes on. -/
theorem Law.underway {phase : Phase μ} (h : w.Law r memory₀ t a m phase) (hpunctual : Punctual m)
    (hclock : m.clockOf? w.condvar = some r.clock) (hstands : w.Stands t mutex m phase)
    (hdone : phase.done = false) :
    w.answers memory₀ (a.looks.map (·.2)) = List.replicate a.looks.length false ∧
    List.IsChain (fun i j => i ≤ j ∧ j ≤ r.limit i) (r.start :: a.told) ∧
    (∀ d ∈ a.deadlines, ∃ deadline i, d = some deadline ∧ i ∈ r.start :: a.told ∧
      deadline.totalNanos = r.limit i + r.offset) ∧
    (a.looks.map (·.1) = r.start :: a.told ∨ a.looks.map (·.1) ++ [m.mono] = r.start :: a.told) ∧
    m.mono ≤ r.limit (a.told.getLastD r.start) ∧
    (Settled code m → a.looks.map (·.1) = r.start :: a.told ∧
      m.mono < r.limit (a.told.getLastD r.start)) := by
  -- a machine in which the predicate wait can go on has not settled
  have moving (hq : ∀ policy deadline timed memory,
      phase ≠ .waiting policy deadline (.queued timed) memory) : ¬Settled code m :=
    fun hs => hstands.not_atRest hpunctual.sound hclock hdone hq hs.1
  cases phase with
  | running state memory =>
      have hmoves := moving (by simp)
      cases state with
      | check policy =>
          obtain ⟨hkept, hfit, hlooks, hle⟩ := h
          exact ⟨hkept.answers_eq, hkept.chain, hkept.deadlines, .inr hlooks,
            (getLastD_of_append hlooks).symm ▸ hle, fun hs => absurd hs hmoves⟩
      | arm policy interval =>
          cases policy with
          | within timeout =>
              obtain ⟨rfl, rfl, hstart, rfl, hagain, hlimit⟩ := h
              refine ⟨rfl, List.isChain_singleton _, by simp,
                .inr (by rw [hstart]; rfl), ?_, fun hs => absurd hs hmoves⟩
              rw [hlimit, hstart]
              omega
          | quiet delay =>
              obtain ⟨hkept, hfit, -, hlooks, hlast⟩ := h
              refine ⟨hkept.answers_eq, hkept.chain, hkept.deadlines, .inl hlooks, ?_,
                fun hs => absurd hs hmoves⟩
              cases hfit with
              | quiet hlimit hagain =>
                  rw [hlimit, hlast]
                  omega
          | forever => cases h.2.2.1
          | upTo deadline => cases h.2.2.1
      | block policy deadline =>
          obtain ⟨hkept, hfit, hlooks, hlast, hle, -⟩ := h
          exact ⟨hkept.answers_eq, hkept.chain, hkept.deadlines, .inl hlooks, hlast ▸ hle,
            fun hs => absurd hs hmoves⟩
      | recheck =>
          obtain ⟨hkept, hagain, hlooks, hlimit⟩ := h
          exact ⟨hkept.answers_eq, hkept.chain, hkept.deadlines, .inl hlooks,
            Int.le_of_eq hlimit, fun hs => absurd hs hmoves⟩
      | done result => cases hdone
  | waiting policy deadline stage memory =>
      obtain ⟨hkept, hfit, time, told, rfl, hblocked⟩ := h
      refine ⟨hkept.answers_eq, hkept.chain, hkept.deadlines, ?_⟩
      have hle := hblocked.mono_le hpunctual
      have hlooks := hblocked.looks_eq
      have htold := hblocked.told_eq
      cases hnotified : stage.notified with
      | true =>
          -- the look for the notification is due
          rw [due, hnotified, if_pos rfl] at htold
          refine ⟨.inr (by rw [hlooks, htold, List.cons_append]), ?_,
            fun hs => absurd hs (moving fun _ _ _ _ he => ?_)⟩
          · rw [htold, List.getLastD_concat]
            exact hfit.le_limit hle
          · cases he
            cases hnotified
      | false =>
          rw [due, hnotified, if_neg Bool.false_ne_true, List.append_nil] at htold
          obtain rfl : a.told = told := htold
          refine ⟨.inl hlooks, hle, fun hs => ⟨hlooks, ?_⟩⟩
          rcases hblocked.course with ⟨rfl, -⟩ | ⟨es, hcourse⟩
          · exact absurd hs (moving (by simp))
          · have hreg : stage ≠ .entering := by
              rintro rfl
              exact hcourse
            exact hblocked.limit_eq ▸ hcourse.within.lt_of_settled hstands hreg hs

end PredicateWait

end TimedCondvar
