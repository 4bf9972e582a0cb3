import Mathlib.Data.List.Forall2
import TimedCondvar.Proofs.OtherClocks
import TimedCondvar.Proofs.Worlds

/-!
What other clocks do to a world: nothing. Two worlds whose controllers do the same, but for what
they do to clocks that no condition variable is bound to, look the same all along.
-/

namespace TimedCondvar

open Machine

namespace World

/-! ### Worlds -/

theorem finish_ne_wallTime (p : Script.Place) (start : Option Int) (answer : Answer)
    (next : Nat → Script.Place) : p.finish start answer ≠ .wallTime next := by
  cases start <;> exact nofun

theorem loop_ne_wallTime (p : Script.Place) (policy : Policy) (condition : Condition)
    (start : Option Int) (state : Policy.State) (tally : Tally) (next : Nat → Script.Place) :
    p.loop policy condition start state tally ≠ .wallTime next := by
  cases state with
  | done result => exact finish_ne_wallTime p start _ next
  | _ => exact nofun

theorem perform_ne_wallTime (p : Script.Place) (start : Option Int) (operation : Operation)
    (next : Nat → Script.Place) : p.perform start operation ≠ .wallTime next := by
  cases operation with
  | waitPredicate policy condition => exact loop_ne_wallTime p policy condition start _ {} next
  | _ => exact nofun

/-- No script looks at the wall clock. -/
theorem code_ne_wallTime (p : Script.Place) (next : Nat → Script.Place) :
    Script.code p ≠ .wallTime next := by
  rw [Script.code]
  split
  · exact nofun
  · split
    · exact nofun
    · split
      · exact nofun
      · exact perform_ne_wallTime p none _ next
  · exact nofun
  · split
    · exact nofun
    · exact perform_ne_wallTime p _ _ next
  · exact finish_ne_wallTime p _ _ next
  · exact nofun
  · exact loop_ne_wallTime p _ _ _ _ _ next
  · exact finish_ne_wallTime p _ _ next
  · exact nofun
  · exact nofun

/-- A world in which nothing has happened yet, with clocks of any kind. -/
def begun (mono : Int) (cs : Clocks) : World where
  machine := { mono, clocks := cs, mutexes := List.replicate 4 { state := {} } }

theorem start_eq_begun (monotonic monotonicRaw boottime realtime : Int) :
    start monotonic monotonicRaw boottime realtime =
      begun monotonic
        { monotonic := ⟨monotonic, monotonic, 1, 1, none⟩
          monotonicRaw := ⟨monotonicRaw, monotonic, 1, 1, none⟩
          boottime := ⟨boottime, monotonic, 1, 1, none⟩
          realtime := ⟨realtime, monotonic, 1, 1, none⟩ } := rfl

/-- The clock that an act sets. -/
def Act.sets : Act → Option Clock
  | .jump clock _ | .rate clock _ _ | .fault clock _ => some clock
  | _ => none

theorem exists_modify_of_sets (m : ScriptMachine) {a : Act} {c : Clock} (h : a.sets = some c) :
    ∃ f, act m a = ({ m with clocks := m.clocks.modify f c }, .nothing) := by
  cases a with
  | jump clock offset =>
      cases h
      exact ⟨_, rfl⟩
  | rate clock num den =>
      cases h
      exact ⟨_, rfl⟩
  | fault clock fault =>
      cases h
      exact ⟨_, rfl⟩
  | _ => cases h

/-- Two acts that are the same, or that both set clocks which are not named, each in its own way. -/
inductive Act.Alike (named : Clock → Prop) : Act → Act → Prop
  | same (a : Act) : Alike named a a
  | others {a a' : Act} {c c' : Clock} (h : a.sets = some c) (hc : ¬named c)
      (h' : a'.sets = some c') (hc' : ¬named c') : Alike named a a'

section

variable {named : Clock → Prop} {m m' : ScriptMachine} {a a' : Act}

theorem alike_readingOf (h : Machine.Alike named m m') (condvar : CondvarId) (f : Time → Time) :
    readingOf m condvar f = readingOf m' condvar f := by
  obtain ⟨hconfined, hagree, heq⟩ := h
  rw [heq]
  generalize m'.clocks = cs at hagree
  have hcondvars : (m.withClocks cs).condvars = m.condvars := rfl
  simp only [readingOf, hcondvars]
  cases hcv : m.condvars[condvar]? with
  | none => rfl
  | some cv =>
      have hnamed := hconfined.condvar cv (List.mem_of_getElem? hcv)
      have hnow : (m.withClocks cs).readClock cv.clock = m.readClock cv.clock :=
        congrArg (Except.mapError SyncError.clock) (Clocks.now_congr (hagree _ hnamed) m.mono).symm
      dsimp only
      rw [hnow]

/-- Acts that are alike leave machines that are alike, and the controller sees the same. -/
theorem alike_act (h : Machine.Alike named m m') (ha : Act.Alike named a a')
    (hbind : ∀ c, a = .bind c → named c) :
    Machine.Alike named (act m a).1 (act m' a').1 ∧ (act m a).2 = (act m' a').2 := by
  cases ha with
  | same =>
      obtain ⟨hconfined, hagree, heq⟩ := id h
      have keep {x : ScriptMachine} (hcondvars : x.condvars = m.condvars)
          (hthreads : x.threads = m.threads) : Confined named x :=
        ⟨hcondvars ▸ hconfined.condvar, hthreads ▸ hconfined.timer⟩
      cases a with
      | bind clock =>
          obtain ⟨halike, hresult⟩ := h.bind none (hbind clock rfl)
          rw [act, act]
          generalize m.bind none clock = bound at halike hresult ⊢
          generalize m'.bind none clock = bound' at halike hresult ⊢
          obtain ⟨m, r⟩ := bound
          obtain ⟨m', r'⟩ := bound'
          obtain rfl : r = r' := hresult
          cases r with
          | error e => exact ⟨halike, rfl⟩
          | ok condvar => exact ⟨halike, rfl⟩
      | now condvar => exact ⟨h, alike_readingOf h condvar id⟩
      | deadlineAfter condvar interval => exact ⟨h, alike_readingOf h condvar _⟩
      | notify condvar all =>
          obtain ⟨halike, hresult⟩ := h.notify none condvar all
          exact ⟨halike, congrArg Reaction.notified hresult⟩
      | spawn condvar mutex script =>
          rw [heq]
          exact ⟨(hconfined.alike hagree).spawn _, rfl⟩
      | push mutex item =>
          rw [heq]
          exact ⟨⟨keep rfl rfl, hagree, rfl⟩, rfl⟩
      | close mutex value =>
          rw [heq]
          exact ⟨⟨keep rfl rfl, hagree, rfl⟩, rfl⟩
      | look mutex =>
          rw [heq]
          exact ⟨⟨keep rfl rfl, hagree, rfl⟩, rfl⟩
      | advance length =>
          rw [heq]
          exact ⟨⟨keep rfl rfl, hagree, rfl⟩, rfl⟩
      | jump clock offset =>
          rw [heq]
          exact ⟨⟨keep rfl rfl, hagree.modify _ clock, rfl⟩, rfl⟩
      | rate clock num den =>
          rw [heq]
          exact ⟨⟨keep rfl rfl, hagree.modify _ clock, rfl⟩, rfl⟩
      | fault clock fault =>
          rw [heq]
          exact ⟨⟨keep rfl rfl, hagree.modify _ clock, rfl⟩, rfl⟩
  | others ha hc ha' hc' =>
      -- each act sets its own clock and does nothing else
      obtain ⟨f, hact⟩ := exists_modify_of_sets m ha
      obtain ⟨f', hact'⟩ := exists_modify_of_sets m' ha'
      rw [hact, hact']
      refine ⟨⟨⟨h.confined.condvar, h.confined.timer⟩, h.agree.modify_others f f' hc hc', ?_⟩, rfl⟩
      rw [h.eq_withClocks]
      rfl

theorem alike_run (h : Machine.Alike named m m') (ha : Act.Alike named a a') (work : Nat) :
    Machine.Alike named (run work m a) (run work m' a') := by
  have hsettle := h.settle code_ne_wallTime work
  cases ha with
  | same =>
      cases a with
      | advance length => exact h.advance code_ne_wallTime work length
      | _ => exact hsettle
  | others ha hc ha' hc' =>
      have settles {m : ScriptMachine} {a : Act} {c : Clock} (ha : a.sets = some c) :
          run work m a = m.settle Script.code work := by
        cases a with
        | advance length => cases ha
        | _ => rfl
      rw [settles ha, settles ha']
      exact hsettle

/-- Two worlds that differ in clocks only, and in none that the first one is bound to. -/
structure Alike (named : Clock → Prop) (w w' : World) : Prop where
  machine : Machine.Alike named w.machine w'.machine
  work : w.work = w'.work

theorem Alike.perform {w w' : World} (h : Alike named w w') (ha : Act.Alike named a a')
    (hbind : ∀ c, a = .bind c → named c) :
    Alike named (w.perform a).1 (w'.perform a').1 ∧ (w.perform a).2 = (w'.perform a').2 := by
  obtain ⟨hacts, hreaction⟩ := alike_act h.machine ha hbind
  have hwork : (w.perform a).1.work = (w'.perform a').1.work := by
    cases ha with
    | same => cases a <;> simp [World.perform, h.work]
    | others ha hc ha' hc' =>
        have keeps {w : World} {a : Act} {c : Clock} (ha : a.sets = some c) :
            (w.perform a).1.work = w.work := by
          cases a with
          | spawn condvar mutex script => cases ha
          | _ => rfl
        rw [keeps ha, keeps ha', h.work]
  have hrun := alike_run hacts ha (w.perform a).1.work
  have performs (w : World) (a : Act) : w.perform a =
      ({ machine := { run (w.perform a).1.work (act w.machine a).1 a with log := [] }
         work := (w.perform a).1.work },
        { reaction := (act w.machine a).2
          log := (run (w.perform a).1.work (act w.machine a).1 a).log.reverse
          waiters := (run (w.perform a).1.work (act w.machine a).1 a).condvars.map
            (·.binding.waiters)
          parked := (run (w.perform a).1.work (act w.machine a).1 a).parked }) := rfl
  rw [performs w a, performs w' a', ← hwork, hreaction]
  generalize run (w.perform a).1.work (act w.machine a).1 a = x at hrun ⊢
  generalize run (w.perform a).1.work (act w'.machine a').1 a' = x' at hrun ⊢
  obtain ⟨hconfined, hagree, heq⟩ := hrun
  refine ⟨⟨⟨⟨hconfined.condvar, hconfined.timer⟩, hagree, ?_⟩, rfl⟩, ?_⟩
  · rw [heq]
    rfl
  · rw [heq]
    rfl

end

/-- What is seen of two worlds that are alike is the same, act by act. -/
theorem Alike.performAll {named : Clock → Prop} {w w' : World} {as as' : List Act}
    (h : Alike named w w') (hacts : List.Forall₂ (Act.Alike named) as as')
    (hbind : ∀ c, .bind c ∈ as → named c) : w.performAll as = w'.performAll as' := by
  induction hacts generalizing w w' with
  | nil => rfl
  | @cons a a' as as' ha hacts ih =>
      obtain ⟨hworlds, hseen⟩ := h.perform ha fun c hc => hbind c (hc ▸ List.mem_cons_self)
      rw [World.performAll, World.performAll]
      dsimp only
      rw [hseen, ih hworlds fun c hc => hbind c (List.mem_cons_of_mem _ hc)]

/-- Take two worlds whose park clocks begin alike, and two controllers that do the same, where only
the clocks that some condition variable is to be bound to have to be the same: all others may read
anything, may fail, and may be set to other values by the controllers. Then both see the same at
every act: how each operation ended, how many wait, who is parked until when, and what was
logged.

The same goes for machines under any code that does not look at the wall clock, for any moves in any
order. The machines show the same, and at every point nothing is different but the clocks. -/
theorem immune_to_other_clocks :
    (∀ (mono : Int) (cs cs' : Clocks) (as as' : List Act),
      (∀ c, .bind c ∈ as → cs.get c = cs'.get c) →
      List.Forall₂ (Act.Alike fun c => .bind c ∈ as) as as' →
      (begun mono cs).performAll as = (begun mono cs').performAll as') ∧
    ∀ {σ κ ε : Type} (code : κ → Command σ κ ε) (named : Clock → Prop) (m m' : Machine σ κ ε)
      (ds ds' : List (Choice σ κ ε)),
      (∀ place next, code place ≠ .wallTime next) → Machine.Alike named m m' →
      List.Forall₂ (Choice.Alike named) ds ds' → (∀ thread c, .bind thread c ∈ ds → named c) →
      ∀ es m₁, m.chooseAll code ds = some (es, m₁) →
        ∃ cs, m'.chooseAll code ds' = some (es, m₁.withClocks cs) := by
  constructor
  · intro mono cs cs' as as' hclocks hacts
    have halike : Alike (fun c => .bind c ∈ as) (begun mono cs) (begun mono cs') :=
      ⟨⟨⟨fun _ hcv => absurd hcv List.not_mem_nil, fun _ hth => absurd hth List.not_mem_nil⟩,
        hclocks, rfl⟩, rfl⟩
    exact halike.performAll hacts fun _ hc => hc
  · intro σ κ ε code named m m' ds ds' hwall halike hds hbind es m₁ hm
    obtain ⟨m₁', hm', halike'⟩ := halike.chooseAll hwall hds hbind hm
    exact ⟨m₁'.clocks, halike'.eq_withClocks ▸ hm'⟩

/-- The clocks of a machine, the raw one as it is given. -/
def clocksWith (raw : VirtualClock) : Clocks :=
  let clock : VirtualClock := ⟨0, 0, 1, 1, none⟩
  ⟨clock, raw, clock, clock⟩

/-- A thread that waits on the boottime clock comes as far as its park. The clocks are set before
that. -/
def parking (cs : Clocks) : List (Choice Inbox Script.Place Finished) :=
  [.bind none .boottime,
    .spawn { condvar := 0, clock := .boottime, mutex := 0
             rest := [⟨.waitUntil (.new 0 500000000), false⟩] },
    .clocks cs, .step 0, .step 0, .step 0, .step 0, .step 0]

/-- A thread waits on the boottime clock until the park clock has gone half a second on. That the
raw clock fails in one world and jumps in the other, from another start, shows nowhere. Nor does it
show where the thread is on its way to its first park. -/
theorem immune_to_raw_clock :
    ((start 0 0 0 0).performAll
        [.bind .boottime, .spawn 0 0 [⟨.waitUntil (.new 0 500000000), false⟩],
          .fault .monotonicRaw (some (.failed .perm)), .advance (.ofMillis 500)] =
      (start 0 77 0 (-9)).performAll
        [.bind .boottime, .spawn 0 0 [⟨.waitUntil (.new 0 500000000), false⟩],
          .jump .monotonicRaw 5, .advance (.ofMillis 500)]) ∧
    ∃ es m cs,
      (start 0 0 0 0).machine.chooseAll Script.code
        (parking (clocksWith ⟨0, 0, 1, 1, some (.failed .perm)⟩)) = some (es, m) ∧
      (start 0 77 0 (-9)).machine.chooseAll Script.code (parking (clocksWith ⟨5, 0, 2, 1, none⟩)) =
        some (es, m.withClocks cs) ∧ .parked 0 ∈ es := by
  constructor
  · have other : ¬.bind .monotonicRaw ∈ [Act.bind .boottime,
        .spawn 0 0 [⟨.waitUntil (.new 0 500000000), false⟩],
        .fault .monotonicRaw (some (.failed .perm)), .advance (.ofMillis 500)] := nofun
    rw [start_eq_begun, start_eq_begun]
    refine immune_to_other_clocks.1 0 _ _ _ _ (fun c hc => ?_) (.cons (.same _)
      (.cons (.same _) (.cons (.others rfl other rfl other) (.cons (.same _) .nil))))
    obtain rfl : c = .boottime := by simpa using hc
    rfl
  · have halike : Machine.Alike (· = .boottime) (start 0 0 0 0).machine
        (start 0 77 0 (-9)).machine :=
      ⟨⟨fun _ hcv => absurd hcv List.not_mem_nil, fun _ hth => absurd hth List.not_mem_nil⟩,
        fun c hc => hc ▸ rfl, rfl⟩
    have hmoves : List.Forall₂ (Choice.Alike (· = .boottime))
        (parking (clocksWith ⟨0, 0, 1, 1, some (.failed .perm)⟩))
        (parking (clocksWith ⟨5, 0, 2, 1, none⟩)) :=
      .cons (.same _) (.cons (.same _) (.cons (.clocks fun c hc => hc ▸ rfl)
        (List.forall₂_same.mpr fun d _ => .same d)))
    obtain ⟨cs, h⟩ := immune_to_other_clocks.2 Script.code (· = .boottime) _ _ _ _ code_ne_wallTime
      halike hmoves (fun thread c hc => by simp_all [parking]) _ _ rfl
    exact ⟨_, _, cs, rfl, h, by decide⟩

end World

end TimedCondvar
