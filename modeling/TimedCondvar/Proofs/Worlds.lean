import TimedCondvar.Proofs.Moves
import TimedCondvar.World

/-!
A world is one schedule of many: whatever its controller does, and however its threads take their
turns and its parks run out, the machine inside makes moves of its own and acts from outside, one
after the other. So what is shown of runs holds of every world.
-/

namespace TimedCondvar

open Machine

namespace World

/-- The moves of a machine with scripted threads. A script begins at its first point, and with a
condition variable that exists. -/
inductive Move (m : ScriptMachine) : Event → ScriptMachine → Prop
  | own {e : Event} {m' : ScriptMachine} (h : Own Script.code m e m') : Move m e m'
  | spawn (condvar : CondvarId) (clock : Clock) (mutex : MutexId) (script : List Instruction)
      (h : condvar < m.condvars.length) :
      Move m .silent (m.spawn { condvar, clock, mutex, rest := script })
  | bind (clock : Clock) : Move m .silent (m.bind none clock).1
  | notify (condvar : CondvarId) (all : Bool) :
      Move m (.woke condvar (m.woken condvar all) (m.notify none condvar all).2)
        (m.notify none condvar all).1
  | modify (mutex : MutexId) (f : Inbox → Inbox) : Move m .silent (modifyInbox m mutex f)
  | log (log : List (Entry Finished)) : Move m .silent { m with log := log }

theorem Move.next {m m' : ScriptMachine} {e : Event} (h : Move m e m') :
    Next Script.code m e m' := by
  cases h with
  | own h => exact .own h
  | spawn condvar clock mutex script h => exact .act (.spawn _)
  | bind clock => exact .act (.bind none clock)
  | notify condvar all => exact .act (.notify none condvar all)
  | modify mutex f => exact .act (.modify mutex f)
  | log log => exact .act (.log log)

/-- Some run leads from one machine to the other. -/
def Leads (m m' : ScriptMachine) : Prop := ∃ es, Run Move m es m'

theorem Leads.refl (m : ScriptMachine) : Leads m m := ⟨[], .nil⟩

theorem Leads.trans {m₁ m₂ m₃ : ScriptMachine} (h : Leads m₁ m₂) (h' : Leads m₂ m₃) :
    Leads m₁ m₃ := by
  obtain ⟨es, run⟩ := h
  obtain ⟨es', run'⟩ := h'
  exact ⟨es ++ es', run.trans run'⟩

theorem Move.leads {m m' : ScriptMachine} {e : Event} (h : Move m e m') : Leads m m' :=
  ⟨[] ++ [e], Run.nil.snoc h⟩

/-! ### The threads run -/

theorem Leads.step {m m' m'' : ScriptMachine} {t : ThreadId}
    (hs : m'.step Script.code t = some m'') (h : Leads m m') : Leads m m'' :=
  h.trans (Move.own (.step hs)).leads

theorem leads_settle (n : Nat) (m : ScriptMachine) : Leads m (m.settle Script.code n) :=
  settle_keeps Leads.step n (.refl m)

theorem leads_elapse (work : Nat) (limit : Option Int) (n : Nat) (m : ScriptMachine) :
    Leads m (m.elapse Script.code work limit n) := by
  refine elapse_keeps Leads.step (fun {m' p u} hp hu h => ?_) work limit n (.refl m)
  have hexpire : Move m' (.expired p.thread) (m'.expire u p.thread) :=
    .own (.expire u hp hu (Int.le_refl u))
  exact h.trans hexpire.leads

theorem leads_run (work : Nat) (m : ScriptMachine) (a : Act) : Leads m (run work m a) := by
  cases a with
  | advance length =>
      exact (leads_elapse ..).trans (Move.own (.tick _)).leads
  | _ => exact leads_settle work m

/-! ### The controller acts -/

/-- The controller only spawns scripts for condition variables that exist. -/
def Act.Fits (m : ScriptMachine) : Act → Prop
  | .spawn condvar _ _ => condvar < m.condvars.length
  | _ => True

theorem leads_act {m : ScriptMachine} {a : Act} (h : a.Fits m) : Leads m (act m a).1 := by
  cases a with
  | bind clock =>
      have hbind : (act m (.bind clock)).1 = (m.bind none clock).1 := by
        rw [act]
        split <;> rename_i hb <;> rw [hb]
      rw [hbind]
      exact (Move.bind clock).leads
  | spawn condvar mutex script => exact (Move.spawn condvar _ mutex script h).leads
  | notify condvar all => exact (Move.notify condvar all).leads
  | push mutex item =>
      exact (Move.modify mutex fun x => { x with items := x.items ++ [item] }).leads
  | close mutex value => exact (Move.modify mutex fun x => { x with closed := value }).leads
  | jump clock offset => exact (Move.own (.clocks _)).leads
  | rate clock num den => exact (Move.own (.clocks _)).leads
  | fault clock fault => exact (Move.own (.clocks _)).leads
  | look mutex => exact .refl m
  | advance length => exact .refl m
  | now condvar => exact .refl m
  | deadlineAfter condvar interval => exact .refl m

/-- The worlds that a controller can bring about. -/
inductive Reached (w₀ : World) : World → Prop
  | start : Reached w₀ w₀
  | perform {w : World} (h : Reached w₀ w) {a : Act} (ha : a.Fits w.machine) :
      Reached w₀ (w.perform a).1

/-- Every world is reached by moves of the machine inside. -/
theorem Reached.leads {w₀ w : World} (h : Reached w₀ w) : Leads w₀.machine w.machine := by
  induction h with
  | start => exact .refl _
  | @perform w _ a ha ih =>
      obtain ⟨work, hwork⟩ : ∃ work, (w.perform a).1.machine =
          { run work (act w.machine a).1 a with log := [] } := ⟨_, rfl⟩
      rw [hwork]
      exact (ih.trans ((leads_act ha).trans (leads_run work _ a))).trans (Move.log []).leads

theorem fresh_start (monotonic monotonicRaw boottime realtime : Int) :
    Fresh (start monotonic monotonicRaw boottime realtime).machine where
  threads _ h := absurd h List.not_mem_nil
  parked := rfl
  condvars _ h := absurd h List.not_mem_nil
  mutexes x h := by
    obtain ⟨-, rfl⟩ := List.mem_replicate.mp h
    rfl

end World

end TimedCondvar
