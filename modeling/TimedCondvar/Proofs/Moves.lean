import Mathlib.Data.List.Basic
import TimedCondvar.Machine.Schedule

/-!
All that can happen to a machine, in any order. The machine moves by itself: some thread does its
next step, a park runs out, the park clock or another clock moves. And it is acted on from outside:
threads and condition variables are added, waiters notified, guarded states changed. A run is any
sequence of moves, so whatever is shown of all runs is shown of every schedule, of every behaviour
of the clocks and of every order of the ends of parks. That the park clock never goes back plays no
part in any of it and is not asked for.
-/

namespace TimedCondvar

namespace Machine

variable {σ κ ε : Type}

/-- The threads that a notification wakes. -/
def woken (m : Machine σ κ ε) (condvar : CondvarId) (all : Bool) : List ThreadId :=
  if all then m.queue condvar else (m.queue condvar).take 1

/-- What a move shows of the calls on condition variables. -/
inductive Event
  | silent
  /-- A notification of `condvar` woke these threads and returned `result`. -/
  | woke (condvar : CondvarId) (threads : List ThreadId) (result : WakeResult)
  /-- A timed wait read its clock. -/
  | read (thread : ThreadId) (reading : Except ClockError Time)
  | parked (thread : ThreadId)
  | expired (thread : ThreadId)
  /-- A registered wait on `condvar` returned. -/
  | returned (thread : ThreadId) (condvar : CondvarId) (how : WaitEnd)
  deriving DecidableEq

/-- What a command of thread `t` shows. -/
def commandShown (m : Machine σ κ ε) (t : ThreadId) : Command σ κ ε → Event
  | .notify condvar all _ => .woke condvar (m.woken condvar all) (m.notify t condvar all).2
  | _ => .silent

/-- What a stage of a wait shows. -/
def waitShown (m : Machine σ κ ε) (t : ThreadId) (condvar : CondvarId) : Stage → Event
  | .reading timer => .read t (m.clocks.now m.mono timer.clock)
  | .parking _ => .parked t
  | .leaving how => .returned t condvar how
  | _ => .silent

/-- What the next step of thread `t` shows. -/
def shown (code : κ → Command σ κ ε) (m : Machine σ κ ε) (t : ThreadId) : Event :=
  match m.control? t with
  | some (.running place) => m.commandShown t (code place)
  | some (.waiting condvar _ stage _) => m.waitShown t condvar stage
  | _ => .silent

/-- A move of the machine itself. A park ends no earlier than it was to end. -/
inductive Own (code : κ → Command σ κ ε) (m : Machine σ κ ε) : Event → Machine σ κ ε → Prop
  | step {t : ThreadId} {m' : Machine σ κ ε} (h : m.step code t = some m') :
      Own code m (m.shown code t) m'
  | expire {p : Parked} {u : Int} (instant : Int) (hp : p ∈ m.parked) (hu : p.wakeAt = some u)
      (h : u ≤ instant) : Own code m (.expired p.thread) (m.expire instant p.thread)
  | tick (instant : Int) : Own code m .silent { m with mono := instant }
  | clocks (clocks : Clocks) : Own code m .silent { m with clocks := clocks }

/-- An act from outside. -/
inductive Act (m : Machine σ κ ε) : Event → Machine σ κ ε → Prop
  | spawn (place : κ) : Act m .silent (m.spawn place)
  | bind (thread : Option ThreadId) (clock : Clock) : Act m .silent (m.bind thread clock).1
  | notify (thread : Option ThreadId) (condvar : CondvarId) (all : Bool) :
      Act m (.woke condvar (m.woken condvar all) (m.notify thread condvar all).2)
        (m.notify thread condvar all).1
  | modify (mutex : MutexId) (f : σ → σ) :
      Act m .silent
        { m with mutexes := m.mutexes.modify mutex fun x => { x with state := f x.state } }
  | log (log : List (Entry ε)) : Act m .silent { m with log := log }

/-- One move of any kind. -/
inductive Next (code : κ → Command σ κ ε) (m : Machine σ κ ε) : Event → Machine σ κ ε → Prop
  | own {e : Event} {m' : Machine σ κ ε} (h : Own code m e m') : Next code m e m'
  | act {e : Event} {m' : Machine σ κ ε} (h : Act m e m') : Next code m e m'

/-- Moves one after the other, with what they showed. -/
inductive Run (next : Machine σ κ ε → Event → Machine σ κ ε → Prop) (m : Machine σ κ ε) :
    List Event → Machine σ κ ε → Prop
  | nil : Run next m [] m
  | snoc {es : List Event} {e : Event} {m' m'' : Machine σ κ ε} (run : Run next m es m')
      (move : next m' e m'') : Run next m (es ++ [e]) m''

/-- A machine in which nothing has happened yet. -/
structure Fresh (m : Machine σ κ ε) : Prop where
  threads : ∀ th ∈ m.threads, (∃ place, th.control = .running place) ∧ th.guard = none
  parked : m.parked = []
  condvars : ∀ c ∈ m.condvars, c.binding = {}
  mutexes : ∀ x ∈ m.mutexes, x.holder = none

theorem mem_queue_of_mem_woken {m : Machine σ κ ε} {condvar : CondvarId} {all : Bool}
    {t : ThreadId} (h : t ∈ m.woken condvar all) : t ∈ m.queue condvar := by
  rw [woken] at h
  split at h
  · exact h
  · exact List.mem_of_mem_take h

theorem Run.trans {next : Machine σ κ ε → Event → Machine σ κ ε → Prop} {m₁ m₂ m₃ : Machine σ κ ε}
    {es es' : List Event} (h : Run next m₁ es m₂) (h' : Run next m₂ es' m₃) :
    Run next m₁ (es ++ es') m₃ := by
  induction h' with
  | nil => simpa using h
  | snoc _ move ih =>
      rw [← List.append_assoc]
      exact ih.snoc move

/-- What holds at first and is kept by every move holds after every run. -/
theorem Run.invariant {next : Machine σ κ ε → Event → Machine σ κ ε → Prop}
    {P : Machine σ κ ε → Prop} {m m' : Machine σ κ ε} {es : List Event} (h : Run next m es m')
    (hstep : ∀ {m e m'}, next m e m' → P m → P m') (hm : P m) : P m' := by
  induction h with
  | nil => exact hm
  | snoc _ move ih => exact hstep move ih

theorem Run.mono {next next' : Machine σ κ ε → Event → Machine σ κ ε → Prop}
    {m m' : Machine σ κ ε} {es : List Event} (h : Run next m es m')
    (hle : ∀ {m e m'}, next m e m' → next' m e m') : Run next' m es m' := by
  induction h with
  | nil => exact .nil
  | snoc _ move ih => exact ih.snoc (hle move)

/-! ### Given orders

A run in a given order of steps and of ends of parks can be computed. -/

/-- A thread does its next step, or its park runs out. -/
inductive Turn
  | step (thread : ThreadId)
  | expire (thread : ThreadId)

/-- What one turn leads to, if the thread can take it. -/
def take (code : κ → Command σ κ ε) (m : Machine σ κ ε) : Turn → Option (Event × Machine σ κ ε)
  | .step t => (m.step code t).map (m.shown code t, ·)
  | .expire t =>
    (m.parked.find? (·.thread = t)).bind fun p =>
      p.wakeAt.map fun u => (.expired p.thread, m.expire u p.thread)

/-- What turns lead to, one after the other. -/
def play (code : κ → Command σ κ ε) (m : Machine σ κ ε) :
    List Turn → Option (List Event × Machine σ κ ε)
  | [] => some ([], m)
  | turn :: turns =>
    (m.take code turn).bind fun (e, m') =>
      (m'.play code turns).map fun (es, m'') => (e :: es, m'')

theorem own_of_take {code : κ → Command σ κ ε} {m m' : Machine σ κ ε} (turn : Turn) {e : Event}
    (h : m.take code turn = some (e, m')) : Own code m e m' := by
  cases turn with
  | step t =>
      obtain ⟨m', hstep, he⟩ := Option.map_eq_some_iff.mp h
      cases he
      exact .step hstep
  | expire t =>
      obtain ⟨p, hp, h⟩ := Option.bind_eq_some_iff.mp h
      obtain ⟨u, hu, he⟩ := Option.map_eq_some_iff.mp h
      cases he
      exact .expire u (List.mem_of_find?_eq_some hp) hu (Int.le_refl u)

theorem Run.of_play {code : κ → Command σ κ ε} {m m' : Machine σ κ ε} (turns : List Turn)
    {es : List Event} (h : m.play code turns = some (es, m')) : Run (Own code) m es m' := by
  -- runs grow at their end and turns are taken from the front, so runs are put together
  induction turns generalizing m es with
  | nil =>
      cases h
      exact .nil
  | cons turn turns ih =>
      obtain ⟨⟨e, m₁⟩, htake, h⟩ := Option.bind_eq_some_iff.mp h
      obtain ⟨⟨es₁, m₂⟩, hplay, he⟩ := Option.map_eq_some_iff.mp h
      cases he
      exact (Run.nil.snoc (own_of_take turn htake)).trans (ih hplay)

theorem Run.play {code : κ → Command σ κ ε} {m₁ m₂ m₃ : Machine σ κ ε} {es es' : List Event}
    (h : Run (Next code) m₁ es m₂) (turns : List Turn)
    (hplay : m₂.play code turns = some (es', m₃)) : Run (Next code) m₁ (es ++ es') m₃ :=
  h.trans ((Run.of_play turns hplay).mono .own)

/-! ### The machine by itself

Of all orders one is taken when the machine runs by itself, and what every step and every end of a
park keep is kept then. -/

/-- The park that ends first is one of the parks. -/
theorem exists_parked_of_firstExpiry {ps : List Parked} {instant : Int} {t : ThreadId}
    (h : firstExpiry ps = some (instant, t)) :
    ∃ p ∈ ps, p.thread = t ∧ p.wakeAt = some instant := by
  induction ps with
  | nil => cases h
  | cons p ps ih =>
      rw [firstExpiry] at h
      have later (h : firstExpiry ps = some (instant, t)) :
          ∃ q ∈ p :: ps, q.thread = t ∧ q.wakeAt = some instant := by
        obtain ⟨q, hq, hqt⟩ := ih h
        exact ⟨q, List.mem_cons_of_mem _ hq, hqt⟩
      split at h
      · exact later h
      · rename_i u hu _
        cases h
        exact ⟨p, List.mem_cons_self, rfl, hu⟩
      · rename_i u v t' hu hv
        split at h
        · cases h
          exact ⟨p, List.mem_cons_self, rfl, hu⟩
        · cases h
          exact later hv

section

variable {code : κ → Command σ κ ε} {P : Machine σ κ ε → Prop} {m : Machine σ κ ε}

theorem settle_keeps
    (hstep : ∀ {m m' : Machine σ κ ε} {t : ThreadId}, m.step code t = some m' → P m → P m')
    (n : Nat) (hm : P m) : P (m.settle code n) := by
  induction n generalizing m with
  | zero => exact hm
  | succ n ih =>
      rw [settle]
      split
      · exact hm
      · rename_i m' hturn
        obtain ⟨t, -, hs⟩ := List.exists_of_findSome?_eq_some hturn
        exact ih (hstep hs hm)

theorem elapse_keeps
    (hstep : ∀ {m m' : Machine σ κ ε} {t : ThreadId}, m.step code t = some m' → P m → P m')
    (hexpire : ∀ {m : Machine σ κ ε} {p : Parked} {u : Int}, p ∈ m.parked → p.wakeAt = some u →
      P m → P (m.expire u p.thread))
    (work : Nat) (limit : Option Int) (n : Nat) (hm : P m) : P (m.elapse code work limit n) := by
  induction n generalizing m with
  | zero => exact hm
  | succ n ih =>
      rw [elapse]
      split
      · exact hm
      · rename_i instant t hfirst
        split
        · -- one park runs out, the threads run, and the rest of the time passes
          obtain ⟨p, hp, rfl, hu⟩ := exists_parked_of_firstExpiry hfirst
          exact ih (settle_keeps hstep work (hexpire hp hu hm))
        · exact hm

end

end Machine

end TimedCondvar
