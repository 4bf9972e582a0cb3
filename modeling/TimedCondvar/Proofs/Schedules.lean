import TimedCondvar.Proofs.Effort
import TimedCondvar.Proofs.Turns

/-!
The schedule that a world runs by itself is one of the timely runs. A world counts the steps its
threads may take before all are at rest, and the parks that may run out while time passes. Both are
enough: no thread is cut short, and no end of a park is passed. So what is shown of all timely runs
holds of every world, and a world has settled whenever its controller acts.
-/

namespace TimedCondvar

namespace Machine

variable {m m' m'' : ScriptMachine} {t : ThreadId} {e : Event} {c : Cause}

theorem Steady.congr (h : Steady m) (ht : m'.threads = m.threads) : Steady m' :=
  fun th hth => h th (ht ▸ hth)

/-- What the schedule of a world relies on. -/
structure Ready (m : ScriptMachine) : Prop where
  punctual : Punctual m
  scripted : Scripted m
  steady : Steady m
  lined : Lined m
  paced : Paced m

theorem Ready.move (hm : World.Move m e m') (htimely : Timely Script.code m c m') (h : Ready m) :
    Ready m' := by
  have same (ht : m'.threads = m.threads) (hl : m'.line = m.line) :
      Steady m' ∧ Lined m' ∧ Paced m' :=
    ⟨h.steady.congr ht, h.lined.congr ht hl, h.paced.congr ht⟩
  obtain ⟨hsteady, hlined, hpaced⟩ : Steady m' ∧ Lined m' ∧ Paced m' := by
    cases hm with
    | own ho =>
        cases ho with
        | step hstep =>
            obtain ⟨th, ht, hs⟩ := stepped_of_step hstep
            exact ⟨(h.steady.stepped ht hs).steady, h.lined.step hstep, h.paced.stepped ht hs⟩
        | @expire p u instant hp hu hle =>
            have hw := woke_expire m instant p.thread
            have hsteady : Steady { m with mono := instant } := h.steady
            exact ⟨(hsteady.wake false p.thread).1, h.lined.wake hw rfl, h.paced.wake hw⟩
        | tick instant => exact same rfl rfl
        | clocks clocks => exact same rfl rfl
    | spawn condvar clock mutex script hcondvar =>
        refine ⟨fun th hth => ?_, h.lined.spawn _, ⟨fun {u th} hu => ?_⟩⟩
        · rcases List.mem_append.mp hth with hth | hth
          · exact h.steady th hth
          · obtain rfl := List.mem_singleton.mp hth
            trivial
        · rw [getElem?_threads_spawn] at hu
          split at hu
          · cases hu
            trivial
          · exact h.paced.thread hu
    | bind clock =>
        refine same (bind_threads ..) ?_
        rw [Machine.bind]
        split <;> rfl
    | notify condvar all =>
        exact ⟨(h.steady.notify none condvar all).1, h.lined.notify none condvar all,
          h.paced.wake (woke_notify m none condvar all)⟩
    | modify mutex f => exact same rfl rfl
    | log log => exact same rfl rfl
  exact ⟨h.punctual.next htimely, h.scripted.move hm, hsteady, hlined, hpaced⟩

/-- A machine is at rest when none in line can do a step. -/
theorem Ready.atRest (h : Ready m) (hturn : m.turn Script.code = none) : AtRest Script.code m := by
  have hidle := h.lined.idle_of_turn hturn
  refine ⟨hidle, fun {t th} ht hreleased => ?_⟩
  obtain ⟨condvar, hreg⟩ : ∃ condvar, th.control.registeredOn = some condvar := by
    cases hc : th.control with
    | waiting condvar deadline stage next =>
        rw [hc] at hreleased
        cases stage with
        | queued timed => exact ⟨condvar, rfl⟩
        | woken notified timed => exact ⟨condvar, rfl⟩
        | _ => cases hreleased
    | _ =>
        rw [hc] at hreleased
        cases hreleased
  rw [h.scripted.parkedOn_of_registeredOn h.punctual.sound.guarded hidle ht hreg]
  exact Option.some_ne_none _

/-! ### Coming to rest -/

/-- Where the schedule of a world leads. -/
structure Reaches (m m' : ScriptMachine) : Prop where
  history : ∃ hs, History Script.code m hs m'
  ready : Ready m'
  allowance_le : m'.allowance ≤ m.allowance
  length_eq : m'.threads.length = m.threads.length

theorem Reaches.refl (h : Ready m) : Reaches m m := ⟨⟨[], .nil⟩, h, Nat.le_refl _, rfl⟩

theorem Reaches.trans (h : Reaches m m') (h' : Reaches m' m'') : Reaches m m'' where
  history := by
    obtain ⟨hs, history⟩ := h.history
    obtain ⟨hs', history'⟩ := h'.history
    exact ⟨hs ++ hs', history.trans history'⟩
  ready := h'.ready
  allowance_le := Nat.le_trans h'.allowance_le h.allowance_le
  length_eq := h'.length_eq.trans h.length_eq

/-- Threads ran for a while, at one instant of the park clock. -/
structure Runs (m m' : ScriptMachine) : Prop extends Reaches m m' where
  mono_eq : m'.mono = m.mono
  ending_le : ∀ {instant : Int}, instant ≤ m.mono → m'.ending instant ≤ m.ending instant

theorem Runs.refl (h : Ready m) : Runs m m := ⟨.refl h, rfl, fun _ => Nat.le_refl _⟩

theorem Runs.trans (h : Runs m m') (h' : Runs m' m'') : Runs m m'' where
  toReaches := h.toReaches.trans h'.toReaches
  mono_eq := h'.mono_eq.trans h.mono_eq
  ending_le hle := Nat.le_trans (h'.ending_le (h.mono_eq ▸ hle)) (h.ending_le hle)

/-- One turn leads on, and leaves less to be done. -/
theorem Ready.turn (h : Ready m) (hturn : m.turn Script.code = some m') :
    Runs m m' ∧ m'.effort < m.effort := by
  obtain ⟨t, -, hstep⟩ := List.exists_of_findSome?_eq_some hturn
  obtain ⟨th, ht, hs⟩ := stepped_of_step hstep
  have hnearer := h.steady.stepped ht hs
  have hready := h.move (.own (.step hstep)) (.step hstep)
  exact ⟨⟨⟨⟨_, .snoc .nil (.step hstep)⟩, hready, hnearer.allowance_le, hs.length_threads⟩,
    hs.mono_eq, h.paced.ending_le ht hs⟩, hnearer.effort_lt⟩

/-- Threads that may do as many steps as they have before them come to rest. -/
theorem Ready.settle (n : Nat) (h : Ready m) (hn : m.effort ≤ n) :
    Runs m (m.settle Script.code n) ∧ AtRest Script.code (m.settle Script.code n) := by
  induction n generalizing m with
  | zero =>
      cases hturn : m.turn Script.code with
      | none => exact ⟨.refl h, h.atRest hturn⟩
      | some m' =>
          have hlt := (h.turn hturn).2
          omega
  | succ n ih =>
      rw [Machine.settle]
      cases hturn : m.turn Script.code with
      | none => exact ⟨.refl h, h.atRest hturn⟩
      | some m' =>
          obtain ⟨hruns, hlt⟩ := h.turn hturn
          obtain ⟨hruns', hrest⟩ := ih hruns.ready (by omega)
          exact ⟨hruns.trans hruns', hrest⟩

theorem AtRest.congr (h : AtRest Script.code m) (ht : m'.threads = m.threads)
    (hx : m'.mutexes = m.mutexes) (hcv : m'.condvars = m.condvars) : AtRest Script.code m' :=
  ⟨fun t => step_eq_none_congr ht hx hcv (h.idle t), fun hu => h.retaken (ht ▸ hu)⟩

/-! ### Parks that run out -/

/-- The first park to end runs out, and all threads that can run do so. Fewer parks are left then
that are to end at that instant. -/
theorem Ready.expires {work : Nat} {u : Int} (h : Ready m) (hrest : AtRest Script.code m)
    (hwork : m.allowance ≤ work) (hfirst : firstExpiry m.parked = some (u, t)) :
    Reaches m ((m.expire u t).settle Script.code work) ∧
      AtRest Script.code ((m.expire u t).settle Script.code work) ∧
      ((m.expire u t).settle Script.code work).mono = u ∧ m.mono ≤ u ∧
      ((m.expire u t).settle Script.code work).ending u < m.ending u := by
  obtain ⟨p, hp, rfl, hu⟩ := exists_parked_of_firstExpiry hfirst
  have hmove : Timely Script.code m (.expiry p.thread) (m.expire u p.thread) :=
    .expire hrest hp hu fun q hq v hv => le_of_firstExpiry hfirst hq hv
  have hallowance : (m.expire u p.thread).allowance = m.allowance := by
    have hsteady : Steady { m with mono := u } := h.steady
    exact (hsteady.wake false p.thread).2.2
  have hexpired : Reaches m (m.expire u p.thread) :=
    ⟨⟨_, .snoc .nil hmove⟩, h.move (.own (.expire u hp hu (Int.le_refl _))) hmove,
      Nat.le_of_eq hallowance, List.length_modify ..⟩
  obtain ⟨hruns, hrest'⟩ := hexpired.ready.settle work
    (Nat.le_trans (effort_le_allowance _) (hallowance ▸ hwork))
  exact ⟨hexpired.trans hruns.toReaches, hrest', hruns.mono_eq, h.punctual.current hp hu,
    Nat.lt_of_le_of_lt (hruns.ending_le (Int.le_refl _)) (ending_expire_lt hp hu)⟩

/-- How many parks can run out from an instant up to the target: as many as threads at each instant
to come, and those that are to end at this one. -/
def room (m : ScriptMachine) (target instant : Int) : Nat :=
  m.threads.length * (target - instant).toNat + m.ending instant

/-- There is less room from a later instant on. -/
theorem Ready.room_le {target u : Int} (h : Ready m) (hle : m.mono ≤ u) (hdue : u ≤ target) :
    m.room target u ≤ m.room target m.mono := by
  rcases Int.lt_or_eq_of_le hle with hlt | rfl
  · have hthreads := length_parked_le h.punctual.sound.parking
    have hending : m.ending u ≤ m.parked.length := List.countP_le_length
    have hinstants : (target - u).toNat + 1 ≤ (target - m.mono).toNat := by omega
    have hmul := Nat.mul_le_mul_left m.threads.length hinstants
    rw [Nat.mul_succ] at hmul
    rw [room, room]
    omega
  · exact Nat.le_refl _

/-- Where there is no room, no park is to end up to the target. -/
theorem Ready.lt_of_no_room {target u : Int} {p : Parked} (h : Ready m)
    (hroom : m.room target m.mono = 0) (hp : p ∈ m.parked) (hu : p.wakeAt = some u) :
    target < u := by
  obtain ⟨htime, hnone⟩ := Nat.add_eq_zero_iff.mp hroom
  -- a thread is parked, so no time is left
  have hthreads := length_parked_le h.punctual.sound.parking
  have hparked : 0 < m.parked.length := List.length_pos_of_mem hp
  have hleft : (target - m.mono).toNat = 0 :=
    (Nat.mul_eq_zero.mp htime).resolve_left (by omega)
  have hne : u ≠ m.mono := by
    rintro rfl
    have hpos : 0 < m.ending m.mono := List.countP_pos_iff.mpr ⟨p, hp, by simp [hu]⟩
    omega
  have hcurrent := h.punctual.current hp hu
  omega

/-- Once the first park has run out there is less room. -/
theorem Ready.room_expires_lt {work : Nat} {target u : Int} (h : Ready m)
    (hrest : AtRest Script.code m) (hwork : m.allowance ≤ work)
    (hfirst : firstExpiry m.parked = some (u, t)) (hdue : u ≤ target) :
    ((m.expire u t).settle Script.code work).room target
      ((m.expire u t).settle Script.code work).mono < m.room target m.mono := by
  obtain ⟨hreaches, -, hmono, hcurrent, hending⟩ := h.expires hrest hwork hfirst
  have hle := h.room_le hcurrent hdue
  rw [room] at hle
  rw [hmono, room, hreaches.length_eq]
  omega

/-- All parks that are to end up to the target run out, one after the other. For each instant there
are as many of them as threads at most, and no more instants than nanoseconds are to come. -/
theorem Ready.elapse {work : Nat} {target : Int} (n : Nat) (h : Ready m)
    (hrest : AtRest Script.code m) (hwork : m.allowance ≤ work) (hle : m.mono ≤ target)
    (hn : m.room target m.mono ≤ n) :
    Reaches m (m.elapse Script.code work (some target) n) ∧
      AtRest Script.code (m.elapse Script.code work (some target) n) ∧
      (m.elapse Script.code work (some target) n).mono ≤ target ∧
      ∀ p ∈ (m.elapse Script.code work (some target) n).parked, ∀ u, p.wakeAt = some u →
        target < u := by
  induction n generalizing m with
  | zero =>
      exact ⟨.refl h, hrest, hle, fun p hp u hu => h.lt_of_no_room (Nat.le_zero.mp hn) hp hu⟩
  | succ n ih =>
      rw [Machine.elapse]
      cases hfirst : firstExpiry m.parked with
      | none =>
          refine ⟨.refl h, hrest, hle, fun p hp u hu => ?_⟩
          rw [wakeAt_eq_none_of_firstExpiry hfirst hp] at hu
          cases hu
      | some first =>
          obtain ⟨u, t⟩ := first
          dsimp only
          split
          · rename_i hdue
            have hdue : u ≤ target := by simpa using hdue
            obtain ⟨hreaches, hrest₁, hmono, -⟩ := h.expires hrest hwork hfirst
            have hroom := h.room_expires_lt hrest hwork hfirst hdue
            obtain ⟨hreaches', hrest'⟩ := ih hreaches.ready hrest₁
              (Nat.le_trans hreaches.allowance_le hwork) (Int.le_trans (Int.le_of_eq hmono) hdue)
              (Nat.le_of_lt_succ (Nat.lt_of_lt_of_le hroom hn))
            exact ⟨hreaches.trans hreaches', hrest'⟩
          · rename_i hdue
            have hdue : target < u := by simpa using hdue
            refine ⟨.refl h, hrest, hle, fun p hp v hv => ?_⟩
            exact Int.lt_of_lt_of_le hdue (le_of_firstExpiry hfirst hp hv)

end Machine

/-! ### Worlds -/

namespace World

open Machine

variable {m : ScriptMachine} {w w₀ : World} {a : Act}

/-- The steps that an act adds to the work. -/
def Act.work : Act → Nat
  | .spawn _ _ script => scriptWork script
  | _ => 0

theorem allowance_spawn (m : ScriptMachine) (condvar : CondvarId) (clock : Clock) (mutex : MutexId)
    (script : List Instruction) :
    (m.spawn { condvar, clock, mutex, rest := script }).allowance =
      m.allowance + scriptWork script := by
  let p : Script.Place := { condvar, clock, mutex, rest := script }
  have hthread : Thread.allowance { control := .running p } = scriptWork script := by
    change 64 * ((64 * script.length + 21) / 64 + 1) = 64 * (script.length + 1)
    omega
  have hthreads : (m.spawn p).threads = m.threads ++ [{ control := .running p }] := rfl
  rw [allowance, hthreads, List.map_append, List.sum_append, List.map_singleton,
    List.sum_singleton, hthread]
  rfl

/-- What an act leads to. It takes no time, and adds no more to be done than it adds to the work. -/
structure Acts (a : Act) (m m' : ScriptMachine) : Prop where
  history : ∃ hs, History Script.code m hs m'
  ready : Ready m'
  allowance_le : m'.allowance ≤ m.allowance + a.work
  mono_eq : m'.mono = m.mono
  ending_le : m'.ending m.mono ≤ m.ending m.mono

theorem acts_self (h : Ready m) (a : Act) : Acts a m m :=
  ⟨⟨[], .nil⟩, h, Nat.le_add_right .., rfl, Nat.le_refl _⟩

theorem acts_act (h : Ready m) (ha : a.Fits m) : Acts a m (act m a).1 := by
  have one {e : Event} {c : Cause} {m' : ScriptMachine} (hm : Move m e m')
      (htimely : Timely Script.code m c m') (hallowance : m'.allowance ≤ m.allowance + a.work)
      (hmono : m'.mono = m.mono) (hending : m'.ending m.mono ≤ m.ending m.mono) : Acts a m m' :=
    ⟨⟨_, .snoc .nil htimely⟩, h.move hm htimely, hallowance, hmono, hending⟩
  have modify (mutex : MutexId) (f : Inbox → Inbox) : Acts a m (modifyInbox m mutex f) :=
    one (.modify mutex f) (.act (.modify mutex f)) (Nat.le_add_right ..) rfl (Nat.le_refl _)
  have clocks (clocks : Clocks) : Acts a m { m with clocks := clocks } :=
    one (.own (.clocks clocks)) (.clocks clocks) (Nat.le_add_right ..) rfl (Nat.le_refl _)
  cases a with
  | bind clock =>
      have hbind : (act m (.bind clock)).1 = (m.bind none clock).1 := by
        rw [act]
        split <;> rename_i hb <;> rw [hb]
      rw [hbind]
      refine one (.bind clock) (.act (.bind none clock)) ?_ (bind_mono ..) ?_
      · rw [allowance, bind_threads]
        exact Nat.le_add_right ..
      · rw [ending, bind_parked]
        exact Nat.le_refl _
  | spawn condvar mutex script =>
      exact one (.spawn condvar _ mutex script ha) (.act (.spawn _))
        (Nat.le_of_eq (allowance_spawn ..)) rfl (Nat.le_refl _)
  | notify condvar all =>
      have hending : (m.notify none condvar all).1.ending m.mono ≤ m.ending m.mono := by
        rw [ending, parked_notify]
        exact List.Sublist.countP_le List.filter_sublist
      exact one (.notify condvar all) (.act (.notify none condvar all))
        (Nat.le_of_eq (h.steady.notify none condvar all).2.2) (mono_notify ..) hending
  | push mutex item => exact modify mutex fun x => { x with items := x.items ++ [item] }
  | close mutex value => exact modify mutex fun x => { x with closed := value }
  | jump clock offset => exact clocks _
  | rate clock num den => exact clocks _
  | fault clock fault => exact clocks _
  | look mutex => exact acts_self h _
  | advance length => exact acts_self h _
  | now condvar => exact acts_self h _
  | deadlineAfter condvar interval => exact acts_self h _

/-- The threads ran until all are at rest, and every park has run out that was to end by now. -/
structure Settles (m m' : ScriptMachine) : Prop extends Reaches m m' where
  settled : Settled Script.code m'

theorem settle_settles {work : Nat} (h : Ready m) (hwork : m.allowance ≤ work)
    (hending : m.ending m.mono = 0) : Settles m (m.settle Script.code work) := by
  obtain ⟨hruns, hrest⟩ := h.settle work (Nat.le_trans (effort_le_allowance m) hwork)
  refine ⟨hruns.toReaches, settled_of_ending hruns.ready.punctual hrest ?_⟩
  rw [hruns.mono_eq]
  exact Nat.le_zero.mp (hending ▸ hruns.ending_le (Int.le_refl _))

/-- The rest of the time passes. -/
theorem tick_settles {m₁ : ScriptMachine} {target : Int} (h : Reaches m m₁)
    (hrest : AtRest Script.code m₁) (hle : m₁.mono ≤ target)
    (hpassed : ∀ p ∈ m₁.parked, ∀ u, p.wakeAt = some u → target < u) :
    Settles m { m₁ with mono := target } := by
  obtain ⟨hs, history⟩ := h.history
  have htick : Timely Script.code m₁ .time { m₁ with mono := target } :=
    .tick target hrest hle fun q hq v hv => Int.le_of_lt (hpassed q hq v hv)
  exact ⟨⟨⟨_, history.snoc htick⟩, h.ready.move (.own (.tick target)) htick, h.allowance_le,
    h.length_eq⟩, hrest.congr rfl rfl rfl, hpassed⟩

/-- A world leaves room for all the parks that can run out in a length of time. -/
theorem room_le_of_settled (length : Duration) (h : Settled Script.code m) :
    m.room (m.mono + length.totalNanos) m.mono ≤ m.threads.length * (length.totalNanos + 1) := by
  rw [room, h.ending_eq_zero, Int.add_comm, Int.add_sub_cancel, Int.toNat_natCast, Nat.add_zero]
  exact Nat.mul_le_mul_left _ (Nat.le_succ _)

theorem advance_settles {work : Nat} (length : Duration) (h : Ready m)
    (hwork : m.allowance ≤ work) (hsettled : Settled Script.code m) :
    Settles m (m.advance Script.code work length) := by
  obtain ⟨hreaches, hrest, hle, hpassed⟩ := h.elapse _ hsettled.1 hwork
    (Int.le_add_of_nonneg_right (Int.natCast_nonneg _)) (room_le_of_settled length hsettled)
  exact tick_settles hreaches hrest hle hpassed

/-- A world that has settled, and has work left for all that its threads may do. -/
structure Quiet (w : World) : Prop where
  ready : Ready w.machine
  settled : Settled Script.code w.machine
  allowance_le : w.machine.allowance ≤ w.work

theorem Quiet.settles (h : Quiet w) (ha : a.Fits w.machine) :
    Settles (act w.machine a).1 (run (w.work + a.work) (act w.machine a).1 a) := by
  have hacts := acts_act h.ready ha
  have hwork : (act w.machine a).1.allowance ≤ w.work + a.work :=
    Nat.le_trans hacts.allowance_le (Nat.add_le_add_right h.allowance_le _)
  have hsettle : Settles (act w.machine a).1
      ((act w.machine a).1.settle Script.code (w.work + a.work)) := by
    refine settle_settles hacts.ready hwork ?_
    rw [hacts.mono_eq]
    exact Nat.le_zero.mp (h.settled.ending_eq_zero ▸ hacts.ending_le)
  cases a with
  | advance length => exact advance_settles length hacts.ready hwork h.settled
  | _ => exact hsettle

/-- An act leaves a quiet world, by a timely run. -/
theorem Quiet.perform (h : Quiet w) (ha : a.Fits w.machine) :
    (∃ hs, History Script.code w.machine hs (w.perform a).1.machine) ∧ Quiet (w.perform a).1 := by
  have hacts := acts_act h.ready ha
  have hsettles := h.settles ha
  obtain ⟨hs, history⟩ := hacts.history
  obtain ⟨hs', history'⟩ := hsettles.history
  have hwork : (w.perform a).1.work = w.work + a.work := by cases a <;> rfl
  have hmachine : (w.perform a).1.machine =
      { run (w.work + a.work) (act w.machine a).1 a with log := [] } := by cases a <;> rfl
  have hlog : Timely Script.code (run (w.work + a.work) (act w.machine a).1 a)
      (.outside .silent) { run (w.work + a.work) (act w.machine a).1 a with log := [] } :=
    .act (.log [])
  refine ⟨⟨_, hmachine ▸ (history.trans history').snoc hlog⟩, ?_, ?_, ?_⟩
  · rw [hmachine]
    exact hsettles.ready.move (.log []) hlog
  · rw [hmachine]
    exact ⟨hsettles.settled.1.congr rfl rfl rfl, hsettles.settled.2⟩
  · rw [hwork, hmachine]
    exact Nat.le_trans hsettles.allowance_le
      (Nat.le_trans hacts.allowance_le (Nat.add_le_add_right h.allowance_le _))

/-- Nothing is to be done in a world that has just begun. -/
theorem quiet_start (monotonic monotonicRaw boottime realtime : Int) :
    Quiet (start monotonic monotonicRaw boottime realtime) where
  ready :=
    { punctual := (fresh_start monotonic monotonicRaw boottime realtime).punctual
      scripted := scripted_start monotonic monotonicRaw boottime realtime
      steady := fun _ h => absurd h List.not_mem_nil
      lined := ⟨fun h => absurd (List.mem_of_getElem? h) List.not_mem_nil⟩
      paced := ⟨fun h => absurd (List.mem_of_getElem? h) List.not_mem_nil⟩ }
  settled :=
    ⟨⟨fun _ => rfl, fun h => absurd (List.mem_of_getElem? h) List.not_mem_nil⟩,
      fun _ h => absurd h List.not_mem_nil⟩
  allowance_le := Nat.le_refl 0

theorem Reached.quiet (hw₀ : Quiet w₀) (h : Reached w₀ w) :
    (∃ hs, History Script.code w₀.machine hs w.machine) ∧ Quiet w := by
  induction h with
  | start => exact ⟨⟨[], .nil⟩, hw₀⟩
  | @perform w h a ha ih =>
      obtain ⟨⟨hs, history⟩, hquiet⟩ := ih
      obtain ⟨⟨hs', history'⟩, hquiet'⟩ := hquiet.perform ha
      exact ⟨⟨_, history.trans history'⟩, hquiet'⟩

/-- A timely run leads to every world that a controller can bring about, and the world has settled:
no thread can run, nobody who was woken waits for its mutex, and no end of a park has come. -/
theorem Reached.timely {monotonic monotonicRaw boottime realtime : Int}
    (h : Reached (World.start monotonic monotonicRaw boottime realtime) w) :
    (∃ hs, History Script.code (World.start monotonic monotonicRaw boottime realtime).machine hs
      w.machine) ∧ Settled Script.code w.machine := by
  obtain ⟨history, hquiet⟩ := h.quiet (quiet_start ..)
  exact ⟨history, hquiet.settled⟩

end World

end TimedCondvar
