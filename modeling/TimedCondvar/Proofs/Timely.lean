import TimedCondvar.Proofs.Notifications

/-!
Time in a run. A run is timely if the park clock stands still while a thread can run or waits to
have its mutex back, and passes no end of a park: whoever's park has ended goes on at once. Nothing
else is asked. Threads take their turns in any order, and what comes from outside, or is done to the
other clocks, comes at any time. A history is a timely run with the machine before each move, so
that what holds all along is said of its members.
-/

namespace TimedCondvar

namespace Machine

variable {σ κ ε : Type}

/-- What makes a machine move on. -/
inductive Cause
  | thread (t : ThreadId)
  | expiry (t : ThreadId)
  | time
  | clocks
  | outside (e : Event)

/-- What a move shows. -/
def Cause.shown (code : κ → Command σ κ ε) (m : Machine σ κ ε) : Cause → Event
  | .thread t => m.shown code t
  | .expiry t => .expired t
  | .time | .clocks => .silent
  | .outside e => e

/-- No thread can run, and nobody who was woken is kept from its mutex. -/
structure AtRest (code : κ → Command σ κ ε) (m : Machine σ κ ε) : Prop where
  idle : ∀ t, m.step code t = none
  retaken : ∀ {t : ThreadId} {th : Thread κ}, m.threads[t]? = some th →
    th.control.released = true → th.control.parkedOn ≠ none

/-- A move of any run, by what makes the machine move on. -/
inductive Caused (code : κ → Command σ κ ε) (m : Machine σ κ ε) : Cause → Machine σ κ ε → Prop
  | step {t : ThreadId} {m' : Machine σ κ ε} (h : m.step code t = some m') :
      Caused code m (.thread t) m'
  | expire {p : Parked} {u : Int} (instant : Int) (hp : p ∈ m.parked) (hu : p.wakeAt = some u)
      (hle : u ≤ instant) : Caused code m (.expiry p.thread) (m.expire instant p.thread)
  | tick (instant : Int) : Caused code m .time { m with mono := instant }
  | clocks (clocks : Clocks) : Caused code m .clocks { m with clocks := clocks }
  | act {e : Event} {m' : Machine σ κ ε} (h : Act m e m') : Caused code m (.outside e) m'

/-- A move of a timely run: time passes at rest only, and up to the end of a park at most. -/
inductive Timely (code : κ → Command σ κ ε) (m : Machine σ κ ε) : Cause → Machine σ κ ε → Prop
  | step {t : ThreadId} {m' : Machine σ κ ε} (h : m.step code t = some m') :
      Timely code m (.thread t) m'
  | expire {p : Parked} {u : Int} (hrest : AtRest code m) (hp : p ∈ m.parked)
      (hu : p.wakeAt = some u) (hfirst : ∀ q ∈ m.parked, ∀ v, q.wakeAt = some v → u ≤ v) :
      Timely code m (.expiry p.thread) (m.expire u p.thread)
  | tick (instant : Int) (hrest : AtRest code m) (hle : m.mono ≤ instant)
      (hbefore : ∀ q ∈ m.parked, ∀ v, q.wakeAt = some v → instant ≤ v) :
      Timely code m .time { m with mono := instant }
  | clocks (clocks : Clocks) : Timely code m .clocks { m with clocks := clocks }
  | act {e : Event} {m' : Machine σ κ ε} (h : Act m e m') : Timely code m (.outside e) m'

/-- Timely moves one after the other, each with the machine before it. -/
inductive History (code : κ → Command σ κ ε) (m : Machine σ κ ε) :
    List (Machine σ κ ε × Cause) → Machine σ κ ε → Prop
  | nil : History code m [] m
  | snoc {hs : List (Machine σ κ ε × Cause)} {c : Cause} {m' m'' : Machine σ κ ε}
      (history : History code m hs m') (move : Timely code m' c m'') :
      History code m (hs ++ [(m', c)]) m''

/-- No thread can run, and no park is to end at this instant. -/
def Settled (code : κ → Command σ κ ε) (m : Machine σ κ ε) : Prop :=
  AtRest code m ∧ ∀ p ∈ m.parked, ∀ u, p.wakeAt = some u → m.mono < u

/-- What a history shows. -/
def events (code : κ → Command σ κ ε) (hs : List (Machine σ κ ε × Cause)) : List Event :=
  hs.map fun (m, c) => c.shown code m

/-- The thread that shows something of itself. -/
def Event.actor : Event → Option ThreadId
  | .read t _ | .parked t | .returned t _ _ => some t
  | _ => none

/-- Whether the event is a notification that wakes thread `t`. -/
def Event.wakes (t : ThreadId) : Event → Bool
  | .woke _ threads _ => decide (t ∈ threads)
  | _ => false

/-- When notifications woke thread `t`. -/
def told (code : κ → Command σ κ ε) (t : ThreadId) (hs : List (Machine σ κ ε × Cause)) :
    List Int :=
  (hs.filter fun (m, c) => (c.shown code m).wakes t).map fun (m, _) => m.mono

/-- Thread `t` is parked, until the instant `w` if there is one. -/
def ParkedUntil (m : Machine σ κ ε) (t : ThreadId) (w : Option Int) : Prop :=
  ∃ q, ⟨t, q, w⟩ ∈ m.parked

variable {code : κ → Command σ κ ε} {m m' m'' : Machine σ κ ε} {t : ThreadId} {th : Thread κ}
  {e : Event} {c : Cause} {hs hs' : List (Machine σ κ ε × Cause)}

theorem Caused.next (hm : Caused code m c m') : Next code m (c.shown code m) m' := by
  cases hm with
  | step h => exact .own (.step h)
  | expire instant hp hu hle => exact .own (.expire instant hp hu hle)
  | tick instant => exact .own (.tick instant)
  | clocks clocks => exact .own (.clocks clocks)
  | act h => exact .act h

/-- Something makes every move. -/
theorem exists_caused_of_next (hm : Next code m e m') :
    ∃ c, c.shown code m = e ∧ Caused code m c m' := by
  cases hm with
  | own ho =>
      cases ho with
      | step h => exact ⟨_, rfl, .step h⟩
      | expire instant hp hu hle => exact ⟨_, rfl, .expire instant hp hu hle⟩
      | tick instant => exact ⟨.time, rfl, .tick instant⟩
      | clocks clocks => exact ⟨.clocks, rfl, .clocks clocks⟩
  | act h => exact ⟨.outside e, rfl, .act h⟩

theorem Timely.caused (hm : Timely code m c m') : Caused code m c m' := by
  cases hm with
  | step h => exact .step h
  | expire hrest hp hu hfirst => exact .expire _ hp hu (Int.le_refl _)
  | tick instant hrest hle hbefore => exact .tick instant
  | clocks clocks => exact .clocks clocks
  | act h => exact .act h

theorem Timely.next (hm : Timely code m c m') : Next code m (c.shown code m) m' := hm.caused.next

theorem History.run (history : History code m hs m') : Run (Next code) m (events code hs) m' := by
  induction history with
  | nil => exact .nil
  | snoc history move ih =>
      rw [events, List.map_append]
      exact ih.snoc move.next

theorem History.trans (history : History code m hs m') (history' : History code m' hs' m'') :
    History code m (hs ++ hs') m'' := by
  induction history' with
  | nil => simpa using history
  | snoc _ move ih =>
      rw [← List.append_assoc]
      exact ih.snoc move

theorem History.invariant {P : Machine σ κ ε → Prop} (history : History code m hs m')
    (hstep : ∀ {m c m'}, Timely code m c m' → P m → P m') (hm : P m) : P m' := by
  induction history with
  | nil => exact hm
  | snoc _ move ih => exact hstep move ih

theorem told_concat (hs : List (Machine σ κ ε × Cause)) (m : Machine σ κ ε) (c : Cause) :
    told code t (hs ++ [(m, c)]) =
      told code t hs ++ if (c.shown code m).wakes t then [m.mono] else [] := by
  by_cases hw : (c.shown code m).wakes t <;> simp [told, hw]

theorem told_append (hs hs' : List (Machine σ κ ε × Cause)) :
    told code t (hs ++ hs') = told code t hs ++ told code t hs' := by
  simp [told]

theorem told_concat_of_not_wakes (h : (c.shown code m).wakes t = false) :
    told code t (hs ++ [(m, c)]) = told code t hs := by
  simp [told_concat, h]

theorem not_wakes_of_not_concerns (h : ¬e.Concerns t) : e.wakes t = false := by
  cases e with
  | woke condvar threads result => exact decide_eq_false h
  | _ => rfl

/-! ### The park clock -/

theorem mono_wakeAll (ts : List ThreadId) (m : Machine σ κ ε) :
    (ts.foldl (wake · true) m).mono = m.mono := by
  induction ts generalizing m with
  | nil => rfl
  | cons t ts ih => exact ih _

@[simp] theorem mono_notify (thread : Option ThreadId) (condvar : CondvarId) (all : Bool) :
    (m.notify thread condvar all).1.mono = m.mono :=
  mono_wakeAll (m.woken condvar all) m

theorem bind_mono (thread : Option ThreadId) (clock : Clock) :
    (m.bind thread clock).1.mono = m.mono := by
  rw [bind]
  split <;> rfl

/-- A step takes no time. -/
theorem Stepped.mono_eq (hs : Stepped code m t th m') : m'.mono = m.mono := by
  cases hs with
  | @notify place condvar all next hc hcode => exact mono_notify (some t) condvar all
  | _ => rfl

theorem Act.mono_eq (h : Act m e m') : m'.mono = m.mono := by
  cases h with
  | bind thread clock => exact bind_mono thread clock
  | notify thread condvar all => exact mono_notify thread condvar all
  | _ => rfl

theorem step_mono_eq (h : m.step code t = some m') : m'.mono = m.mono := by
  obtain ⟨th, -, hs⟩ := stepped_of_step h
  exact hs.mono_eq

theorem Timely.mono_eq (hm : Timely code m c m') (hrest : ¬AtRest code m) :
    m'.mono = m.mono := by
  cases hm with
  | step h => exact step_mono_eq h
  | expire h => exact absurd h hrest
  | tick _ h => exact absurd h hrest
  | clocks clocks => rfl
  | act h => exact h.mono_eq

/-! ### Parks

Parks are entered and left one thread at a time, and no end of a park is ever behind. -/

/-- A step parks nobody but its own thread, and that from now on. -/
theorem Stepped.mem_parked (hs : Stepped code m t th m') {p : Parked} (hp : p ∈ m'.parked) :
    p ∈ m.parked ∨ p.thread = t ∧ ∀ u, p.wakeAt = some u → m.mono ≤ u := by
  have later {q : Option CondvarId} {w : Option Int} (hw : ∀ u, w = some u → m.mono ≤ u)
      (hp : p ∈ m.parked ++ [⟨t, q, w⟩]) :
      p ∈ m.parked ∨ p.thread = t ∧ ∀ u, p.wakeAt = some u → m.mono ≤ u := by
    rcases List.mem_append.mp hp with hp | hp
    · exact .inl hp
    · obtain rfl := List.mem_singleton.mp hp
      exact .inr ⟨rfl, hw⟩
  have ends {length : Duration} {u : Int} (hu : m.wakeAt length = some u) : m.mono ≤ u := by
    rw [wakeAt] at hu
    split at hu
    · cases hu
      exact Int.le_add_of_nonneg_right (Int.natCast_nonneg _)
    · cases hu
  cases hs with
  | @notify place condvar all next hc hcode =>
      rw [parked_notify] at hp
      exact .inl (List.mem_of_mem_filter hp)
  | sleep hc hcode hl => exact later (fun u hu => ends hu) hp
  | @park condvar deadline timed next mutex hc hg =>
      refine later (fun u hu => ?_) hp
      cases timed with
      | none => cases hu
      | some timed => exact ends hu
  | _ => exact .inl hp

/-- What comes from outside parks nobody. -/
theorem Act.mem_parked (h : Act m e m') {p : Parked} (hp : p ∈ m'.parked) : p ∈ m.parked := by
  cases h with
  | bind thread clock =>
      rw [bind_parked] at hp
      exact hp
  | notify thread condvar all =>
      rw [parked_notify] at hp
      exact List.mem_of_mem_filter hp
  | _ => exact hp

theorem Timely.mem_parked (hm : Timely code m c m') {p : Parked} (hp : p ∈ m'.parked) :
    p ∈ m.parked ∨
      (m'.mono = m.mono ∧ m.step code p.thread ≠ none) ∧ ∀ u, p.wakeAt = some u → m.mono ≤ u := by
  cases hm with
  | step h =>
      obtain ⟨th, -, hs⟩ := stepped_of_step h
      refine (hs.mem_parked hp).imp_right fun ⟨hpt, hw⟩ => ⟨⟨hs.mono_eq, ?_⟩, hw⟩
      rw [hpt, h]
      nofun
  | expire hrest hp' hu hfirst => exact .inl (List.mem_of_mem_filter hp)
  | tick instant hrest hle hbefore => exact .inl hp
  | clocks clocks => exact .inl hp
  | act h => exact .inl (h.mem_parked hp)

theorem step_eq_none_of_parkedOn? {q : Option CondvarId} (h : m.parkedOn? t = some q) :
    m.step code t = none := by
  obtain ⟨th, ht, hq⟩ := Option.bind_eq_some_iff.mp h
  rw [step, control?, ht, Option.map_some]
  cases hc : th.control with
  | waiting condvar deadline stage next =>
      rw [hc] at hq
      cases stage with
      | queued timed => rfl
      | _ => cases hq
  | sleeping next => rfl
  | _ => simp [hc, Control.parkedOn] at hq

/-- A thread is parked until one instant only. -/
theorem Parking.parkedUntil_unique (h : Parking m) {w w' : Option Int}
    (hw : m.ParkedUntil t w) (hw' : m.ParkedUntil t w') : w = w' := by
  obtain ⟨q, hp⟩ := hw
  obtain ⟨q', hp'⟩ := hw'
  have heq := List.inj_on_of_nodup_map h.nodup hp hp' rfl
  cases heq
  rfl

/-- As long as a thread stays parked, its park is the same. -/
theorem Timely.parkedUntil (hm : Timely code m c m') (h : Parking m) (h' : Parking m')
    {w : Option Int} (hw : m.ParkedUntil t w) (hq : m'.parkedOn? t ≠ none) :
    m'.ParkedUntil t w := by
  obtain ⟨q', hq'⟩ := Option.ne_none_iff_exists'.mp hq
  obtain ⟨w', hp'⟩ := (h'.mem_iff t q').mpr hq'
  rcases hm.mem_parked hp' with hp | ⟨⟨-, hstep⟩, -⟩
  · obtain rfl := h.parkedUntil_unique hw ⟨q', hp⟩
    exact ⟨q', hp'⟩
  · -- it was parked already, so it did not park now
    obtain ⟨q, hp⟩ := hw
    have hq := (h.mem_iff t q).mp ⟨w, hp⟩
    exact absurd (step_eq_none_of_parkedOn? hq) hstep

theorem Settled.lt {u : Int} (h : Settled code m) (hu : m.ParkedUntil t (some u)) : m.mono < u := by
  obtain ⟨q, hq⟩ := hu
  exact h.2 _ hq u rfl

/-- What timely runs keep: what waits rely on, and that no end of a park is behind. -/
structure Punctual (m : Machine σ κ ε) : Prop where
  sound : Sound m
  current : ∀ {p : Parked} {u : Int}, p ∈ m.parked → p.wakeAt = some u → m.mono ≤ u

theorem Fresh.punctual (h : Fresh m) : Punctual m where
  sound := h.sound
  current hp := by simp [h.parked] at hp

/-- Time does not go back. -/
theorem Punctual.mono_le (h : Punctual m) (hm : Timely code m c m') : m.mono ≤ m'.mono := by
  cases hm with
  | step h => exact Int.le_of_eq (step_mono_eq h).symm
  | expire hrest hp hu hfirst => exact h.current hp hu
  | tick instant hrest hle hbefore => exact hle
  | clocks clocks => exact Int.le_refl _
  | act h => exact Int.le_of_eq h.mono_eq.symm

/-- No end of a park is passed. -/
theorem Timely.mono_le_wakeAt (hm : Timely code m c m') {p : Parked} {u : Int} (hp : p ∈ m.parked)
    (hu : p.wakeAt = some u) (hle : m.mono ≤ u) : m'.mono ≤ u := by
  cases hm with
  | step h => exact (step_mono_eq h).symm ▸ hle
  | expire hrest hp' hu' hfirst => exact hfirst p hp u hu
  | tick instant hrest hle' hbefore => exact hbefore p hp u hu
  | clocks clocks => exact hle
  | act h => exact h.mono_eq.symm ▸ hle

theorem Punctual.next (hm : Timely code m c m') (h : Punctual m) : Punctual m' := by
  refine ⟨h.sound.next hm.next, fun {p u} hp hu => ?_⟩
  rcases hm.mem_parked hp with hp | ⟨⟨hmono, -⟩, hw⟩
  · exact hm.mono_le_wakeAt hp hu (h.current hp hu)
  · rw [hmono]
    exact hw u hu

theorem History.punctual (history : History code m hs m') (h : Punctual m) : Punctual m' :=
  history.invariant Punctual.next h

theorem History.mono_le (history : History code m hs m') (hm : Punctual m) : m.mono ≤ m'.mono := by
  induction history with
  | nil => exact Int.le_refl _
  | snoc history move ih => exact Int.le_trans ih ((history.punctual hm).mono_le move)

theorem History.le_of_mem_told (history : History code m hs m') (hm : Punctual m) {i : Int}
    (hi : i ∈ told code t hs) : m.mono ≤ i := by
  induction history with
  | nil => cases hi
  | @snoc hs c m₁ m₂ history move ih =>
      rw [told_concat] at hi
      rcases List.mem_append.mp hi with hi | hi
      · exact ih hi
      · split at hi
        · obtain rfl := List.mem_singleton.mp hi
          exact history.mono_le hm
        · cases hi

/-! ### One wait in time

What a timely move is to a registered wait, with what it does to the park clock and to the park of
the wait: time passes while the wait is queued, and at no other stage. -/

/-- What a move from `m` to `m'` that shows an event does to a registered wait. -/
inductive Goes (t : ThreadId) (condvar : CondvarId) (m m' : Machine σ κ ε) :
    Event → Stage → Stage → Prop
  | stay {e : Event} {stage : Stage} (h : ¬e.Concerns t) (hq : ∀ timed, stage ≠ .queued timed)
      (hmono : m'.mono = m.mono) : Goes t condvar m m' e stage stage
  | rest {e : Event} (timed : Option (Timer × Park)) (h : ¬e.Concerns t)
      (hmono : m.mono ≤ m'.mono) (hpark : ∀ w, m.ParkedUntil t w → m'.ParkedUntil t w) :
      Goes t condvar m m' e (.queued timed) (.queued timed)
  | read (timer : Timer) (hmono : m'.mono = m.mono) :
      Goes t condvar m m' (.read t (m.clocks.now m.mono timer.clock)) (.reading timer)
        (.ofPass timer (timer.pass (m.clocks.now m.mono timer.clock)))
  | park (timed : Option (Timer × Park)) (hmono : m'.mono = m.mono)
      (hpark : m'.ParkedUntil t (timed.bind fun (_, p) => m.wakeAt p.length)) :
      Goes t condvar m m' (.parked t) (.parking timed) (.queued timed)
  | notified (timed : Option (Timer × Park)) {threads : List ThreadId} (result : WakeResult)
      (h : t ∈ threads) (hmono : m'.mono = m.mono) :
      Goes t condvar m m' (.woke condvar threads result) (.queued timed) (.woken true timed)
  | expired (timed : Timer × Park) (hpark : m.ParkedUntil t (some m'.mono)) :
      Goes t condvar m m' (.expired t) (.queued (some timed)) (.woken false (some timed))
  | retake (notified : Bool) (timed : Option (Timer × Park)) (hmono : m'.mono = m.mono) :
      Goes t condvar m m' .silent (.woken notified timed) (.ofWake notified timed)

section

variable {call : Call κ} {stage stage' : Stage}

/-- A wait that is not queued is about to go on. -/
theorem not_atRest (ht : m.threads[t]? = some (call.thread stage)) (hreg : stage ≠ .entering)
    (hq : ∀ timed, stage ≠ .queued timed) : ¬AtRest code m := by
  intro hrest
  have hidle := hrest.idle t
  cases stage with
  | entering => exact hreg rfl
  | reading timer => simp [step_of_reading ht rfl] at hidle
  | parking timed => simp [step_of_parking ht rfl rfl] at hidle
  | queued timed => exact hq timed rfl
  | woken notified timed => exact hrest.retaken ht rfl rfl
  | leaving how => simp [step_of_leaving ht rfl] at hidle

/-- Of the registered waits, those that are queued are left once a machine has settled. -/
theorem Settled.queued (h : Settled code m) (ht : m.threads[t]? = some (call.thread stage))
    (hreg : stage ≠ .entering) : ∃ timed, stage = .queued timed := by
  by_contra hq
  exact not_atRest ht hreg (fun timed ht => hq ⟨timed, ht⟩) h.1

/-- The wait goes on at `limit` at the latest. -/
def Within (t : ThreadId) (limit : Int) (m : Machine σ κ ε) : Stage → Prop
  | .queued _ => ∃ u, m.ParkedUntil t (some u) ∧ u ≤ limit
  | _ => m.mono ≤ limit

theorem Within.mono_le {limit : Int} (h : Within t limit m stage) (hm : Punctual m) :
    m.mono ≤ limit := by
  match stage, h with
  | .queued _, ⟨u, ⟨q, hq⟩, hle⟩ => exact Int.le_trans (hm.current hq rfl) hle
  | .entering, h | .reading _, h | .parking _, h | .woken _ _, h | .leaving _, h => exact h

theorem Within.lt_of_settled {limit : Int} (h : Within t limit m stage)
    (ht : m.threads[t]? = some (call.thread stage)) (hreg : stage ≠ .entering)
    (hsettled : Settled code m) : m.mono < limit := by
  obtain ⟨timed, rfl⟩ := hsettled.queued ht hreg
  obtain ⟨u, hu, hle⟩ := h
  exact Int.lt_of_lt_of_le (hsettled.lt hu) hle

/-- What a thread shows of itself it did itself. -/
theorem Caused.cause_eq (hm : Caused code m c m') (h : (c.shown code m).actor = some t) :
    c = .thread t := by
  cases hm with
  | @step u m' hstep =>
      obtain ⟨th, hu, -⟩ := stepped_of_step hstep
      rw [Cause.shown] at h
      cases hc : th.control with
      | running place =>
          rw [shown_running hu hc] at h
          cases hcode : code place <;> rw [hcode] at h <;> cases h
      | waiting condvar deadline stage next =>
          rw [shown_waiting hu hc] at h
          cases stage <;> cases h <;> rfl
      | _ => simp [shown, control?, hu, hc, Event.actor] at h
  | act hact => cases hact <;> cases h
  | _ => cases h

theorem Timely.cause_eq (hm : Timely code m c m') (h : (c.shown code m).actor = some t) :
    c = .thread t :=
  hm.caused.cause_eq h

theorem shown_ne_expired (u t : ThreadId) : m.shown code u ≠ .expired t := by
  cases hu : m.threads[u]? with
  | none => simp [shown, control?, hu]
  | some th =>
      cases hc : th.control with
      | running place =>
          rw [shown_running hu hc]
          cases code place <;> simp [commandShown]
      | waiting condvar deadline stage next =>
          rw [shown_waiting hu hc]
          cases stage <;> simp [waitShown]
      | _ => simp [shown, control?, hu, hc]

/-- A timely move does to a registered wait what its event says, or the wait returns. -/
theorem Punctual.goes (h : Punctual m) (hm : Timely code m c m')
    (ht : m.threads[t]? = some (call.thread stage)) (hreg : stage ≠ .entering) :
    (∃ stage', m'.threads[t]? = some (call.thread stage') ∧ stage' ≠ .entering ∧
      Goes t call.condvar m m' (c.shown code m) stage stage') ∨
    ∃ how, stage = .leaving how ∧ c = .thread t ∧
      c.shown code m = .returned t call.condvar how := by
  rcases h.sound.moved hm.next ht hreg with ⟨stage', ht', hmoved⟩ | ⟨how, rfl, he, -⟩
  · refine .inl ⟨stage', ht', hmoved.ne_entering hreg, ?_⟩
    have still (hq : ∀ timed, stage ≠ .queued timed) : m'.mono = m.mono :=
      hm.mono_eq (not_atRest ht hreg hq)
    generalize he : c.shown code m = e at hmoved ⊢
    cases hmoved with
    | stay hc =>
        cases stage with
        | queued timed =>
            have hq : m'.parkedOn? t ≠ none := by
              rw [parkedOn?, ht']
              exact Option.some_ne_none (some call.condvar)
            exact .rest timed hc (h.mono_le hm) fun w hw =>
              hm.parkedUntil h.sound.parking (h.next hm).sound.parking hw hq
        | _ => exact .stay hc (by simp) (still (by simp))
    | read timer reading =>
        obtain rfl := hm.cause_eq (by rw [he]; rfl)
        have hshown : m.shown code t = .read t (m.clocks.now m.mono timer.clock) :=
          shown_waiting ht rfl
        obtain rfl : m.clocks.now m.mono timer.clock = reading := by
          rw [Cause.shown, hshown] at he
          cases he
          rfl
        exact .read timer (still (by simp))
    | park timed =>
        obtain rfl := hm.cause_eq (by rw [he]; rfl)
        refine .park timed (still (by simp)) ?_
        cases hm with
        | step hstep =>
            rw [step_of_parking ht rfl rfl] at hstep
            cases hstep
            exact ⟨some call.condvar, List.mem_append_right _ List.mem_cons_self⟩
    | @notified timed threads result hmem =>
        refine .notified timed result hmem ?_
        cases hm with
        | step hstep => exact step_mono_eq hstep
        | act hact => exact hact.mono_eq
        | _ => cases he
    | expired timed =>
        refine .expired timed ?_
        cases hm with
        | @expire p u hrest hp hu hfirst =>
            cases he
            have hwake : p.wakeAt = some (m.expire u p.thread).mono := hu
            exact ⟨p.condvar, by rw [← hwake]; exact hp⟩
        | @step u _ hstep =>
            exact absurd he (shown_ne_expired u t)
        | act hact => cases hact <;> cases he
        | _ => cases he
    | retake notified timed =>
        exact .retake notified timed (still (by simp))
  · exact .inr ⟨how, rfl, hm.cause_eq (by rw [he]; rfl), he⟩

/-! ### From registration to return

A wait that was notified is about to return, and does so before any time passes. So the instants at
which notifications woke its thread are one at most, and that one is now. -/

/-- The instant of the notification a wait is about to return with. -/
def due (m : Machine σ κ ε) (stage : Stage) : List Int :=
  if stage.notified then [m.mono] else []

theorem eq_of_mem_due {instant : Int} (h : instant ∈ m.due stage) : instant = m.mono := by
  rw [due] at h
  split at h
  · exact List.mem_singleton.mp h
  · cases h

/-- There is one notification at most to return with. -/
theorem new_of_due_eq {is new : List Int} (h : m.due stage = is ++ new) :
    new = [] ∨ is = [] ∧ new = [m.mono] := by
  rw [due] at h
  split at h
  · cases is with
    | nil => exact .inr ⟨rfl, h.symm⟩
    | cons i is => exact .inl (List.append_eq_nil_iff.mp (List.cons.inj h).2.symm).2
  · exact .inl (List.append_eq_nil_iff.mp h.symm).2

/-- What a move adds to the notifications that woke a wait is what it has to return with. -/
theorem Goes.due_eq (h : Goes t call.condvar m m' (c.shown code m) stage stage')
    (hover : stage ≠ .woken false none) (hs : List (Machine σ κ ε × Cause)) :
    ∃ new, told code t (hs ++ [(m, c)]) = told code t hs ++ new ∧
      m'.due stage' = m.due stage ++ new := by
  have quiet (hw : (c.shown code m).wakes t = false)
      (hdue : m'.due stage' = m.due stage) : ∃ new,
      told code t (hs ++ [(m, c)]) = told code t hs ++ new ∧ m'.due stage' = m.due stage ++ new :=
    ⟨[], by rw [told_concat_of_not_wakes hw, List.append_nil], by rw [hdue, List.append_nil]⟩
  generalize he : c.shown code m = e at h
  cases h with
  | stay hc hq hmono =>
      exact quiet (he ▸ not_wakes_of_not_concerns hc) (by rw [due, due, hmono])
  | rest timed hc hmono hpark => exact quiet (he ▸ not_wakes_of_not_concerns hc) rfl
  | read timer hmono => exact quiet (by rw [he]; rfl) (by rw [due, Stage.notified_ofPass]; rfl)
  | park timed hmono hpark => exact quiet (by rw [he]; rfl) rfl
  | notified timed result ht hmono =>
      refine ⟨[m.mono], ?_, by rw [due, hmono]; rfl⟩
      rw [told_concat, he, Event.wakes, decide_eq_true ht, if_pos rfl]
  | expired timed hpark => exact quiet (by rw [he]; rfl) rfl
  | retake notified timed hmono =>
      exact quiet (by rw [he]; rfl) (by rw [due, due, Stage.notified_ofWake hover, hmono])

/-- Thread `t` registers a wait on `cv` in the step from `m` to `m'`. -/
structure Registers (code : κ → Command σ κ ε) (t : ThreadId) (call : Call κ) (cv : Condvar)
    (m m' : Machine σ κ ε) : Prop where
  condvar : m.condvars[call.condvar]? = some cv
  thread : m.threads[t]? = some (call.thread .entering)
  free : cv.binding.conflict? call.mutex = none
  step : m.step code t = some m'

/-- In the course of a history the wait has not returned, and it stands at `stage`. -/
structure Underway (code : κ → Command σ κ ε) (t : ThreadId) (call : Call κ)
    (hs : List (Machine σ κ ε × Cause)) (m : Machine σ κ ε) (stage : Stage) : Prop where
  thread : m.threads[t]? = some (call.thread stage)
  inside : ∀ condvar how, .returned t condvar how ∉ events code hs

/-- In the course of a history the wait returns from the machine `m`, with `before` behind it. -/
structure Returns (code : κ → Command σ κ ε) (t : ThreadId) (call : Call κ)
    (hs before : List (Machine σ κ ε × Cause)) (m : Machine σ κ ε) (how : WaitEnd) : Prop where
  underway : Underway code t call before m (.leaving how)
  move : ∃ after, hs = before ++ (m, .thread t) :: after

/-- What every move of a wait keeps holds as long as the wait is under way, and still where it
returns. Here `P` is what is known of the machines it goes through. -/
theorem History.follow {P : Machine σ κ ε → Prop} {I : Machine σ κ ε → List Event → Stage → Prop}
    (history : History code m hs m') (h : Punctual m)
    (ht : m.threads[t]? = some (call.thread stage)) (hreg : stage ≠ .entering)
    (hP : ∀ x ∈ hs, P x.1) (hI : I m [] stage)
    (hgoes : ∀ {m m' : Machine σ κ ε} {es : List Event} {e : Event} {stage stage' : Stage},
      Punctual m → Punctual m' → P m → Goes t call.condvar m m' e stage stage' → I m es stage →
      I m' (es ++ [e]) stage') :
    (∃ stage', Underway code t call hs m' stage' ∧ stage' ≠ .entering ∧
      I m' (events code hs) stage' ∧ m.due stage ++ told code t hs = m'.due stage') ∨
    ∃ before m₁ how, Returns code t call hs before m₁ how ∧
      I m₁ (events code before) (.leaving how) ∧
      m.due stage ++ told code t before = m₁.due (.leaving how) := by
  induction history with
  | nil => exact .inl ⟨stage, ⟨ht, fun _ _ => List.not_mem_nil⟩, hreg, hI, List.append_nil _⟩
  | @snoc hs c m₁ m₂ history move ih =>
      have hevents : events code (hs ++ [(m₁, c)]) = events code hs ++ [c.shown code m₁] :=
        List.map_append
      rcases ih fun x hx => hP x (List.mem_append_left _ hx) with
        ⟨stage₁, hway, hreg₁, hI₁, htold⟩ | ⟨before, m₀, how, hret, hI₀, htold⟩
      · have h₁ := history.punctual h
        rcases h₁.goes move hway.thread hreg₁ with ⟨stage₂, ht₂, hreg₂, goes⟩ | ⟨how, rfl, rfl, he⟩
        · have hover : stage₁ ≠ .woken false none := by
            rintro rfl
            cases h₁.sound.endless.woken hway.thread
          obtain ⟨new, hnew, hdue⟩ := goes.due_eq hover hs
          refine .inl ⟨stage₂, ⟨ht₂, ?_⟩, hreg₂, ?_, by rw [hnew, hdue, ← htold, List.append_assoc]⟩
          · -- the move is none of a wait that returns
            intro condvar how hmem
            rw [hevents] at hmem
            rcases List.mem_append.mp hmem with hmem | hmem
            · exact hway.inside condvar how hmem
            · rw [← List.mem_singleton.mp hmem] at goes
              cases goes with
              | stay hc => exact hc rfl
              | rest timed hc => exact hc rfl
          · rw [hevents]
            exact hgoes h₁ (h₁.next move)
              (hP _ (List.mem_append_right _ List.mem_cons_self)) goes hI₁
        · exact .inr ⟨hs, m₁, how, ⟨hway, [], rfl⟩, hI₁, htold⟩
      · obtain ⟨after, rfl⟩ := hret.move
        exact .inr ⟨before, m₀, how, ⟨hret.underway, after ++ [(m₁, c)], by simp⟩, hI₀, htold⟩

/-- A wait that is under way has not returned. -/
theorem Underway.not_returns {before : List (Machine σ κ ε × Cause)} {m₁ : Machine σ κ ε}
    {how : WaitEnd} (h : Underway code t call hs m stage) :
    ¬Returns code t call hs before m₁ how := by
  intro hret
  obtain ⟨after, rfl⟩ := hret.move
  refine h.inside call.condvar how (List.mem_map.mpr ⟨(m₁, .thread t), ?_, ?_⟩)
  · exact List.mem_append_right _ List.mem_cons_self
  · exact shown_waiting hret.underway.thread rfl

/-- What is kept holds at the stage where a wait stands that is under way. -/
theorem History.underway {P : Machine σ κ ε → Prop} {I : Machine σ κ ε → List Event → Stage → Prop}
    (history : History code m hs m') (h : Punctual m)
    (ht : m.threads[t]? = some (call.thread stage)) (hreg : stage ≠ .entering)
    (hP : ∀ x ∈ hs, P x.1) (hI : I m [] stage)
    (hgoes : ∀ {m m' : Machine σ κ ε} {es : List Event} {e : Event} {stage stage' : Stage},
      Punctual m → Punctual m' → P m → Goes t call.condvar m m' e stage stage' → I m es stage →
      I m' (es ++ [e]) stage') (hway : Underway code t call hs m' stage') :
    stage' ≠ .entering ∧ I m' (events code hs) stage' ∧
      m.due stage ++ told code t hs = m'.due stage' := by
  rcases history.follow h ht hreg hP hI hgoes with ⟨stage₁, hway₁, hkept⟩ | ⟨_, _, _, hret, -⟩
  · obtain rfl : stage₁ = stage' := by simpa [hway.thread, Call.thread] using hway₁.thread.symm
    exact hkept
  · exact absurd hret hway.not_returns

section

variable {cv : Condvar}

theorem Registers.registered (h : Registers code t call cv m m') :
    m'.threads[t]? = some (call.thread (.registered cv.clock call.deadline)) :=
  thread_of_register h.condvar h.thread h.free h.step

theorem Registers.punctual (h : Registers code t call cv m m') (hm : Punctual m) : Punctual m' :=
  hm.next (.step h.step)

end

end

/-! ### Given orders

A timely run in a given order can be computed, since whether a machine is at rest is a matter of its
threads. -/

/-- Whether no thread can run, and nobody who was woken is kept from its mutex. -/
def atRest (code : κ → Command σ κ ε) (m : Machine σ κ ε) : Bool :=
  (List.range m.threads.length).all (fun t => (m.step code t).isNone) &&
    m.threads.all fun th => !th.control.released || th.control.parkedOn.isSome

theorem atRest_of_eq_true (h : m.atRest code = true) : AtRest code m := by
  obtain ⟨hidle, hretaken⟩ := Bool.and_eq_true_iff.mp h
  refine ⟨fun t => ?_, fun {t th} ht hr hp => ?_⟩
  · cases ht : m.threads[t]? with
    | none => simp [step, control?, ht]
    | some th =>
        obtain ⟨hlt, -⟩ := List.getElem?_eq_some_iff.mp ht
        exact Option.isNone_iff_eq_none.mp
          (List.all_eq_true.mp hidle t (List.mem_range.mpr hlt))
  · have hth := List.all_eq_true.mp hretaken th (List.mem_of_getElem? ht)
    simp [hr, hp] at hth

theorem le_of_all_wakeAt {u : Int} (h : m.parked.all (·.wakeAt.all (u ≤ ·)) = true) :
    ∀ q ∈ m.parked, ∀ v, q.wakeAt = some v → u ≤ v := by
  intro q hq v hv
  have hle := List.all_eq_true.mp h q hq
  simpa [hv] using hle

/-- At rest time passes up to any instant that no park ends before. -/
theorem timely_tick (instant : Int) (hrest : m.atRest code = true) (hle : m.mono ≤ instant)
    (hbefore : m.parked.all (·.wakeAt.all (instant ≤ ·)) = true) :
    Timely code m .time { m with mono := instant } :=
  .tick instant (atRest_of_eq_true hrest) hle (le_of_all_wakeAt hbefore)

/-- What a turn leads to in a timely run, if it can be taken. -/
def proceed (code : κ → Command σ κ ε) (m : Machine σ κ ε) : Turn → Option (Cause × Machine σ κ ε)
  | .step t => (m.step code t).map (.thread t, ·)
  | .expire t => do
    let p ← m.parked.find? (·.thread = t)
    let u ← p.wakeAt
    if m.atRest code && m.parked.all (·.wakeAt.all (u ≤ ·)) then
      return (.expiry p.thread, m.expire u p.thread)
    else none

/-- What turns lead to in a timely run, one after the other. -/
def course (code : κ → Command σ κ ε) (m : Machine σ κ ε) :
    List Turn → Option (List (Machine σ κ ε × Cause) × Machine σ κ ε)
  | [] => some ([], m)
  | turn :: turns => do
    let (c, m') ← m.proceed code turn
    let (hs, m'') ← m'.course code turns
    return ((m, c) :: hs, m'')

theorem timely_of_proceed (turn : Turn) (h : m.proceed code turn = some (c, m')) :
    Timely code m c m' := by
  cases turn with
  | step t =>
      obtain ⟨m', hstep, he⟩ := Option.map_eq_some_iff.mp h
      cases he
      exact .step hstep
  | expire t =>
      obtain ⟨p, hp, h⟩ := Option.bind_eq_some_iff.mp h
      obtain ⟨u, hu, h⟩ := Option.bind_eq_some_iff.mp h
      split at h
      · rename_i hfirst
        obtain ⟨hrest, hfirst⟩ := Bool.and_eq_true_iff.mp hfirst
        cases h
        exact .expire (atRest_of_eq_true hrest) (List.mem_of_find?_eq_some hp) hu
          (le_of_all_wakeAt hfirst)
      · cases h

theorem History.of_course (turns : List Turn) (h : m.course code turns = some (hs, m')) :
    History code m hs m' := by
  induction turns generalizing m hs with
  | nil =>
      cases h
      exact .nil
  | cons turn turns ih =>
      obtain ⟨⟨c, m₁⟩, hproceed, h⟩ := Option.bind_eq_some_iff.mp h
      obtain ⟨⟨hs₁, m₂⟩, hcourse, he⟩ := Option.bind_eq_some_iff.mp h
      cases he
      exact (History.nil.snoc (timely_of_proceed turn hproceed)).trans (ih hcourse)

end Machine

end TimedCondvar
