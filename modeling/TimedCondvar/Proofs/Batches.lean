import TimedCondvar.Proofs.Demonstration

/-!
No event of the demonstration is lost and none is handled twice, whatever the order of the threads,
and also if notifications get lost or threads are woken by nobody. What was pushed and what was
taken is kept beside the machine; then the batches and the inbox are what was pushed, in order. The
producer sets its flag behind its last event, and the consumer leaves only when the flag is set and
the inbox is empty, so there is nothing left to push or to take then.
-/

namespace TimedCondvar.Demo

open Machine

/-- One move of the program, and the thread that made it if it was a step. A notification may get
lost, threads may be woken by nobody, and the clocks may show anything. -/
inductive Move (s : Settings) (m : ProgramMachine) : Option ThreadId → ProgramMachine → Prop
  | step {t : ThreadId} {m' : ProgramMachine} (h : m.step s.code t = some m') :
      Move s m (some t) m'
  | lose {t : ThreadId} {th : Thread Place} {place : Place} {condvar : CondvarId} {all : Bool}
      {next : WakeResult → Place} (ht : m.threads[t]? = some th) (hc : th.control = .running place)
      (hcode : s.code place = .notify condvar all next) :
      Move s m (some t) (m.setControl t (.running (next .noWaiters)))
  | expire {p : Parked} {u : Int} (instant : Int) (hp : p ∈ m.parked) (hu : p.wakeAt = some u)
      (h : u ≤ instant) : Move s m none (m.expire instant p.thread)
  | wake (condvar : CondvarId) (all : Bool) : Move s m none (m.notify none condvar all).1
  | time (mono : Int) (clocks : Clocks) : Move s m none { m with mono := mono, clocks := clocks }

/-- Moves one after the other, with the events that were pushed and the batches that were taken.
What a step pushes is told by where its thread stands before it, and what it took by where the
thread stands after it. -/
inductive Recorded (s : Settings) (m₀ : ProgramMachine) :
    List Nat → List (List Nat) → ProgramMachine → Prop
  | start : Recorded s m₀ [] [] m₀
  | move {pushed : List Nat} {batches : List (List Nat)} {m m' : ProgramMachine}
      {who : Option ThreadId} (h : Recorded s m₀ pushed batches m) (move : Move s m who m') :
      Recorded s m₀ (pushed ++ who.elim [] (pushedBy m)) (batches ++ who.elim [] (takenBy m')) m'

/-! ### What is kept -/

/-- How many events are still to be pushed. -/
def Emitting.left : Emitting → Nat
  | .resting left | .owing left => left
  | .closing | .done => 0

/-- The producer has set its flag. -/
def Emitting.Closed : Emitting → Prop
  | .closing | .done => True
  | _ => False

/-- What the consumer can rely on. -/
def Collecting.Knows (box : Inbox) : Collecting → Prop
  | .assured _ => box.Stirs
  | .gathering _ => box.pending ≠ []
  | .finishing _ => box.shutdown = true ∧ box.pending = []
  | _ => True

/-- What the consumer has counted. -/
def Collecting.Counts (batches : List (List Nat)) : Collecting → Prop
  | .arriving => batches = []
  | .looking count | .decided count | .queued count | .assured count | .gathering count
  | .handling count | .finishing count => count = ⟨batches.length, batches.flatten.length⟩
  | .over => True

structure Kept (s : Settings) (pushed : List Nat) (batches : List (List Nat)) (v : View) :
    Prop where
  order : batches.flatten ++ v.inbox.pending = pushed
  nonempty : ∀ batch ∈ batches, batch ≠ []
  counts : v.consumer.Counts batches
  knows : v.consumer.Knows v.inbox
  left : pushed.length + v.producer.left = s.bursts * s.events
  closed : v.inbox.shutdown = true → v.producer.Closed

variable {s : Settings} {m₀ m m' : ProgramMachine} {pushed : List Nat}
  {batches : List (List Nat)} {v v' : View} {deed : Deed} {c : Collecting} {e : Emitting}
  {box : Inbox} {t : ThreadId} {event : Event}

theorem kept_start (s : Settings) : Kept s [] [] (.start s) where
  order := rfl
  nonempty _ h := absurd h List.not_mem_nil
  counts := rfl
  knows := trivial
  left := Nat.zero_add _
  closed h := nomatch h

theorem Kept.woken (h : Kept s pushed batches v) :
    Kept s pushed batches { v with consumer := v.consumer.woken } := by
  obtain ⟨consumer, producer, box⟩ := v
  cases consumer with
  | queued count => exact ⟨h.order, h.nonempty, h.counts, trivial, h.left, h.closed⟩
  | _ => exact h

/-- Of what the consumer knows, nothing is undone by the producer. -/
theorem Collecting.Knows.emit (h : c.Knows v.inbox) (hemits : Emits v.producer v.inbox deed e box)
    (hclosed : v.inbox.shutdown = true → v.producer.Closed) : c.Knows box := by
  obtain ⟨consumer, producer, inbox⟩ := v
  cases hemits with
  | push left stamp =>
      cases c with
      | assured count => exact .inl (by simp)
      | gathering count => exact List.append_ne_nil_of_right_ne_nil _ (by simp)
      | finishing count => exact (hclosed h.1).elim
      | _ => trivial
  | close =>
      cases c with
      | assured count => exact .inr rfl
      | gathering count => exact h
      | finishing count => exact ⟨rfl, h.2⟩
      | _ => trivial
  | _ => exact h

theorem Kept.emit (h : Kept s pushed batches v) (hemits : Emits v.producer v.inbox deed e box) :
    Kept s (pushed ++ deed.pushes) batches ⟨v.consumer, e, box⟩ := by
  have hknows := h.knows.emit hemits h.closed
  obtain ⟨consumer, producer, inbox⟩ := v
  cases hemits with
  | stay => simpa [Deed.pushes] using h
  | push left stamp =>
      refine ⟨?_, h.nonempty, h.counts, hknows, ?_, fun hshut => (h.closed hshut).elim⟩
      · simp [Deed.pushes, ← h.order]
      · have hleft := h.left
        simp only [Deed.pushes, Emitting.left, List.length_append, List.length_singleton] at hleft ⊢
        omega
  | announce left =>
      simp only [Deed.pushes, List.append_nil]
      exact ⟨h.order, h.nonempty, h.counts, hknows, h.left, h.closed⟩
  | close | call =>
      simp only [Deed.pushes, List.append_nil]
      exact ⟨h.order, h.nonempty, h.counts, hknows, h.left, fun _ => trivial⟩

theorem Kept.take {count : Count} (h : Kept s pushed batches v)
    (hc : v.consumer = .gathering count) : Kept s pushed (batches ++ [v.inbox.pending])
      ⟨.handling ⟨count.batches + 1, count.handled + v.inbox.pending.length⟩, v.producer,
        { v.inbox with pending := [] }⟩ := by
  obtain ⟨consumer, producer, inbox⟩ := v
  obtain rfl : consumer = .gathering count := hc
  refine ⟨?_, ?_, ?_, trivial, h.left, h.closed⟩
  · simpa using h.order
  · intro batch hbatch
    rcases List.mem_append.mp hbatch with hbatch | hbatch
    · exact h.nonempty batch hbatch
    · obtain rfl := List.mem_singleton.mp hbatch
      exact h.knows
  · obtain rfl : count = _ := h.counts
    simp [Collecting.Counts]

/-- What the consumer does apart from taking a batch. -/
theorem Kept.goOn (h : Kept s pushed batches v)
    (hcollects : Collects v.consumer v.inbox deed c box) (htakes : deed.takes = []) :
    Kept s pushed batches ⟨c, v.producer, box⟩ := by
  obtain ⟨consumer, producer, inbox⟩ := v
  cases hcollects with
  | take count => cases htakes
  | stay => exact h
  | arrive =>
      obtain rfl : batches = [] := h.counts
      exact ⟨h.order, h.nonempty, rfl, trivial, h.left, h.closed⟩
  | met hstirs => exact ⟨h.order, h.nonempty, h.counts, hstirs, h.left, h.closed⟩
  | gather hsome =>
      -- it was sure of events or of the flag, and the flag alone would have made it leave
      refine ⟨h.order, h.nonempty, h.counts, fun hnone => ?_, h.left, h.closed⟩
      rcases h.knows with hpending | hshut
      · exact hpending hnone
      · exact hsome ⟨hshut, hnone⟩
  | leave hnone => exact ⟨h.order, h.nonempty, h.counts, hnone, h.left, h.closed⟩
  | report | refuse | fail =>
      exact ⟨h.order, h.nonempty, trivial, trivial, h.left, h.closed⟩
  | _ => exact ⟨h.order, h.nonempty, h.counts, trivial, h.left, h.closed⟩

theorem Kept.collect (h : Kept s pushed batches v)
    (hcollects : Collects v.consumer v.inbox deed c box) :
    Kept s pushed (batches ++ deed.takes) ⟨c, v.producer, box⟩ := by
  by_cases htakes : deed.takes = []
  · rw [htakes, List.append_nil]
    exact h.goOn hcollects htakes
  · obtain ⟨consumer, producer, inbox⟩ := v
    cases hcollects with
    | take count => exact h.take rfl
    | _ => exact absurd rfl htakes

theorem Kept.step (h : Kept s pushed batches v) (step : Step v deed v') :
    Kept s (pushed ++ deed.pushes) (batches ++ deed.takes) v' := by
  obtain ⟨consumer, producer, inbox⟩ := v
  cases step with
  | collect hcollects =>
      rw [hcollects.pushes, List.append_nil]
      exact h.collect hcollects
  | emit hemits =>
      rw [hemits.takes, List.append_nil]
      have hemit := h.emit hemits
      cases hemits with
      | announce => exact hemit.woken
      | call => exact hemit.woken
      | _ => exact hemit
  | wake =>
      simp only [Deed.pushes, Deed.takes, List.append_nil]
      exact h.woken

/-- When nothing is left, all events have been pushed, taken and counted. -/
theorem Kept.complete (h : Kept s pushed batches v) {count : Count}
    (hc : v.consumer = .finishing count) : batches.flatten = pushed ∧
      pushed.length = s.bursts * s.events ∧ count = ⟨batches.length, pushed.length⟩ := by
  obtain ⟨consumer, producer, inbox⟩ := v
  obtain rfl : consumer = .finishing count := hc
  obtain ⟨hshut, hpending⟩ : inbox.shutdown = true ∧ inbox.pending = [] := h.knows
  have horder : batches.flatten = pushed := by
    have horder := h.order
    rwa [hpending, List.append_nil] at horder
  have hleft : producer.left = 0 := by
    have hclosed := h.closed hshut
    cases producer with
    | resting left => exact hclosed.elim
    | owing left => exact hclosed.elim
    | closing => rfl
    | done => rfl
  refine ⟨horder, ?_, ?_⟩
  · have hsum := h.left
    rwa [hleft, Nat.add_zero] at hsum
  · rw [← horder]
    exact h.counts

/-! ### What is told in the end -/

/-- Whatever is told of the end is true: the number of batches, and that no event is missing. -/
def Faithful (s : Settings) (pushed : List Nat) (batches : List (List Nat)) (v : View)
    (m : ProgramMachine) : Prop :=
  ∀ event, event.ofEnd = true → Tells m event →
    v.consumer = .over ∧ batches.flatten = pushed ∧ pushed.length = s.bursts * s.events ∧
      event = .finished batches.length (s.events * s.bursts)

/-- Once it is over, the consumer takes nothing. -/
theorem Step.over (step : Step v deed v') (hover : v.consumer = .over) :
    v'.consumer = .over ∧ deed.takes = [] := by
  obtain ⟨consumer, producer, inbox⟩ := v
  obtain rfl : consumer = .over := hover
  cases step with
  | collect hcollects =>
      cases hcollects
      exact ⟨rfl, rfl⟩
  | emit hemits => cases hemits <;> exact ⟨rfl, rfl⟩
  | wake => exact ⟨rfl, rfl⟩

theorem Step.report {count : Count} (step : Step v (.report count) v') :
    v.consumer = .finishing count ∧ v'.consumer = .over := by
  obtain ⟨consumer, producer, inbox⟩ := v
  cases step with
  | collect hcollects =>
      cases hcollects
      exact ⟨rfl, rfl⟩
  | emit hemits => cases hemits

theorem Faithful.step (h : Faithful s pushed batches v m) (hkept : Kept s pushed batches v)
    (step : Step v deed v')
    (told : ∀ event, event.ofEnd = true → Tells m' event → Tells m event ∨ event ∈ deed.said s) :
    Faithful s (pushed ++ deed.pushes) (batches ++ deed.takes) v' m' := by
  intro event hend htells
  rcases told event hend htells with htells | hsaid
  · obtain ⟨hover, horder, hlength, hevent⟩ := h event hend htells
    obtain ⟨hover', htakes⟩ := step.over hover
    -- all events have been pushed already
    have hpushes : deed.pushes = [] := by
      have hleft := (hkept.step step).left
      rw [List.length_append] at hleft
      exact List.eq_nil_of_length_eq_zero (by omega)
    rw [hpushes, htakes, List.append_nil, List.append_nil]
    exact ⟨hover', horder, hlength, hevent⟩
  · cases deed with
    | report count =>
        obtain ⟨hfinishing, hover⟩ := step.report
        obtain ⟨horder, hlength, rfl⟩ := hkept.complete hfinishing
        have hhandled : pushed.length = s.events * s.bursts := hlength.trans (Nat.mul_comm _ _)
        have hevent : event = .finished batches.length (s.events * s.bursts) := by
          simpa [Deed.said, Settings.tell, hhandled] using hsaid
        simp only [Deed.pushes, Deed.takes, List.append_nil]
        exact ⟨hover, horder, hlength, hevent⟩
    | _ => exact absurd hsaid List.not_mem_nil

/-! ### Moves -/

theorem Consumer.not_notify {th : Thread Place} (h : Consumer c th) {place : Place}
    (hc : th.control = .running place) (condvar : CondvarId) (all : Bool)
    (next : WakeResult → Place) : s.code place ≠ .notify condvar all next := by
  cases h with
  | gathering start hstate count =>
      cases hc
      cases hstate with
      | done result => cases result <;> exact nofun
      | _ => exact nofun
  | idling hstage => cases hc
  | deferring start delay deadline count stage => cases hc
  | ended => cases hc
  | _ =>
      cases hc
      exact nofun

theorem nextEvent_ne_notify (bursts events : Nat) (condvar : CondvarId) (all : Bool)
    (next : WakeResult → Place) : s.nextEvent bursts events ≠ .notify condvar all next := by
  cases events <;> exact nofun

/-- A notification of the producer may get lost; then it goes on all the same. -/
theorem Producer.lose {th : Thread Place} (h : Producer s e th) {place : Place}
    (hc : th.control = .running place) {condvar : CondvarId} {all : Bool}
    {next : WakeResult → Place} (hcode : s.code place = .notify condvar all next) (box : Inbox) :
    ∃ e', Emits e box .announce e' box ∧ pushes th.control = [] ∧
      Producer s e' { th with control := .running (next .noWaiters) } := by
  cases h with
  | announcing bursts events =>
      cases hc
      cases hcode
      exact ⟨_, .announce _ box, rfl, .resting bursts events⟩
  | calling =>
      cases hc
      cases hcode
      exact ⟨_, .call box, rfl, .ending⟩
  | burst bursts =>
      cases hc
      cases bursts with
      | zero => cases hcode
      | succ bursts => exact (nextEvent_ne_notify _ _ _ _ _ hcode).elim
  | event bursts events =>
      cases hc
      exact (nextEvent_ne_notify _ _ _ _ _ hcode).elim
  | pausing bursts => cases hc
  | sleeping bursts events => cases hc
  | ended => cases hc
  | _ =>
      cases hc
      cases hcode

theorem Shows.lose (h : Shows s v m) {th : Thread Place} (hth : m.threads[t]? = some th)
    {place : Place} (hc : th.control = .running place) {condvar : CondvarId} {all : Bool}
    {next : WakeResult → Place} (hcode : s.code place = .notify condvar all next) :
    ∃ e, Emits v.producer v.inbox .announce e v.inbox ∧ pushedBy m t = [] ∧
      takenBy (m.setControl t (.running (next .noWaiters))) t = [] ∧
      Shows s { v with producer := e } (m.setControl t (.running (next .noWaiters))) := by
  rw [setControl_eq hth]
  rcases h.consumer_or_producer hth with ⟨rfl, hshape⟩ | ⟨rfl, hshape⟩
  · exact absurd hcode (hshape.not_notify hc condvar all next)
  · obtain ⟨e, hemits, hpushes, hshape'⟩ := hshape.lose hc hcode v.inbox
    have hset := getElem?_set_of_getElem? hth
      { th with control := Control.running (next .noWaiters) }
    have hprod := (hset producerThread).trans (if_pos rfl)
    have hunparked : th.control.parkedOn = none := by rw [hc]; rfl
    have hunreleased : th.control.released = false := by rw [hc]; rfl
    refine ⟨e, hemits, (pushedBy_of_thread hth).trans hpushes,
      (takenBy_of_thread hprod).trans hshape'.takes, h.parking.set hth hunparked rfl rfl rfl,
      h.guarded.keep hth hunreleased rfl rfl fun _ => rfl, ?_, ⟨_, hprod, hshape'⟩, ?_, h.state⟩
    · obtain ⟨consumer, hconsumer, hc⟩ := h.consumer
      exact ⟨consumer, by rw [hset, if_neg (by decide), hconsumer], hc⟩
    · intro u hmain hprod
      rw [hset, if_neg hprod, h.both u hmain hprod]

/-- The program at some point of a run: what its view is, and that all is kept. -/
structure Whole (s : Settings) (pushed : List Nat) (batches : List (List Nat)) (v : View)
    (m : ProgramMachine) : Prop where
  shows : Shows s v m
  kept : Kept s pushed batches v
  faithful : Faithful s pushed batches v m

/-- A move that nobody but the consumer can notice. -/
theorem Whole.quiet (h : Whole s pushed batches v m) (step : Step v .nothing v')
    (hshows : Shows s v' m') (htells : ∀ event, Tells m' event → Tells m event) :
    Whole s (pushed ++ []) (batches ++ []) v' m' where
  shows := hshows
  kept := h.kept.step step
  faithful := h.faithful.step h.kept step fun event _ ht => .inl (htells event ht)

theorem Whole.lose (h : Whole s pushed batches v m)
    (hemits : Emits v.producer v.inbox .announce e v.inbox)
    (hshows : Shows s { v with producer := e } m') (hlog : m'.log = m.log) :
    Whole s pushed batches { v with producer := e } m' where
  shows := hshows
  kept := by simpa [Deed.pushes] using h.kept.emit hemits
  faithful event hend htells := h.faithful event hend (by simpa [Tells, hlog] using htells)

theorem Whole.move {who : Option ThreadId} (h : Whole s pushed batches v m)
    (move : Move s m who m') :
    ∃ v', Whole s (pushed ++ who.elim [] (pushedBy m)) (batches ++ who.elim [] (takenBy m')) v' m' := by
  cases move with
  | @step t m' hs =>
      obtain ⟨deed, v', seen⟩ := h.shows.stepped hs
      rw [Option.elim_some, Option.elim_some, seen.pushes, seen.takes]
      exact ⟨v', seen.shows, h.kept.step seen.step,
        h.faithful.step h.kept seen.step seen.told⟩
  | @lose t th place condvar all next hth hc hcode =>
      obtain ⟨e, hemits, hpushes, htakes, hshows⟩ := h.shows.lose hth hc hcode
      rw [Option.elim_some, Option.elim_some, hpushes, htakes, List.append_nil, List.append_nil]
      exact ⟨_, h.lose hemits hshows rfl⟩
  | expire instant hp hu hle =>
      obtain ⟨v', step, hshows⟩ := h.shows.expire hp hu hle
      exact ⟨v', h.quiet step hshows fun _ => id⟩
  | wake condvar all =>
      obtain ⟨v', step, hshows⟩ := h.shows.woke (woke_notify m none condvar all)
        (h.shows.parking.notify none condvar all) (h.shows.guarded.notify none condvar all)
        (mutexes_notify ..)
      exact ⟨v', h.quiet step hshows fun _ => tells_of_notify rfl⟩
  | time mono clocks =>
      exact ⟨v, h.quiet (.collect (.stay _ _)) (h.shows.congr rfl rfl rfl) fun _ => id⟩

theorem Recorded.whole (hbegun : Begun s m₀) (h : Recorded s m₀ pushed batches m) :
    ∃ v, Whole s pushed batches v m := by
  induction h with
  | start =>
      exact ⟨.start s, hbegun.shows, kept_start s,
        fun event hend htells => absurd htells (hbegun.told event hend)⟩
  | move _ move ih =>
      obtain ⟨v, hwhole⟩ := ih
      exact hwhole.move move

/-- For all settings, in every order of the steps of both threads, of lost notifications, of
wake-ups and of ends of parks, and for every behaviour of the clocks: the batches taken so far and
then what is pending are the events pushed so far, in order, and no batch is empty. When the program
tells that it has finished it has handled all events, and it never tells that some were not. -/
theorem batches_of_recorded (hbegun : Begun s m₀) (h : Recorded s m₀ pushed batches m) :
    (∃ box, m.state? inbox = some box ∧ batches.flatten ++ box.pending = pushed) ∧
    (∀ batch ∈ batches, batch ≠ []) ∧
    (∀ number handled, Tells m (.finished number handled) →
      handled = s.events * s.bursts ∧ number = batches.length ∧ batches.flatten = pushed ∧
        pushed.length = handled) ∧
    ∀ expected handled, ¬Tells m (.unhandled expected handled) := by
  obtain ⟨v, hwhole⟩ := h.whole hbegun
  refine ⟨⟨v.inbox, hwhole.shows.state, hwhole.kept.order⟩, hwhole.kept.nonempty, ?_, ?_⟩
  · intro number handled htells
    obtain ⟨-, horder, hlength, hevent⟩ := hwhole.faithful _ rfl htells
    obtain ⟨rfl, rfl⟩ := Event.finished.inj hevent
    exact ⟨rfl, rfl, horder, hlength.trans (Nat.mul_comm _ _)⟩
  · intro expected handled htells
    obtain ⟨-, -, -, hevent⟩ := hwhole.faithful _ rfl htells
    cases hevent

/-! ### Given orders -/

theorem Recorded.take {turn : Turn} {shown : Machine.Event}
    (h : Recorded s m₀ pushed batches m) (htake : m.take s.code turn = some (shown, m')) :
    ∃ pushed' batches', Recorded s m₀ pushed' batches' m' := by
  cases turn with
  | step t =>
      obtain ⟨m', hs, he⟩ := Option.map_eq_some_iff.mp htake
      cases he
      exact ⟨_, _, h.move (.step hs)⟩
  | expire t =>
      obtain ⟨p, hp, htake⟩ := Option.bind_eq_some_iff.mp htake
      obtain ⟨u, hu, he⟩ := Option.map_eq_some_iff.mp htake
      cases he
      exact ⟨_, _, h.move (.expire u (List.mem_of_find?_eq_some hp) hu (Int.le_refl u))⟩

theorem Recorded.play {es : List Machine.Event} (h : Recorded s m₀ pushed batches m)
    (turns : List Turn) (hplay : m.play s.code turns = some (es, m')) :
    ∃ pushed' batches', Recorded s m₀ pushed' batches' m' := by
  induction turns generalizing m es pushed batches with
  | nil =>
      cases hplay
      exact ⟨_, _, h⟩
  | cons turn turns ih =>
      obtain ⟨⟨e, m₁⟩, htake, hplay⟩ := Option.bind_eq_some_iff.mp hplay
      obtain ⟨⟨es₁, m₂⟩, hplay, he⟩ := Option.map_eq_some_iff.mp hplay
      cases he
      obtain ⟨pushed', batches', h'⟩ := h.take htake
      exact ih h' hplay

/-- The consumer is queued before the first event, and does not look before both events are pending
and the flag is set. -/
def lateLook : List Turn :=
  List.replicate 5 (.step mainThread) ++ List.replicate 18 (.step producerThread) ++
    List.replicate 16 (.step mainThread)

theorem batches_of_late_look : ∃ pushed batches m, Begun hasty hastyStart ∧
    Recorded hasty hastyStart pushed batches m ∧ Tells m (.finished 1 2) ∧
    batches.length = 1 ∧ batches.flatten = pushed ∧ pushed.length = 2 := by
  obtain ⟨m, es, hplay, htells⟩ : ∃ m es, hastyStart.play hasty.code lateLook = some (es, m) ∧
      Tells m (.finished 1 2) := ⟨_, _, rfl, _, List.mem_cons_self, rfl⟩
  obtain ⟨pushed, batches, h⟩ := Recorded.start.play lateLook hplay
  obtain ⟨-, -, hfinished, -⟩ := batches_of_recorded begun_hastyStart h
  obtain ⟨-, hnumber, horder, hlength⟩ := hfinished 1 2 htells
  exact ⟨pushed, batches, m, begun_hastyStart, h, htells, hnumber.symm, horder, hlength⟩

/-! ### The program by itself -/

theorem exists_recorded_runThreads (s : Settings) (m : ProgramMachine) :
    ∃ pushed batches, Recorded s m pushed batches (runThreads s m) := by
  have hstep {m₁ m₂ : ProgramMachine} {t : ThreadId} (hs : m₁.step s.code t = some m₂)
      (h : ∃ pushed batches, Recorded s m pushed batches m₁) :
      ∃ pushed batches, Recorded s m pushed batches m₂ := by
    obtain ⟨_, _, h⟩ := h
    exact ⟨_, _, h.move (.step hs)⟩
  refine elapse_keeps hstep (fun {m₁ p u} hp hu h => ?_) _ _ _ (settle_keeps hstep _ ?_)
  · obtain ⟨_, _, h⟩ := h
    exact ⟨_, _, h.move (.expire u hp hu (Int.le_refl u))⟩
  · exact ⟨[], [], .start⟩

theorem not_tells_write (h : ∀ event, event.ofEnd = true → ¬Tells m event)
    {notes : List (Note Event)} (hnotes : notes.any noteOfEnd = false) (event : Event)
    (hend : event.ofEnd = true) : ¬Tells (m.write t notes) event :=
  fun htells => h event hend (tells_of_logWith rfl hnotes hend htells)

theorem unhandled_not_mem_start {log : List (Entry Event)}
    (hquiet : ∀ event, event.ofEnd = true → ¬Tells { machine with log := log } event)
    (s : Settings) (expected handled : Nat) :
    ∀ entry ∈ (start s { machine with log := log }).log,
      entry.note ≠ .event (.unhandled expected handled) := by
  intro entry hmem hnote
  have hwarning : (if s.delay ≤ s.spacing then [Note.event (.wideSpacing s.spacing s.delay)]
      else []).any noteOfEnd = false := by
    split <;> rfl
  have hwarned := not_tells_write (t := mainThread) hquiet hwarning
  rw [start] at hmem
  split at hmem
  · rename_i m e hbind
    -- the clock could not be bound, and a record of it is all that was added
    have htells : Tells m (.unhandled expected handled) :=
      ⟨entry, List.mem_reverse.mp hmem, hnote⟩
    rw [Machine.bind] at hbind
    split at hbind
    · cases hbind
      exact not_tells_write hwarned rfl _ rfl htells
    · cases hbind
  · rename_i m condvar hbind
    have htells : Tells _ (.unhandled expected handled) :=
      ⟨entry, List.mem_reverse.mp hmem, hnote⟩
    have hbegun := begun_of_bind hwarned hbind
    obtain ⟨pushed, batches, h⟩ := exists_recorded_runThreads s _
    obtain ⟨v, hwhole⟩ := h.whole hbegun
    obtain ⟨-, -, -, hevent⟩ := hwhole.faithful _ rfl htells
    cases hevent

/-- Whatever its environment, the program never tells that events were not handled. -/
theorem unhandled_not_mem_run (env : Environment) (expected handled : Nat) :
    ∀ entry ∈ (run env).log, entry.note ≠ .event (.unhandled expected handled) := by
  have hquiet : ∀ event, event.ofEnd = true → ¬Tells machine event :=
    fun _ _ ⟨_, hmem, _⟩ => absurd hmem List.not_mem_nil
  have hlogged : ∀ event, event.ofEnd = true → ¬Tells (machine.write mainThread
      [.event (.logging (Logging.ofEnvironment env).json)]) event :=
    not_tells_write hquiet rfl
  intro entry hmem hnote
  rw [run] at hmem
  split at hmem
  · exact hlogged _ rfl ⟨entry, List.mem_reverse.mp hmem, hnote⟩
  · exact unhandled_not_mem_start hlogged _ expected handled entry hmem hnote

end TimedCondvar.Demo
