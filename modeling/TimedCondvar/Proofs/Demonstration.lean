import TimedCondvar.Proofs.Roles

/-!
The demonstration as a whole, seen from what matters of it: how far the consumer and the producer
have got, and the inbox between them. `Shows` says what such a view has to do with a machine, and
each move of the program is a step from one view to another.
-/

namespace TimedCondvar.Demo

open Machine

variable {s : Settings} {m m' : ProgramMachine} {t : ThreadId} {th : Thread Place}
  {c c' : Collecting} {e e' : Emitting} {box box' : Inbox} {deed : Deed}

/-! ### Both together -/

/-- The program as far as it matters. -/
structure View where
  consumer : Collecting
  producer : Emitting
  inbox : Inbox

/-- What a deed of the producer is to the consumer. -/
def Collecting.after (c : Collecting) : Deed → Collecting
  | .announce => c.woken
  | _ => c

/-- What a move does to the view. The inbox does not change under a consumer that found nothing to
do and has not let go of the mutex. -/
inductive Step (v : View) : Deed → View → Prop
  | collect {deed : Deed} {c : Collecting} {box : Inbox}
      (h : Collects v.consumer v.inbox deed c box) : Step v deed ⟨c, v.producer, box⟩
  | emit {deed : Deed} {e : Emitting} {box : Inbox} (h : Emits v.producer v.inbox deed e box)
      (hfree : box = v.inbox ∨ ∀ count, v.consumer ≠ .decided count) :
      Step v deed ⟨v.consumer.after deed, e, box⟩
  | wake : Step v .nothing { v with consumer := v.consumer.woken }

/-- The machine is as the view says. Its two threads are all there are. -/
structure Shows (s : Settings) (v : View) (m : ProgramMachine) : Prop where
  parking : Parking m
  guarded : Guarded m
  consumer : ∃ th, m.threads[mainThread]? = some th ∧ Consumer v.consumer th
  producer : ∃ th, m.threads[producerThread]? = some th ∧ Producer s v.producer th
  both : ∀ t, t ≠ mainThread → t ≠ producerThread → m.threads[t]? = none
  state : m.state? inbox = some v.inbox

variable {v v' : View}

/-- Being woken is nothing to a consumer that is not queued. -/
theorem Consumer.wake (h : Consumer c th) (b : Bool) : Consumer c.woken (th.wake b) := by
  have hsame := h
  cases h with
  | idling hstage =>
      cases hstage with
      | queued => exact .idling (.woken b)
      | _ => exact hsame
  | deferring start delay deadline count stage =>
      cases stage with
      | queued timed => exact .deferring start delay deadline count (.woken b timed)
      | _ => exact hsame
  | _ => exact hsame

theorem Producer.wake (h : Producer s e th) (b : Bool) : Producer s e (th.wake b) := by
  have hsame := h
  cases h with
  | pausing bursts => exact .burst bursts
  | sleeping bursts events => exact .event bursts events
  | _ => exact hsame

/-- A consumer that is not queued is as far as one that is woken. -/
theorem Consumer.woken_of_unqueued (h : Consumer c th)
    (hp : th.control.parkedOn ≠ some (some signalled)) : c.woken = c := by
  cases h with
  | idling h =>
      cases h with
      | queued => exact absurd rfl hp
      | _ => rfl
  | _ => rfl

theorem Consumer.holding {count : Count} (h : Consumer (.decided count) th) :
    th.holding = some inbox := by
  cases h with
  | block => rfl
  | idling hstage => cases hstage <;> rfl

theorem Producer.parkedOn (h : Producer s e th) :
    th.control.parkedOn ≠ some (some signalled) := by
  cases h <;> exact nofun

/-! ### Moves -/

theorem Shows.consumer_or_producer (h : Shows s v m) (hth : m.threads[t]? = some th) :
    t = mainThread ∧ Consumer v.consumer th ∨ t = producerThread ∧ Producer s v.producer th := by
  by_cases hmain : t = mainThread
  · subst hmain
    obtain ⟨th', hth', hshape⟩ := h.consumer
    obtain rfl : th' = th := by simpa [hth'] using hth
    exact .inl ⟨rfl, hshape⟩
  by_cases hprod : t = producerThread
  · subst hprod
    obtain ⟨th', hth', hshape⟩ := h.producer
    obtain rfl : th' = th := by simpa [hth'] using hth
    exact .inr ⟨rfl, hshape⟩
  · rw [h.both t hmain hprod] at hth
    cases hth

theorem Shows.eq_mainThread_of_mem_queue (h : Shows s v m) (ht : t ∈ m.queue signalled) :
    t = mainThread := by
  obtain ⟨th, hth, hp⟩ := Option.bind_eq_some_iff.mp (h.parking.mem_queue_iff.mp ht)
  rcases h.consumer_or_producer hth with ⟨hmain, -⟩ | ⟨-, hproducer⟩
  · exact hmain
  · exact absurd hp hproducer.parkedOn

/-- Nobody else can be queued, so a notification finds the consumer if it is. -/
theorem Shows.mainThread_mem_woken (h : Shows s v m) (hq : mainThread ∈ m.queue signalled)
    (all : Bool) : mainThread ∈ m.woken signalled all := by
  rw [woken]
  split
  · exact hq
  · cases hqueue : m.queue signalled with
    | nil => simp [hqueue] at hq
    | cons t ts =>
        have ht : t ∈ m.queue signalled := by simp [hqueue]
        simp [h.eq_mainThread_of_mem_queue ht]

theorem Shows.consumer_notify (h : Shows s v m) (thread : Option ThreadId) (all : Bool) :
    ∃ th, (m.notify thread signalled all).1.threads[mainThread]? = some th ∧
      Consumer v.consumer.woken th := by
  obtain ⟨th, hth, hconsumer⟩ := h.consumer
  rw [getElem?_threads_notify, hth]
  split
  · exact ⟨_, rfl, hconsumer.wake true⟩
  · rename_i hnot
    have hunqueued : th.control.parkedOn ≠ some (some signalled) := by
      intro hp
      refine hnot (h.mainThread_mem_woken (h.parking.mem_queue_iff.mpr ?_) all)
      rw [parkedOn?, hth, Option.bind_some, hp]
    rw [hconsumer.woken_of_unqueued hunqueued]
    exact ⟨th, rfl, hconsumer⟩

/-- A notification is nothing to a thread other than the consumer. -/
theorem Shows.threads_notify (h : Shows s v m) (thread : Option ThreadId) (all : Bool)
    (ht : t ≠ mainThread) :
    (m.notify thread signalled all).1.threads[t]? = m.threads[t]? := by
  rw [getElem?_threads_notify, if_neg]
  exact fun hw => ht (h.eq_mainThread_of_mem_queue (mem_queue_of_mem_woken hw))

theorem Shows.consumer_notified (h : Shows s v m) (t : ThreadId) (deed : Deed) :
    ∃ th, (deed.notified m t).threads[mainThread]? = some th ∧
      Consumer (v.consumer.after deed) th := by
  cases deed with
  | announce => exact h.consumer_notify t false
  | _ => exact h.consumer

theorem Shows.threads_notified (h : Shows s v m) (u : ThreadId) (deed : Deed)
    (ht : t ≠ mainThread) : (deed.notified m u).threads[t]? = m.threads[t]? := by
  cases deed with
  | announce => exact h.threads_notify u false ht
  | _ => rfl

/-- Only one thread has the mutex. -/
theorem Shows.undecided (h : Shows s v m) (hth : m.threads[producerThread]? = some th)
    (hholding : th.holding = some inbox) (count : Count) : v.consumer ≠ .decided count := by
  intro hdecided
  obtain ⟨consumer, hconsumer, hshape⟩ := h.consumer
  rw [hdecided] at hshape
  have hmain := h.guarded.holder hconsumer hshape.holding
  rw [h.guarded.holder hth hholding] at hmain
  cases hmain

/-- What the next step of the thread pushes. -/
def pushedBy (m : ProgramMachine) (t : ThreadId) : List Nat := (m.control? t).elim [] pushes

/-- What the last step of the thread took. -/
def takenBy (m : ProgramMachine) (t : ThreadId) : List (List Nat) := (m.control? t).elim [] takes

theorem pushedBy_of_thread (hth : m.threads[t]? = some th) : pushedBy m t = pushes th.control := by
  rw [pushedBy, control?, hth]
  rfl

theorem takenBy_of_thread (hth : m.threads[t]? = some th) : takenBy m t = takes th.control := by
  rw [takenBy, control?, hth]
  rfl

/-- A step of a thread, seen from the view: its deed, and what it pushed, took and told. -/
structure Seen (s : Settings) (t : ThreadId) (m m' : ProgramMachine) (v : View) (deed : Deed)
    (v' : View) : Prop where
  step : Step v deed v'
  shows : Shows s v' m'
  pushes : pushedBy m t = deed.pushes
  takes : takenBy m' t = deed.takes
  told : ∀ event, event.ofEnd = true → Tells m' event → Tells m event ∨ event ∈ deed.said s

theorem Collects.pushes (h : Collects c box deed c' box') : deed.pushes = [] := by
  cases h <;> rfl

theorem Emits.takes (h : Emits e box deed e' box') : deed.takes = [] := by
  cases h <;> rfl

theorem Shows.stepped_consumer (h : Shows s v m) (hs : m.step s.code mainThread = some m')
    (hth : m.threads[mainThread]? = some th) (hshape : Consumer v.consumer th)
    (hst : Stepped s.code m mainThread th m') :
    ∃ deed v', Seen s mainThread m m' v deed v' := by
  obtain ⟨deed, c', th', box', step⟩ := hshape.stepped h.state hst
  have hthreads (u : ThreadId) :
      m'.threads[u]? = if u = mainThread then some th' else m.threads[u]? := by
    rw [step.threads, getElem?_set_of_getElem? hth]
  have hmain : m'.threads[mainThread]? = some th' := by rw [hthreads, if_pos rfl]
  refine ⟨deed, ⟨c', v.producer, box'⟩, .collect step.collects, ?_, ?_, ?_, step.told⟩
  · refine ⟨h.parking.next (.own (.step hs)), h.guarded.next (.own (.step hs)), ?_, ?_, ?_,
      step.state⟩
    · exact ⟨th', hmain, step.consumer⟩
    · obtain ⟨producer, hproducer, hp⟩ := h.producer
      exact ⟨producer, by rw [hthreads, if_neg (by decide), hproducer], hp⟩
    · intro u hmain hprod
      rw [hthreads, if_neg hmain, h.both u hmain hprod]
  · rw [pushedBy_of_thread hth, hshape.pushes, step.collects.pushes]
  · rw [takenBy_of_thread hmain, step.takes]

theorem Shows.stepped_producer (h : Shows s v m) (hs : m.step s.code producerThread = some m')
    (hth : m.threads[producerThread]? = some th) (hshape : Producer s v.producer th)
    (hst : Stepped s.code m producerThread th m') :
    ∃ deed v', Seen s producerThread m m' v deed v' := by
  obtain ⟨deed, e', th', box', step⟩ := hshape.stepped h.state hst
  have hth' : (deed.notified m producerThread).threads[producerThread]? = some th :=
    (h.threads_notified producerThread deed (by decide)).trans hth
  have hthreads (u : ThreadId) : m'.threads[u]? =
      if u = producerThread then some th' else (deed.notified m producerThread).threads[u]? := by
    rw [step.threads, getElem?_set_of_getElem? hth']
  have hprod : m'.threads[producerThread]? = some th' := by rw [hthreads, if_pos rfl]
  refine ⟨deed, ⟨v.consumer.after deed, e', box'⟩, .emit step.emits ?_, ?_, ?_, ?_,
    fun event hend htells => .inl (step.told event hend htells)⟩
  · exact step.held.imp_right fun hholding => h.undecided hth hholding
  · refine ⟨h.parking.next (.own (.step hs)), h.guarded.next (.own (.step hs)), ?_, ?_, ?_,
      step.state⟩
    · obtain ⟨consumer, hconsumer, hc⟩ := h.consumer_notified producerThread deed
      exact ⟨consumer, by rw [hthreads, if_neg (by decide), hconsumer], hc⟩
    · exact ⟨th', hprod, step.producer⟩
    · intro u hmain hprod
      rw [hthreads, if_neg hprod, h.threads_notified _ _ hmain, h.both u hmain hprod]
  · rw [pushedBy_of_thread hth, step.pushes]
  · rw [takenBy_of_thread hprod, step.producer.takes, step.emits.takes]

/-- Every step of the program is a step of the view. -/
theorem Shows.stepped (h : Shows s v m) (hs : m.step s.code t = some m') :
    ∃ deed v', Seen s t m m' v deed v' := by
  obtain ⟨th, hth, hst⟩ := stepped_of_step hs
  rcases h.consumer_or_producer hth with ⟨rfl, hshape⟩ | ⟨rfl, hshape⟩
  · exact h.stepped_consumer hs hth hshape hst
  · exact h.stepped_producer hs hth hshape hst

/-- A thread that is woken, by whomever, goes on, and may be the consumer. -/
theorem Shows.woke (h : Shows s v m) {b : Bool} {ts : List ThreadId} (hw : Woke m b ts m')
    (hparking : Parking m') (hguarded : Guarded m') (hmutexes : m'.mutexes = m.mutexes) :
    ∃ v', Step v .nothing v' ∧ Shows s v' m' := by
  have hproducer : ∃ th, m'.threads[producerThread]? = some th ∧ Producer s v.producer th := by
    obtain ⟨th, hth, hshape⟩ := h.producer
    rw [hw, hth]
    split
    · exact ⟨_, rfl, hshape.wake b⟩
    · exact ⟨th, rfl, hshape⟩
  have hboth (t : ThreadId) (hmain : t ≠ mainThread) (hprod : t ≠ producerThread) :
      m'.threads[t]? = none := by
    rw [hw, h.both t hmain hprod]
    split <;> rfl
  have hstate := (state?_congr hmutexes inbox).trans h.state
  obtain ⟨th, hth, hshape⟩ := h.consumer
  by_cases hmem : mainThread ∈ ts
  · refine ⟨_, .wake, hparking, hguarded, ⟨th.wake b, ?_, hshape.wake b⟩, hproducer, hboth, hstate⟩
    rw [hw, if_pos hmem, hth]
    rfl
  · refine ⟨v, .collect (.stay _ _), hparking, hguarded, ⟨th, ?_, hshape⟩, hproducer, hboth, hstate⟩
    rw [hw, if_neg hmem, hth]

/-- The end of a park. -/
theorem Shows.expire (h : Shows s v m) {p : Parked} {u instant : Int} (hp : p ∈ m.parked)
    (hu : p.wakeAt = some u) (hle : u ≤ instant) :
    ∃ v', Step v .nothing v' ∧ Shows s v' (m.expire instant p.thread) := by
  have hnext : Next s.code m (.expired p.thread) (m.expire instant p.thread) :=
    .own (.expire instant hp hu hle)
  exact h.woke (woke_expire m instant p.thread) (h.parking.next hnext) (h.guarded.next hnext) rfl

theorem Shows.congr (h : Shows s v m) (hparked : m'.parked = m.parked)
    (hthreads : m'.threads = m.threads) (hmutexes : m'.mutexes = m.mutexes) : Shows s v m' where
  parking := h.parking.congr hparked fun u => by rw [parkedOn?, parkedOn?, hthreads]
  guarded := h.guarded.congr hthreads fun x => by rw [holder?, holder?, hmutexes]
  consumer := by rw [hthreads]; exact h.consumer
  producer := by rw [hthreads]; exact h.producer
  both := by rw [hthreads]; exact h.both
  state := (state?_congr hmutexes inbox).trans h.state

/-! ### The start -/

/-- Both threads are spawned and nothing has happened yet. -/
structure Begun (s : Settings) (m : ProgramMachine) : Prop where
  threads : m.threads = [⟨.running .entering, none⟩, ⟨.running (.burst s.bursts), none⟩]
  mutexes : m.mutexes = [{ state := {} }]
  condvars : m.condvars = [{ clock := s.clock }]
  parked : m.parked = []
  told : ∀ event, event.ofEnd = true → ¬Tells m event

def View.start (s : Settings) : View := ⟨.arriving, .resting (s.bursts * s.events), {}⟩

theorem Begun.fresh (h : Begun s m) : Fresh m where
  threads th hth := by
    rw [h.threads] at hth
    rcases List.mem_pair.mp hth with rfl | rfl
    · exact ⟨⟨.entering, rfl⟩, rfl⟩
    · exact ⟨⟨.burst s.bursts, rfl⟩, rfl⟩
  parked := h.parked
  condvars cv hcv := by
    rw [h.condvars] at hcv
    obtain rfl := List.mem_singleton.mp hcv
    rfl
  mutexes x hx := by
    rw [h.mutexes] at hx
    obtain rfl := List.mem_singleton.mp hx
    rfl

theorem Begun.shows (h : Begun s m) : Shows s (.start s) m where
  parking := h.fresh.parking
  guarded := h.fresh.guarded
  consumer := ⟨_, by rw [h.threads]; rfl, .entering⟩
  producer := ⟨_, by rw [h.threads]; rfl, .burst s.bursts⟩
  both t hmain hprod := by
    rw [h.threads]
    match t with
    | 0 => exact absurd rfl hmain
    | 1 => exact absurd rfl hprod
    | _ + 2 => rfl
  state := by rw [state?, h.mutexes]; rfl

/-- So the program begins once its clock is bound, whatever it logged before. -/
theorem begun_of_bind {log : List (Entry Event)}
    (hquiet : ∀ event, event.ofEnd = true → ¬Tells { machine with log := log } event)
    {condvar : CondvarId}
    (hbind : Machine.bind { machine with log := log } mainThread s.clock = (m, .ok condvar)) :
    Begun s (spawnBoth s (m.write mainThread [.event (.starting s)])) := by
  rw [Machine.bind] at hbind
  split at hbind
  · cases hbind
  · cases hbind
    refine ⟨rfl, rfl, rfl, rfl, fun event hend htells => ?_⟩
    obtain ⟨entry, hmem, hnote⟩ := htells
    rcases List.mem_cons.mp hmem with rfl | hmem
    · cases hnote
      cases hend
    rcases List.mem_cons.mp hmem with rfl | hmem
    · cases hnote
    exact hquiet event hend ⟨entry, hmem, hnote⟩

/-- Two events in one burst, with no time between anything. -/
def hasty : Settings :=
  { delay := .zero, spacing := .zero, events := 2, bursts := 1, clock := .monotonic }

def hastyStart : ProgramMachine :=
  spawnBoth hasty ((machine.bind mainThread hasty.clock).1.write mainThread
    [.event (.starting hasty)])

theorem begun_hastyStart : Begun hasty hastyStart :=
  begun_of_bind (fun _ _ ⟨_, hmem, _⟩ => absurd hmem List.not_mem_nil) rfl

end TimedCondvar.Demo
