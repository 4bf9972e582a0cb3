import TimedCondvar.Demo.Program
import TimedCondvar.Proofs.Handoff

/-!
The two threads of the demonstration, each by itself. Of the consumer it matters how far it has got
with a batch, of the producer how many events it has still to push and whether it has told of what
it did. `Collects` and `Emits` list what the two do to the inbox between them, and every step of
either thread is one of the list. All else about the program is shown of these lists.
-/

namespace TimedCondvar.Demo

open Machine

/-! ### The consumer -/

/-- How far the consumer has got. -/
inductive Collecting
  /-- It does not have the mutex yet. -/
  | arriving
  /-- It is about to look into the inbox, or woken to do so. -/
  | looking (count : Count)
  /-- It found nothing to do and has not let go of the mutex since. -/
  | decided (count : Count)
  /-- It is queued without a deadline. -/
  | queued (count : Count)
  /-- It found that there is something to do, or that nothing will come. -/
  | assured (count : Count)
  /-- It waits for the burst to go quiet, or is about to take what has come. -/
  | gathering (count : Count)
  | handling (count : Count)
  /-- It found nothing left. -/
  | finishing (count : Count)
  | over

def Collecting.woken : Collecting → Collecting
  | .queued count => .looking count
  | c => c

/-- The consumer at a stage of the wait without a deadline. -/
def idling (count : Count) (stage : Stage) : Thread Place :=
  ⟨.waiting signalled none stage fun r => .idle (Policy.forever.returned r) count, some inbox⟩

/-- The stages of the wait without a deadline, and how far the consumer has got in each. -/
inductive Idling (count : Count) : Stage → Collecting → Prop
  | entering : Idling count .entering (.decided count)
  | parking : Idling count (.parking none) (.decided count)
  | queued : Idling count (.queued none) (.queued count)
  | woken (notified : Bool) : Idling count (.woken notified none) (.looking count)
  | leaving : Idling count (.leaving .notified) (.looking count)

/-- The consumer at a stage of a wait for quiet. -/
def deferring (start : Int) (delay : Duration) (deadline : Time) (count : Count) (stage : Stage) :
    Thread Place :=
  ⟨.waiting signalled (some deadline) stage fun r =>
      .gathering start ((Policy.quiet delay).returned r) count,
    some inbox⟩

/-- Where the loop around these waits can stand. It never waits without a deadline. -/
inductive Deferring : Policy.State → Prop
  | check (delay : Duration) : Deferring (.check (.quiet delay))
  | arm (delay interval : Duration) : Deferring (.arm (.quiet delay) interval)
  | block (delay : Duration) (deadline : Time) : Deferring (.block (.quiet delay) (some deadline))
  | done (result : Except SyncError Bool) : Deferring (.done result)

/-- What the consumer can be like. It has the mutex, or gave it up to wait, until it leaves. -/
inductive Consumer : Collecting → Thread Place → Prop
  | entering : Consumer .arriving ⟨.running .entering, none⟩
  | check (count : Count) :
      Consumer (.looking count) ⟨.running (.idle (.check .forever) count), some inbox⟩
  | block (count : Count) :
      Consumer (.decided count) ⟨.running (.idle (.block .forever none) count), some inbox⟩
  | idling {count : Count} {stage : Stage} {c : Collecting} (h : Idling count stage c) :
      Consumer c (idling count stage)
  | ready (count : Count) :
      Consumer (.assured count) ⟨.running (.idle (.done (.ok true)) count), some inbox⟩
  | refused (e : SyncError) (count : Count) :
      Consumer .over ⟨.running (.idle (.done (.error e)) count), some inbox⟩
  | opening (count : Count) : Consumer (.gathering count) ⟨.running (.opening count), some inbox⟩
  | opened (start : Int) (count : Count) :
      Consumer (.gathering count) ⟨.running (.opened start count), some inbox⟩
  | gathering (start : Int) {state : Policy.State} (h : Deferring state) (count : Count) :
      Consumer (.gathering count) ⟨.running (.gathering start state count), some inbox⟩
  | deferring (start : Int) (delay : Duration) (deadline : Time) (count : Count) (stage : Stage) :
      Consumer (.gathering count) (deferring start delay deadline count stage)
  | gathered (e : WaitSpan.End) (count : Count) :
      Consumer (.gathering count) ⟨.running (.gathered e count), some inbox⟩
  | taking (count : Count) : Consumer (.gathering count) ⟨.running (.taking count), some inbox⟩
  | taken (batch : List Nat) (count : Count) :
      Consumer (.handling count) ⟨.running (.taken batch count), some inbox⟩
  | leaving (count : Count) : Consumer (.finishing count) ⟨.running (.leaving count), some inbox⟩
  | joining (count : Count) : Consumer (.finishing count) ⟨.running (.joining count), none⟩
  | telling (count : Count) : Consumer (.finishing count) ⟨.running (.telling count), none⟩
  | failing : Consumer .over ⟨.running .failing, some inbox⟩
  | ending : Consumer .over ⟨.running .ending, none⟩
  | ended : Consumer .over ⟨.ended, none⟩

/-! ### The producer -/

/-- How many events the producer has still to push, and what it has not told of yet. -/
inductive Emitting
  | resting (left : Nat)
  /-- It has pushed an event. -/
  | owing (left : Nat)
  /-- It has set the flag. -/
  | closing
  | done

/-- What the producer can be like. It never waits. -/
inductive Producer (s : Settings) : Emitting → Thread Place → Prop
  | burst (bursts : Nat) :
      Producer s (.resting (bursts * s.events)) ⟨.running (.burst bursts), none⟩
  | pausing (bursts : Nat) :
      Producer s (.resting (bursts * s.events)) ⟨.sleeping (.burst bursts), none⟩
  | event (bursts events : Nat) :
      Producer s (.resting (bursts * s.events + events)) ⟨.running (.event bursts events), none⟩
  | stamping (bursts events : Nat) : Producer s (.resting (bursts * s.events + events + 1))
      ⟨.running (.stamping bursts events), some inbox⟩
  | pushing (bursts events stamp : Nat) : Producer s (.resting (bursts * s.events + events + 1))
      ⟨.running (.pushing bursts events stamp), some inbox⟩
  | pushed (bursts events : Nat) : Producer s (.owing (bursts * s.events + events))
      ⟨.running (.pushed bursts events), some inbox⟩
  | announcing (bursts events : Nat) : Producer s (.owing (bursts * s.events + events))
      ⟨.running (.announcing bursts events), none⟩
  | resting (bursts events : Nat) :
      Producer s (.resting (bursts * s.events + events)) ⟨.running (.resting bursts events), none⟩
  | sleeping (bursts events : Nat) :
      Producer s (.resting (bursts * s.events + events)) ⟨.sleeping (.event bursts events), none⟩
  | closing : Producer s (.resting 0) ⟨.running .closing, some inbox⟩
  | closed : Producer s .closing ⟨.running .closed, some inbox⟩
  | calling : Producer s .closing ⟨.running .calling, none⟩
  | ending : Producer s .done ⟨.running .ending, none⟩
  | ended : Producer s .done ⟨.ended, none⟩

/-! ### What they do -/

/-- What a step of a thread does that another one could notice, or the user. -/
inductive Deed
  | nothing
  | push (stamp : Nat)
  | close
  | announce
  | take (batch : List Nat)
  | report (count : Count)

def Deed.pushes : Deed → List Nat
  | .push stamp => [stamp]
  | _ => []

def Deed.takes : Deed → List (List Nat)
  | .take batch => [batch]
  | _ => []

def Deed.said (s : Settings) : Deed → List Event
  | .report count => s.tell count
  | _ => []

/-- There is something to do, or nothing will come. -/
def Inbox.Stirs (box : Inbox) : Prop := box.pending ≠ [] ∨ box.shutdown = true

/-- What the consumer does, with the inbox as it finds it and as it leaves it. -/
inductive Collects : Collecting → Inbox → Deed → Collecting → Inbox → Prop
  | stay (c : Collecting) (box : Inbox) : Collects c box .nothing c box
  | arrive (box : Inbox) : Collects .arriving box .nothing (.looking {}) box
  | met {count : Count} {box : Inbox} (h : box.Stirs) :
      Collects (.looking count) box .nothing (.assured count) box
  | unmet {count : Count} {box : Inbox} (h : ¬box.Stirs) :
      Collects (.looking count) box .nothing (.decided count) box
  | park (count : Count) (box : Inbox) :
      Collects (.decided count) box .nothing (.queued count) box
  | gather {count : Count} {box : Inbox} (h : ¬(box.shutdown = true ∧ box.pending = [])) :
      Collects (.assured count) box .nothing (.gathering count) box
  | take (count : Count) (box : Inbox) :
      Collects (.gathering count) box (.take box.pending)
        (.handling ⟨count.batches + 1, count.handled + box.pending.length⟩) { box with pending := [] }
  | handle (count : Count) (box : Inbox) :
      Collects (.handling count) box .nothing (.looking count) box
  | leave {count : Count} {box : Inbox} (h : box.shutdown = true ∧ box.pending = []) :
      Collects (.assured count) box .nothing (.finishing count) box
  | report (count : Count) (box : Inbox) :
      Collects (.finishing count) box (.report count) .over box
  /-- A wait failed. -/
  | refuse (count : Count) (box : Inbox) : Collects (.decided count) box .nothing .over box
  | fail (count : Count) (box : Inbox) : Collects (.gathering count) box .nothing .over box

/-- What the producer does. -/
inductive Emits : Emitting → Inbox → Deed → Emitting → Inbox → Prop
  | stay (e : Emitting) (box : Inbox) : Emits e box .nothing e box
  | push (left stamp : Nat) (box : Inbox) : Emits (.resting (left + 1)) box (.push stamp)
      (.owing left) { box with pending := box.pending ++ [stamp] }
  | announce (left : Nat) (box : Inbox) : Emits (.owing left) box .announce (.resting left) box
  | close (box : Inbox) : Emits (.resting 0) box .close .closing { box with shutdown := true }
  | call (box : Inbox) : Emits .closing box .announce .done box

/-! ### What is told in the end -/

/-- Whether an event tells of the end of the program. -/
def Event.ofEnd : Event → Bool
  | .finished _ _ | .unhandled _ _ => true
  | _ => false

def noteOfEnd : Note Event → Bool
  | .event event => event.ofEnd
  | _ => false

/-- The event is in the log. -/
def Tells (m : ProgramMachine) (event : Event) : Prop := ∃ entry ∈ m.log, entry.note = .event event

variable {s : Settings} {m m' : ProgramMachine} {t : ThreadId} {th th' : Thread Place}
  {c c' : Collecting} {e e' : Emitting} {box box' : Inbox} {deed : Deed} {event : Event}
  {notes : List (Note Event)}

theorem tells_logWith (h : m'.log = m.logWith t notes) (htells : Tells m' event) :
    Note.event event ∈ notes ∨ Tells m event := by
  obtain ⟨entry, hmem, hnote⟩ := htells
  rw [h, logWith] at hmem
  rcases List.mem_append.mp hmem with hmem | hmem
  · obtain ⟨note, hnotes, rfl⟩ := List.mem_map.mp (List.mem_reverse.mp hmem)
    exact .inl (hnote ▸ hnotes)
  · exact .inr ⟨entry, hmem, hnote⟩

/-- Nothing is told of the end by notes that are not about it. -/
theorem tells_of_logWith (h : m'.log = m.logWith t notes) (hnotes : notes.any noteOfEnd = false)
    (hend : event.ofEnd = true) (htells : Tells m' event) : Tells m event := by
  rcases tells_logWith h htells with hmem | htells
  · have hnot := List.any_eq_false.mp hnotes _ hmem
    exact absurd hend hnot
  · exact htells

theorem any_noteOfEnd_records (records : List Record) :
    (records.map (Note.record (ε := Event))).any noteOfEnd = false := by
  rw [List.any_map, List.any_eq_false]
  exact fun _ _ => Bool.false_ne_true

/-! ### Steps -/

/-- What the thread is about to push. -/
def pushes : Control Place → List Nat
  | .running (.pushing _ _ stamp) => [stamp]
  | _ => []

/-- The batch that the thread has just taken. -/
def takes : Control Place → List (List Nat)
  | .running (.taken batch _) => [batch]
  | _ => []

theorem Consumer.pushes (h : Consumer c th) : pushes th.control = [] := by
  cases h <;> rfl

theorem Producer.takes (h : Producer s e th) : takes th.control = [] := by
  cases h <;> rfl

/-- What a step of the consumer comes to. -/
structure ConsumerStep (s : Settings) (t : ThreadId) (m m' : ProgramMachine) (th : Thread Place)
    (c : Collecting) (box : Inbox) (deed : Deed) (c' : Collecting) (th' : Thread Place)
    (box' : Inbox) : Prop where
  collects : Collects c box deed c' box'
  consumer : Consumer c' th'
  takes : takes th'.control = deed.takes
  threads : m'.threads = m.threads.set t th'
  state : m'.state? inbox = some box'
  told : ∀ event, event.ofEnd = true → Tells m' event → Tells m event ∨ event ∈ deed.said s

theorem ConsumerStep.quiet (collects : Collects c box .nothing c' box) (consumer : Consumer c' th')
    (htakes : Demo.takes th'.control = []) (threads : m'.threads = m.threads.set t th')
    (state : m'.state? inbox = some box) (hlog : m'.log = m.logWith t notes)
    (hnotes : notes.any noteOfEnd = false) :
    ConsumerStep s t m m' th c box .nothing c' th' box :=
  ⟨collects, consumer, htakes, threads, state,
    fun _ hend htells => .inl (tells_of_logWith hlog hnotes hend htells)⟩

theorem ConsumerStep.silent (collects : Collects c box .nothing c' box) (consumer : Consumer c' th')
    (htakes : Demo.takes th'.control = []) (threads : m'.threads = m.threads.set t th')
    (state : m'.state? inbox = some box) (hlog : m'.log = m.log) :
    ConsumerStep s t m m' th c box .nothing c' th' box :=
  have hlog : m'.log = m.logWith t [] := hlog
  .quiet collects consumer htakes threads state hlog rfl

theorem state_of_state? (hbox : m.state? inbox = some box) {x : Mutex Inbox}
    (hx : m.mutexes[inbox]? = some x) : x.state = box := by
  rw [state?, hx] at hbox
  exact Option.some.inj hbox

theorem checked_of_stirs (h : box.Stirs) :
    Policy.forever.checked (!box.pending.isEmpty || box.shutdown) = .done (.ok true) := by
  have hready : (!box.pending.isEmpty || box.shutdown) = true := by simpa [Inbox.Stirs] using h
  rw [hready]
  rfl

theorem checked_of_not_stirs (h : ¬box.Stirs) :
    Policy.forever.checked (!box.pending.isEmpty || box.shutdown) = .block .forever none := by
  have hready : (!box.pending.isEmpty || box.shutdown) = false := by
    simpa [Inbox.Stirs, not_or] using h
  rw [hready]
  rfl

/-- The wait without a deadline. A notification or any other end of its park leads back to a look
into the inbox. -/
theorem stepped_idling {count : Count} {stage : Stage} (h : Idling count stage c)
    (hbox : m.state? inbox = some box) (hs : Stepped s.code m t (idling count stage) m') :
    ∃ deed c' th' box', ConsumerStep s t m m' (idling count stage) c box deed c' th' box' := by
  cases hs with
  | reject hc hg hcv hconflict =>
      cases hc
      cases h
      exact ⟨_, _, _, _, .quiet (.refuse count box) (.refused _ count) rfl rfl hbox rfl rfl⟩
  | register hc hg hcv hconflict =>
      cases hc
      cases h
      exact ⟨_, _, _, _, .silent (.stay _ box) (.idling .parking) rfl rfl hbox rfl⟩
  | read hc =>
      cases hc
      cases h
  | park hc hg =>
      cases hc
      cases hg
      cases h
      exact ⟨_, _, _, _, .silent (.park count box) (.idling .queued) rfl rfl
        ((state?_of_free rfl inbox).trans hbox) rfl⟩
  | retake hc hg hx hfree =>
      cases hc
      cases hg
      cases h
      exact ⟨_, _, _, _, .silent (.stay _ box) (.idling .leaving) rfl rfl
        ((state?_of_taken hx rfl inbox).trans hbox) rfl⟩
  | leave hc =>
      cases hc
      cases h
      exact ⟨_, _, _, _, .silent (.stay _ box) (.check count) rfl rfl hbox rfl⟩
  | calm line hc hcalm => cases hc
  | _ hc => cases hc

theorem deferring_checked (delay : Duration) (holds : Bool) :
    Deferring ((Policy.quiet delay).checked holds) := by
  cases holds with
  | true => exact .done _
  | false => exact .arm delay delay

theorem deferring_armed (delay interval : Duration) (reading : Except SyncError Time) :
    Deferring ((Policy.quiet delay).armed interval reading) := by
  cases reading with
  | error e => exact .done _
  | ok now => exact .block delay _

theorem deferring_returned (delay : Duration) (result : Except SyncError WaitStatus) :
    Deferring ((Policy.quiet delay).returned result) := by
  match result with
  | .error e => exact .done _
  | .ok .signaled => exact .check delay
  | .ok .timedOut => exact .done _

/-- A wait for quiet. However it ends, the consumer goes on with gathering: the inbox may have been
changed meanwhile, and it relies on nothing but what it knew before. -/
theorem stepped_deferring {start : Int} {delay : Duration} {deadline : Time} {count : Count}
    {stage : Stage} (hbox : m.state? inbox = some box)
    (hs : Stepped s.code m t (deferring start delay deadline count stage) m') :
    ∃ deed c' th' box', ConsumerStep s t m m' (deferring start delay deadline count stage)
      (.gathering count) box deed c' th' box' := by
  have inside (stage : Stage) : Consumer (.gathering count) _ :=
    .deferring start delay deadline count stage
  have behind (result : Except SyncError WaitStatus) : Consumer (.gathering count) _ :=
    .gathering start (deferring_returned delay result) count
  cases hs with
  | reject hc hg hcv hconflict =>
      cases hc
      exact ⟨_, _, _, _, .quiet (.stay _ box) (behind _) rfl rfl hbox rfl rfl⟩
  | register hc hg hcv hconflict =>
      cases hc
      exact ⟨_, _, _, _, .silent (.stay _ box) (inside _) rfl rfl hbox rfl⟩
  | read hc =>
      cases hc
      exact ⟨_, _, _, _, .quiet (.stay _ box) (inside _) rfl rfl hbox rfl
        (any_noteOfEnd_records _)⟩
  | park hc hg =>
      cases hc
      cases hg
      exact ⟨_, _, _, _, .silent (.stay _ box) (inside _) rfl rfl
        ((state?_of_free rfl inbox).trans hbox) rfl⟩
  | retake hc hg hx hfree =>
      cases hc
      cases hg
      exact ⟨_, _, _, _, .silent (.stay _ box) (inside _) rfl rfl
        ((state?_of_taken hx rfl inbox).trans hbox) rfl⟩
  | leave hc =>
      cases hc
      exact ⟨_, _, _, _, .silent (.stay _ box) (behind _) rfl rfl hbox rfl⟩
  | calm line hc hcalm => cases hc
  | _ hc => cases hc

/-- The loop of the wait for quiet, which looks at the flag and nothing else. -/
theorem stepped_gathering {start : Int} {state : Policy.State} {count : Count}
    (h : Deferring state) (hbox : m.state? inbox = some box)
    (hs : Stepped s.code m t ⟨.running (.gathering start state count), some inbox⟩ m') :
    ∃ deed c' th' box', ConsumerStep s t m m'
      ⟨.running (.gathering start state count), some inbox⟩ (.gathering count) box deed c' th'
      box' := by
  cases h with
  | check delay =>
      obtain ⟨mutex, x, hg, hx, rfl⟩ := hs.command
      cases hg
      exact ⟨_, _, _, _, .silent (.stay _ box) (.gathering start (deferring_checked delay _) count)
        rfl rfl ((state?_of_taken hx rfl inbox).trans hbox) rfl⟩
  | arm delay interval =>
      obtain ⟨notes, control, line, hcalm, rfl⟩ := hs.command
      cases hcalm with
      | read hcv =>
          exact ⟨_, _, _, _, .quiet (.stay _ box)
            (.gathering start (deferring_armed delay interval _) count) rfl rfl hbox rfl rfl⟩
  | block delay deadline =>
      obtain ⟨notes, control, line, hcalm, rfl⟩ := hs.command
      cases hcalm
      exact ⟨_, _, _, _, .quiet (.stay _ box) (.deferring start delay deadline count .entering)
        rfl rfl hbox rfl rfl⟩
  | done result =>
      cases result with
      | ok shutdown =>
          obtain ⟨notes, control, line, hcalm, rfl⟩ := hs.command
          cases hcalm
          exact ⟨_, _, _, _, .quiet (.stay _ box) (.gathered _ count) rfl rfl hbox rfl rfl⟩
      | error e =>
          obtain ⟨notes, control, line, hcalm, rfl⟩ := hs.command
          cases hcalm
          exact ⟨_, _, _, _, .quiet (.fail count box) .failing rfl rfl hbox rfl rfl⟩

/-- Whatever step the consumer can do, it is one of the things that `Collects` lists. -/
theorem Consumer.stepped (h : Consumer c th) (hbox : m.state? inbox = some box)
    (hs : Stepped s.code m t th m') :
    ∃ deed c' th' box', ConsumerStep s t m m' th c box deed c' th' box' := by
  cases h with
  | entering =>
      obtain ⟨x, hx, -, rfl⟩ := hs.command
      exact ⟨_, _, _, _, .silent (.arrive box) (.check {}) rfl rfl
        ((state?_of_taken hx rfl inbox).trans hbox) rfl⟩
  | check count =>
      obtain ⟨mutex, x, hg, hx, rfl⟩ := hs.command
      cases hg
      obtain rfl := state_of_state? hbox hx
      by_cases hstirs : x.state.Stirs
      · refine ⟨_, _, _, _, .silent (.met hstirs) (.ready count) rfl ?_
          ((state?_of_taken hx rfl inbox).trans hbox) rfl⟩
        rw [← checked_of_stirs hstirs]
      · refine ⟨_, _, _, _, .silent (.unmet hstirs) (.block count) rfl ?_
          ((state?_of_taken hx rfl inbox).trans hbox) rfl⟩
        rw [← checked_of_not_stirs hstirs]
  | block count =>
      obtain ⟨notes, control, line, hcalm, rfl⟩ := hs.command
      cases hcalm
      exact ⟨_, _, _, _, .quiet (.stay _ box) (.idling .entering) rfl rfl hbox rfl rfl⟩
  | idling h => exact stepped_idling h hbox hs
  | ready count =>
      obtain ⟨mutex, x, hg, hx, rfl⟩ := hs.command
      cases hg
      obtain rfl := state_of_state? hbox hx
      by_cases hempty : x.state.shutdown = true ∧ x.state.pending = []
      · refine ⟨_, _, _, _, .silent (.leave hempty) (.leaving count) rfl ?_
          ((state?_of_taken hx rfl inbox).trans hbox) rfl⟩
        simp [hempty]
      · refine ⟨_, _, _, _, .silent (.gather hempty) (.opening count) rfl ?_
          ((state?_of_taken hx rfl inbox).trans hbox) rfl⟩
        simp [hempty]
  | refused error count =>
      obtain ⟨notes, control, line, hcalm, rfl⟩ := hs.command
      cases hcalm
      exact ⟨_, _, _, _, .quiet (.stay .over box) .failing rfl rfl hbox rfl rfl⟩
  | opening count =>
      obtain ⟨notes, control, line, hcalm, rfl⟩ := hs.command
      cases hcalm
      exact ⟨_, _, _, _, .quiet (.stay _ box) (.opened _ count) rfl rfl hbox rfl rfl⟩
  | opened start count =>
      obtain ⟨notes, control, line, hcalm, rfl⟩ := hs.command
      cases hcalm
      exact ⟨_, _, _, _, .quiet (.stay _ box) (.gathering start (.check _) count) rfl rfl
        hbox rfl rfl⟩
  | gathering start h count => exact stepped_gathering h hbox hs
  | deferring start delay deadline count stage => exact stepped_deferring hbox hs
  | gathered e count =>
      obtain ⟨notes, control, line, hcalm, rfl⟩ := hs.command
      cases hcalm
      exact ⟨_, _, _, _, .quiet (.stay _ box) (.taking count) rfl rfl hbox rfl rfl⟩
  | taking count =>
      obtain ⟨mutex, x, hg, hx, rfl⟩ := hs.command
      cases hg
      obtain rfl := state_of_state? hbox hx
      refine ⟨_, _, _, _, .take count x.state, .taken x.state.pending _, rfl, rfl, ?_,
        fun _ _ => .inl⟩
      exact (state?_of_set hx rfl inbox).trans (if_pos rfl)
  | taken batch count =>
      obtain ⟨notes, control, line, hcalm, rfl⟩ := hs.command
      cases hcalm
      exact ⟨_, _, _, _, .quiet (.handle count box) (.check count) rfl rfl hbox rfl rfl⟩
  | leaving count =>
      obtain ⟨mutex, hg, rfl⟩ := hs.command
      cases hg
      exact ⟨_, _, _, _, .silent (.stay _ box) (.joining count) rfl rfl
        ((state?_of_free rfl inbox).trans hbox) rfl⟩
  | joining count =>
      obtain ⟨notes, control, line, hcalm, rfl⟩ := hs.command
      cases hcalm
      exact ⟨_, _, _, _, .quiet (.stay _ box) (.telling count) rfl rfl hbox rfl rfl⟩
  | telling count =>
      obtain ⟨notes, control, line, hcalm, rfl⟩ := hs.command
      cases hcalm
      refine ⟨_, _, _, _, .report count box, .ending, rfl, rfl, hbox, fun event _ htells => ?_⟩
      rcases tells_logWith rfl htells with hmem | htells
      · obtain ⟨event', hmem, heq⟩ := List.mem_map.mp hmem
        cases heq
        exact .inr hmem
      · exact .inl htells
  | failing =>
      obtain ⟨mutex, hg, rfl⟩ := hs.command
      cases hg
      exact ⟨_, _, _, _, .silent (.stay .over box) .ending rfl rfl
        ((state?_of_free rfl inbox).trans hbox) rfl⟩
  | ending =>
      obtain ⟨notes, control, line, hcalm, rfl⟩ := hs.command
      cases hcalm
      exact ⟨_, _, _, _, .quiet (.stay .over box) .ended rfl rfl hbox rfl rfl⟩
  | ended =>
      cases hs with
      | calm line hc hcalm => cases hc
      | _ hc => cases hc

/-- The machine when the first waiter has been told, if this is the deed. -/
def Deed.notified (m : ProgramMachine) (t : ThreadId) : Deed → ProgramMachine
  | .announce => (m.notify t signalled false).1
  | _ => m

/-- What a step of the producer comes to. Whoever changes the inbox has the mutex. -/
structure ProducerStep (s : Settings) (t : ThreadId) (m m' : ProgramMachine) (th : Thread Place)
    (e : Emitting) (box : Inbox) (deed : Deed) (e' : Emitting) (th' : Thread Place)
    (box' : Inbox) : Prop where
  emits : Emits e box deed e' box'
  producer : Producer s e' th'
  pushes : pushes th.control = deed.pushes
  held : box' = box ∨ th.holding = some inbox
  threads : m'.threads = (deed.notified m t).threads.set t th'
  state : m'.state? inbox = some box'
  told : ∀ event, event.ofEnd = true → Tells m' event → Tells m event

theorem ProducerStep.quiet (producer : Producer s e th') (hpushes : Demo.pushes th.control = [])
    (threads : m'.threads = m.threads.set t th') (state : m'.state? inbox = some box)
    (hlog : m'.log = m.log) : ProducerStep s t m m' th e box .nothing e th' box :=
  have hlog : m'.log = m.logWith t [] := hlog
  ⟨.stay e box, producer, hpushes, .inl rfl, threads, state,
    fun _ => tells_of_logWith hlog rfl⟩

theorem log_wakeAll (ts : List ThreadId) (m : ProgramMachine) :
    (ts.foldl (wake · true) m).log = m.log := by
  induction ts generalizing m with
  | nil => rfl
  | cons t ts ih => exact ih _

/-- A notification leaves a record, and tells of no end. -/
theorem tells_of_notify {thread : Option ThreadId} {condvar : CondvarId} {all : Bool}
    (hlog : m'.log = (m.notify thread condvar all).1.log) (htells : Tells m' event) :
    Tells m event := by
  obtain ⟨entry, hmem, hnote⟩ := htells
  rw [hlog] at hmem
  rcases List.mem_append.mp hmem with hmem | hmem
  · obtain rfl := List.mem_singleton.mp hmem
    cases hnote
  · rw [log_wakeAll] at hmem
    exact ⟨entry, hmem, hnote⟩

theorem ProducerStep.announce (emits : Emits e box .announce e' box)
    (producer : Producer s e' th') (hpushes : Demo.pushes th.control = [])
    (hm : m' = { (m.notify t signalled false).1 with
      threads := (m.notify t signalled false).1.threads.set t th' })
    (state : m.state? inbox = some box) :
    ProducerStep s t m m' th e box .announce e' th' box := by
  subst hm
  exact ⟨emits, producer, hpushes, .inl rfl, rfl,
    (state?_congr (mutexes_notify m t signalled false) inbox).trans state,
    fun _ _ htells => tells_of_notify rfl htells⟩

/-- The next event, or the pause behind the last one of a burst. -/
theorem stepped_nextEvent {place : Place} {bursts events : Nat}
    (hcode : s.code place = s.nextEvent bursts events)
    (hpushes : Demo.pushes (.running place) = []) (hbox : m.state? inbox = some box)
    (hs : Stepped s.code m t ⟨.running place, none⟩ m') :
    ∃ deed e' th' box', ProducerStep s t m m' ⟨.running place, none⟩
      (.resting (bursts * s.events + events)) box deed e' th' box' := by
  have hcommand := hs.command
  rw [hcode] at hcommand
  cases events with
  | zero =>
      obtain ⟨control, parked, line, rfl, h⟩ := hcommand
      rcases h with ⟨-, rfl, -⟩ | ⟨rfl, -⟩
      · exact ⟨_, _, _, _, .quiet (.burst bursts) hpushes rfl hbox rfl⟩
      · exact ⟨_, _, _, _, .quiet (.pausing bursts) hpushes rfl hbox rfl⟩
  | succ events =>
      obtain ⟨x, hx, -, rfl⟩ := hcommand
      exact ⟨_, _, _, _, .quiet (.stamping bursts events) hpushes rfl
        ((state?_of_taken hx rfl inbox).trans hbox) rfl⟩

/-- Whatever step the producer can do, it is one of the things that `Emits` lists. -/
theorem Producer.stepped (h : Producer s e th) (hbox : m.state? inbox = some box)
    (hs : Stepped s.code m t th m') :
    ∃ deed e' th' box', ProducerStep s t m m' th e box deed e' th' box' := by
  cases h with
  | burst bursts =>
      cases bursts with
      | zero =>
          obtain ⟨x, hx, -, rfl⟩ := hs.command
          rw [Nat.zero_mul]
          exact ⟨_, _, _, _, .quiet .closing rfl rfl
            ((state?_of_taken hx rfl inbox).trans hbox) rfl⟩
      | succ bursts =>
          rw [Nat.succ_mul]
          exact stepped_nextEvent rfl rfl hbox hs
  | event bursts events => exact stepped_nextEvent rfl rfl hbox hs
  | stamping bursts events =>
      obtain ⟨notes, control, line, hcalm, rfl⟩ := hs.command
      cases hcalm
      exact ⟨_, _, _, _, .quiet (.pushing bursts events _) rfl rfl hbox rfl⟩
  | pushing bursts events stamp =>
      obtain ⟨mutex, x, hg, hx, rfl⟩ := hs.command
      cases hg
      obtain rfl := state_of_state? hbox hx
      exact ⟨_, _, _, _, .push _ stamp x.state, .pushed bursts events, rfl, .inr rfl, rfl,
        (state?_of_set hx rfl inbox).trans (if_pos rfl), fun _ _ => id⟩
  | pushed bursts events =>
      obtain ⟨mutex, hg, rfl⟩ := hs.command
      cases hg
      exact ⟨_, _, _, _, .quiet (.announcing bursts events) rfl rfl
        ((state?_of_free rfl inbox).trans hbox) rfl⟩
  | announcing bursts events =>
      exact ⟨_, _, _, _, .announce (.announce _ box) (.resting bursts events) rfl hs.command hbox⟩
  | resting bursts events =>
      obtain ⟨control, parked, line, rfl, h⟩ := hs.command
      rcases h with ⟨-, rfl, -⟩ | ⟨rfl, -⟩
      · exact ⟨_, _, _, _, .quiet (.event bursts events) rfl rfl hbox rfl⟩
      · exact ⟨_, _, _, _, .quiet (.sleeping bursts events) rfl rfl hbox rfl⟩
  | closing =>
      obtain ⟨mutex, x, hg, hx, rfl⟩ := hs.command
      cases hg
      obtain rfl := state_of_state? hbox hx
      exact ⟨_, _, _, _, .close x.state, .closed, rfl, .inr rfl, rfl,
        (state?_of_set hx rfl inbox).trans (if_pos rfl), fun _ _ => id⟩
  | closed =>
      obtain ⟨mutex, hg, rfl⟩ := hs.command
      cases hg
      exact ⟨_, _, _, _, .quiet .calling rfl rfl ((state?_of_free rfl inbox).trans hbox) rfl⟩
  | calling => exact ⟨_, _, _, _, .announce (.call box) .ending rfl hs.command hbox⟩
  | ending =>
      obtain ⟨notes, control, line, hcalm, rfl⟩ := hs.command
      cases hcalm
      exact ⟨_, _, _, _, .quiet .ended rfl rfl hbox rfl⟩
  | pausing bursts =>
      cases hs with
      | calm line hc hcalm => cases hc
      | _ hc => cases hc
  | sleeping bursts events =>
      cases hs with
      | calm line hc hcalm => cases hc
      | _ hc => cases hc
  | ended =>
      cases hs with
      | calm line hc hcalm => cases hc
      | _ hc => cases hc

end TimedCondvar.Demo
