import TimedCondvar.Proofs.ClockFaults
import TimedCondvar.Proofs.Pauses

/-!
What waits and notifications write to the log. A step adds its notes to the log and takes nothing
away, so what a thread has written can be read off its steps. A wait writes at the step that ends
it: when it is turned away, or upon its last reading. No other pass of a wait writes anything, so
that there is one record at most, and it tells how the wait ended and what was read last.
-/

namespace TimedCondvar

open Machine

/-- The record of a notification that came to a result. -/
def WakeResult.record (all : Bool) (r : WakeResult) : Record :=
  if all then .broadcast r.count else .signaled r.isWoken

theorem WakeResult.level_record (all : Bool) (r : WakeResult) : (r.record all).level = .trace := by
  cases all <;> rfl

/-- What a wait at this stage has written. -/
def Stage.records : Stage → List Record
  | .leaving how => how.records
  | _ => []

@[simp] theorem Stage.records_registered (clock : Clock) (deadline : Option Time) :
    (registered clock deadline).records = [] := by
  cases deadline <;> rfl

@[simp] theorem Stage.records_ofPass (timer : Timer) (pass : Timer.Pass) :
    (ofPass timer pass).records = pass.records := by
  cases pass <;> rfl

@[simp] theorem Stage.records_ofWake (notified : Bool) (timed : Option (Timer × Park)) :
    (ofWake notified timed).records = [] := by
  cases timed <;> cases notified <;> rfl

namespace Machine

variable {σ κ ε : Type} {code : κ → Command σ κ ε} {m m' m₁ m₂ : Machine σ κ ε} {t : ThreadId}
  {th : Thread κ} {c : Cause} {hs : List (Machine σ κ ε × Cause)} {call : Call κ}
  {stage stage' : Stage} {new : List (Note ε)}

/-! ### Notes of a thread -/

/-- The notes that the log of `m'` has and that of `m` had not, the earliest first. -/
def added (m m' : Machine σ κ ε) : List (Note ε) :=
  ((m'.log.take (m'.log.length - m.log.length)).map (·.note)).reverse

/-- What thread `t` writes in a move. -/
def wrote (code : κ → Command σ κ ε) (t : ThreadId) : Machine σ κ ε × Cause → List (Note ε)
  | (m, .thread u) => if u = t then ((m.step code t).map m.added).getD [] else []
  | _ => []

/-- What thread `t` writes in moves, one after the other. -/
def notes (code : κ → Command σ κ ε) (t : ThreadId) (hs : List (Machine σ κ ε × Cause)) :
    List (Note ε) :=
  hs.flatMap (wrote code t)

theorem added_of_log (h : m'.log = m.logWith t new) : m.added m' = new := by
  have hnotes : (new.map (Entry.mk m.mono (some t))).map (·.note) = new := by
    rw [List.map_map]
    exact List.map_id _
  rw [added, h, logWith, List.length_append, Nat.add_sub_cancel, List.take_left, List.map_reverse,
    List.reverse_reverse, hnotes]

theorem wrote_of_log (hstep : m.step code t = some m') (h : m'.log = m.logWith t new) :
    wrote code t (m, .thread t) = new := by
  rw [wrote, if_pos rfl, hstep, Option.map_some, Option.getD_some, added_of_log h]

theorem wrote_of_log_eq (hstep : m.step code t = some m') (h : m'.log = m.log) :
    wrote code t (m, .thread t) = [] :=
  wrote_of_log hstep h

theorem wrote_of_ne (h : c ≠ .thread t) : wrote code t (m, c) = [] := by
  cases c with
  | thread u => exact if_neg fun hut : u = t => h (by rw [hut])
  | _ => rfl

theorem events_concat (hs : List (Machine σ κ ε × Cause)) (m : Machine σ κ ε) (c : Cause) :
    events code (hs ++ [(m, c)]) = events code hs ++ [c.shown code m] :=
  List.map_append

theorem notes_concat (hs : List (Machine σ κ ε × Cause)) (m : Machine σ κ ε) (c : Cause) :
    notes code t (hs ++ [(m, c)]) = notes code t hs ++ wrote code t (m, c) := by
  simp [notes]

/-! ### Notifications -/

theorem log_wakeAll (ts : List ThreadId) (m : Machine σ κ ε) :
    (ts.foldl (wake · true) m).log = m.log := by
  induction ts generalizing m with
  | nil => rfl
  | cons t ts ih => exact ih _

theorem isWoken_ofCount (n : Nat) : (WakeResult.ofCount n).isWoken = !(n == 0) := by
  cases n <;> rfl

/-- A notification writes one record, which agrees with its result. -/
theorem log_notify (m : Machine σ κ ε) (thread : Option ThreadId) (condvar : CondvarId)
    (all : Bool) : (m.notify thread condvar all).1.log =
      ⟨m.mono, thread, .record ((m.notify thread condvar all).2.record all)⟩ :: m.log := by
  have hlog := log_wakeAll (m.woken condvar all) m
  have hmono := mono_wakeAll (m.woken condvar all) m
  have hrecord : (if all then Record.broadcast (m.woken condvar all).length
      else .signaled (!(m.woken condvar all).isEmpty)) =
        (WakeResult.ofCount (m.woken condvar all).length).record all := by
    cases all with
    | true => simp [WakeResult.record]
    | false =>
        rw [WakeResult.record, isWoken_ofCount]
        cases m.woken condvar false <;> rfl
  rw [result_notify, ← hrecord]
  change (_ : List (Entry ε)) ++ ((m.woken condvar all).foldl (wake · true) m).log = _
  rw [hlog]
  change [Entry.mk ((m.woken condvar all).foldl (wake · true) m).mono thread _] ++ m.log = _
  rw [hmono]
  rfl

/-- A step adds to the log what its thread writes. -/
theorem Stepped.exists_log (hs : Stepped code m t th m') : ∃ new, m'.log = m.logWith t new := by
  cases hs with
  | notify hc hcode => exact ⟨[_], log_notify m (some t) _ _⟩
  | calm line hc hcalm => exact ⟨_, rfl⟩
  | reject hc hg hcv h => exact ⟨_, rfl⟩
  | read hc => exact ⟨_, rfl⟩
  | _ => exact ⟨[], rfl⟩

theorem log_of_step (hstep : m.step code t = some m') :
    m'.log = m.logWith t (wrote code t (m, .thread t)) := by
  obtain ⟨th, -, hs⟩ := stepped_of_step hstep
  obtain ⟨new, hlog⟩ := hs.exists_log
  rw [wrote_of_log hstep hlog, hlog]

theorem step_of_notify {place : κ} {g : Option MutexId} {condvar : CondvarId} {all : Bool}
    {next : WakeResult → κ} (ht : m.threads[t]? = some ⟨.running place, g⟩)
    (hcode : code place = .notify condvar all next) :
    ∃ m', m.step code t = some m' ∧
      m'.threads[t]? = some ⟨.running (next (m.notify t condvar all).2), g⟩ ∧
      wrote code t (m, .thread t) = [.record ((m.notify t condvar all).2.record all)] := by
  have hstep : m.step code t = some ((m.notify t condvar all).1.setControl t
      (.running (next (m.notify t condvar all).2))) := by
    simp [step, control?, ht, hcode, commandStep]
  have ht' := notify_running m t condvar all ht rfl
  refine ⟨_, hstep, ?_, wrote_of_log hstep (log_notify m (some t) condvar all)⟩
  rw [setControl_eq ht']
  exact getElem?_set_self_of_getElem? ht' _

/-! ### Waits -/

/-- A wait is let in and writes nothing, or it is turned away and writes what it is told. -/
theorem entered_or_turnedAway (ht : m.threads[t]? = some (call.thread .entering))
    (hstep : m.step code t = some m') : ∃ cv, m.condvars[call.condvar]? = some cv ∧
      (m'.threads[t]? = some (call.thread (.registered cv.clock call.deadline)) ∧
          wrote code t (m, .thread t) = [] ∨
        ∃ bound waiters, m'.threads[t]? = some ⟨.running (call.next
            (.error (.mutexMismatch bound call.mutex waiters))), some call.mutex⟩ ∧
          wrote code t (m, .thread t) =
            [.record (.mutexOffered bound call.mutex waiters)]) := by
  have hself := getElem?_set_self_of_getElem? ht
  obtain ⟨th, hth, hs⟩ := stepped_of_step hstep
  obtain rfl : call.thread .entering = th := by simpa [ht] using hth
  cases hs with
  | @reject condvar deadline next offered bound waiters cv hc hg hcv h =>
      cases hc
      cases hg
      exact ⟨cv, hcv, .inr ⟨bound, waiters, hself _, wrote_of_log hstep rfl⟩⟩
  | @register condvar deadline next offered cv hc hg hcv h =>
      cases hc
      exact ⟨cv, hcv, .inl ⟨hself _, wrote_of_log_eq hstep rfl⟩⟩
  | calm line hc hcalm => cases hc
  | _ hc => cases hc

theorem stage_eq (h : m.threads[t]? = some (call.thread stage))
    (h' : m.threads[t]? = some (call.thread stage')) : stage = stage' := by
  simpa [h, Call.thread] using h'

/-- The own steps of a wait write the records of the stage they lead to. -/
theorem records_of_own (ht : m.threads[t]? = some (call.thread stage)) (hreg : stage ≠ .entering)
    (hstep : m.step code t = some m') (ht' : m'.threads[t]? = some (call.thread stage')) :
    stage'.records.map .record =
      stage.records.map .record ++ wrote code t (m, .thread t) := by
  have hself := getElem?_set_self_of_getElem? ht
  obtain ⟨th, hth, hs⟩ := stepped_of_step hstep
  obtain rfl : call.thread stage = th := by simpa [ht] using hth
  cases hs with
  | reject hc => exact absurd (by cases hc; rfl) hreg
  | register hc => exact absurd (by cases hc; rfl) hreg
  | @read condvar deadline timer next hc =>
      cases hc
      obtain rfl := stage_eq (hself _) ht'
      rw [wrote_of_log hstep rfl, Stage.records_ofPass]
      rfl
  | park hc =>
      cases hc
      obtain rfl := stage_eq (hself _) ht'
      rw [wrote_of_log_eq hstep rfl]
      rfl
  | retake hc =>
      cases hc
      obtain rfl := stage_eq (hself _) ht'
      rw [wrote_of_log_eq hstep rfl, Stage.records_ofWake]
      rfl
  | leave hc =>
      rw [hself] at ht'
      cases ht'
  | calm line hc hcalm => cases hc
  | _ hc => cases hc

/-- A move leads a registered wait to a stage and to its records, or back to its caller. -/
theorem Caused.records (hs : Sound m) (hm : Caused code m c m')
    (ht : m.threads[t]? = some (call.thread stage)) (hreg : stage ≠ .entering) :
    (∃ stage', m'.threads[t]? = some (call.thread stage') ∧
      Moved t call.condvar (c.shown code m) stage stage' ∧
      stage'.records.map .record = stage.records.map .record ++ wrote code t (m, c)) ∨
    ∃ how, stage = .leaving how ∧ c.shown code m = .returned t call.condvar how ∧
      m'.threads[t]? = some (call.returned how) ∧ wrote code t (m, c) = [] := by
  rcases hs.moved hm.next ht hreg with ⟨stage', ht', hmoved⟩ | ⟨how, rfl, hshown, ht'⟩
  · refine .inl ⟨stage', ht', hmoved, ?_⟩
    by_cases hc : c = .thread t
    · subst hc
      cases hm with
      | step hstep => exact records_of_own ht hreg hstep ht'
    · rw [wrote_of_ne hc, List.append_nil]
      generalize he : c.shown code m = e at hmoved
      cases hmoved with
      | read timer reading => exact absurd (hm.cause_eq (by rw [he]; rfl)) hc
      | retake notified timed =>
          rw [Stage.records_ofWake]
          rfl
      | _ => rfl
  · refine .inr ⟨how, rfl, hshown, ht', ?_⟩
    obtain rfl := hm.cause_eq (by rw [hshown]; rfl)
    cases hm with
    | step hstep =>
        have hleft : m.step code t = _ := step_of_left ht
        obtain rfl := Option.some.inj (hleft.symm.trans hstep)
        exact wrote_of_log_eq hleft rfl

/-- The first of the machines is the one it starts from. -/
theorem Chronicle.nil_or_cons (chronicle : Chronicle code m hs m') :
    hs = [] ∧ m' = m ∨ ∃ c rest, hs = (m, c) :: rest := by
  induction chronicle with
  | nil => exact .inl ⟨rfl, rfl⟩
  | snoc chronicle move ih =>
      rcases ih with ⟨rfl, rfl⟩ | ⟨c, rest, rfl⟩
      · exact .inr ⟨_, [], rfl⟩
      · exact .inr ⟨c, _, List.cons_append⟩

/-- Thread `t` is in the call before every move. -/
def Stays (t : ThreadId) (call : Call κ) (hs : List (Machine σ κ ε × Cause)) : Prop :=
  ∀ x ∈ hs, ∃ stage, x.1.threads[t]? = some (call.thread stage)

/-- What a registered wait has written are the records of its stage, and once it is back those of
its end. -/
theorem Chronicle.records (hs₁ : Sound m) (chronicle : Chronicle code m hs m')
    (ht : m.threads[t]? = some (call.thread stage)) (hreg : stage ≠ .entering)
    (hnone : stage.records = []) (hstays : Stays t call hs) :
    (∃ stage', m'.threads[t]? = some (call.thread stage') ∧ stage' ≠ .entering ∧
      Trace t call.condvar stage (events code hs) stage' ∧
      notes code t hs = stage'.records.map .record) ∨
    ∃ es how, Trace t call.condvar stage es (.leaving how) ∧
      events code hs = es ++ [.returned t call.condvar how] ∧
      m'.threads[t]? = some (call.returned how) ∧ notes code t hs = how.records.map .record := by
  induction chronicle with
  | nil => exact .inl ⟨stage, ht, hreg, .nil, by rw [hnone]; rfl⟩
  | @snoc hs c m₁ m₂ chronicle move ih =>
      obtain ⟨stage₁, ht₁⟩ := hstays _ List.mem_concat_self
      rcases ih fun x hx => hstays x (List.mem_append_left _ hx) with
        ⟨stage', ht', hreg', trace, hnotes⟩ | ⟨es, how, -, -, hreturned, -⟩
      · rw [notes_concat, hnotes, events_concat]
        rcases move.records (chronicle.run.invariant Sound.next hs₁) ht' hreg' with
          ⟨stage₂, ht₂, hmoved, hrecords⟩ | ⟨how, rfl, hshown, ht₂, hwrote⟩
        · exact .inl ⟨stage₂, ht₂, hmoved.ne_entering hreg', trace.snoc hmoved, hrecords.symm⟩
        · refine .inr ⟨_, how, trace, by rw [hshown], ht₂, ?_⟩
          rw [hwrote, List.append_nil]
          rfl
      · rw [ht₁] at hreturned
        cases hreturned

/-! ### What the records tell -/

/-- What the records of a call tell of the way it came back, the clock having been read with the
readings `rs` and the call notified `n` times. -/
inductive Reports (call : Call κ) (clock : Clock) (rs : List (Except ClockError Time)) (n : Nat) :
    Except SyncError WaitStatus → List Record → Prop
  | timedOut {deadline now : Time} (hdeadline : call.deadline = some deadline)
      (hlast : rs.getLast? = some (.ok now)) (hle : deadline ≤ now) (hnone : n = 0) :
      Reports call clock rs n (.ok .timedOut) [.timedOut deadline now]
  | skewed {deadline now : Time} (hdeadline : call.deadline = some deadline)
      (hlast : rs.getLast? = some (.ok now)) (hlt : now < deadline) (hnone : n = 0) :
      Reports call clock rs n (.ok .signaled) [.clockSkewed clock deadline now]
  | notified (hone : n = 1) : Reports call clock rs n (.ok .signaled) []
  | failed {e : ClockError} (hlast : rs.getLast? = some (.error e)) (hnone : n = 0) :
      Reports call clock rs n (.error (.clock e)) []
  | turnedAway (bound : MutexId) (waiters : Nat) (hunread : rs = []) (hnone : n = 0) :
      Reports call clock rs n (.error (.mutexMismatch bound call.mutex waiters))
        [.mutexOffered bound call.mutex waiters]

/-- A wait without a deadline goes on without one. -/
theorem Trace.untimed {condvar : CondvarId} {es : List Event}
    (trace : Trace t condvar stage es stage') (h : stage.untimed = true) :
    stage'.untimed = true := by
  induction trace with
  | nil => exact h
  | snoc trace moved ih => exact moved.untimed ih

theorem Trace.reports {clock : Clock} {es : List Event} {how : WaitEnd}
    (trace : Trace t call.condvar (.registered clock call.deadline) es (.leaving how)) :
    Reports call clock (readings t es) (Machine.wakeups t es) how.result how.records := by
  have hwakeups := (trace.wakeups (Stage.notified_registered ..) (by
    cases call.deadline <;> exact nofun)).1
  cases hdeadline : call.deadline with
  | none =>
      rw [hdeadline] at trace
      obtain rfl := eq_notified_of_untimed (trace.untimed rfl)
      exact .notified hwakeups
  | some deadline =>
      rw [hdeadline] at trace
      have htimed : Timed t clock deadline (readings t es) (attempts t es) (.leaving how) :=
        trace.timed
      rcases htimed.ending with ⟨rfl, -⟩ | ⟨rs, r, hrs, rfl, -⟩
      · exact .notified hwakeups
      · have hlast : (readings t es).getLast? = some r := by rw [hrs, List.getLast?_concat]
        cases r with
        | error e => exact .failed hlast hwakeups
        | ok now =>
            rw [Timer.ending] at hwakeups ⊢
            split at hwakeups
            · rename_i hle
              rw [if_pos hle]
              exact .timedOut hdeadline hlast hle hwakeups
            · rename_i hlt
              rw [if_neg hlt]
              exact .skewed hdeadline hlast (Time.not_le.mp hlt) hwakeups

/-- To return is not to read the clock, and not to be notified. -/
theorem Reports.returned {clock : Clock} {es : List Event} {result : Except SyncError WaitStatus}
    {records : List Record} (condvar : CondvarId) (how : WaitEnd)
    (h : Reports call clock (readings t es) (wakeups t es) result records) :
    Reports call clock (readings t (es ++ [.returned t condvar how]))
      (wakeups t (es ++ [.returned t condvar how])) result records := by
  have hreadings := (attempts_concat_of_not es (t := t) (e := .returned t condvar how)
    (fun _ => nofun) nofun).1
  have hwakeups : wakeups t (es ++ [.returned t condvar how]) = wakeups t es := by
    simp [wakeups]
  rw [hreadings, hwakeups]
  exact h

/-- A time-out is not worth a warning, and anything else that is told of is. -/
theorem Reports.level {clock : Clock} {rs : List (Except ClockError Time)} {n : Nat}
    {result : Except SyncError WaitStatus} {records : List Record}
    (h : Reports call clock rs n result records) :
    ∀ r ∈ records, r.level = .trace ∧ result = .ok .timedOut ∨
      r.level = .warn ∧ result ≠ .ok .timedOut := by
  cases h with
  | timedOut => simp [Record.level]
  | _ => simp [Record.level]

/-- In every run of any threads, what a call of a wait writes is fixed by the way it ends, however
often it parks. As long as the thread is in the call it has written nothing, but that it may have
reached its end. A time-out is told by one trace record, of the deadline of the call and of the last
reading, which is not before it. Too much skew is told by one warning, of the deadline and of the
last reading, which is before it. A call that is turned away warns once, of what the error says, and
a notification and a failure of the clock are not told at all. A notification writes one trace
record, which agrees with what it returns. And what is written by steps is what is added to the
log. -/
theorem log_of_calls {m₀ m : Machine σ κ ε} {es₀ : List Event} (hfresh : Fresh m₀)
    (hrun₀ : Run (Next code) m₀ es₀ m) :
    (∀ (t : ThreadId) (call : Call κ) (m₁ m₂ : Machine σ κ ε)
      (hs : List (Machine σ κ ε × Cause)),
      m.threads[t]? = some (call.thread .entering) → m.step code t = some m₁ →
      Chronicle code m₁ hs m₂ → Stays t call hs →
      ∃ cv, m.condvars[call.condvar]? = some cv ∧
        ((∃ stage, m₂.threads[t]? = some (call.thread stage) ∧
            notes code t ((m, .thread t) :: hs) = stage.records.map .record) ∨
          ∃ result records,
            m₂.threads[t]? = some ⟨.running (call.next result), some call.mutex⟩ ∧
            notes code t ((m, .thread t) :: hs) = records.map .record ∧
            Reports call cv.clock (readings t (events code hs)) (wakeups t (events code hs))
              result records ∧
            ∀ r ∈ records, r.level = .trace ∧ result = .ok .timedOut ∨
              r.level = .warn ∧ result ≠ .ok .timedOut)) ∧
    (∀ (t : ThreadId) (g : Option MutexId) (place : κ) (condvar : CondvarId) (all : Bool)
      (next : WakeResult → κ), m.threads[t]? = some ⟨.running place, g⟩ →
      code place = .notify condvar all next →
      ∃ m' r, m.step code t = some m' ∧ m'.threads[t]? = some ⟨.running (next r), g⟩ ∧
        wrote code t (m, .thread t) = [.record (r.record all)] ∧
        (r.record all).level = .trace) ∧
    (∀ (thread : Option ThreadId) (condvar : CondvarId) (all : Bool),
      (m.notify thread condvar all).1.log =
        ⟨m.mono, thread, .record ((m.notify thread condvar all).2.record all)⟩ :: m.log) ∧
    ∀ (t : ThreadId) (m' : Machine σ κ ε), m.step code t = some m' →
      m'.log = m.logWith t (wrote code t (m, .thread t)) := by
  have hs : Sound m := hrun₀.invariant Sound.next hfresh.sound
  refine ⟨?_, ?_, m.log_notify, fun t m' hstep => log_of_step hstep⟩
  · intro t call m₁ m₂ moves ht hstep chronicle hstays
    have hs₁ : Sound m₁ := hs.next (.own (.step hstep))
    have hnotes : notes code t ((m, .thread t) :: moves) =
        wrote code t (m, .thread t) ++ notes code t moves := List.flatMap_cons
    rw [hnotes]
    obtain ⟨cv, hcv, ⟨ht₁, hwrote⟩ | ⟨bound, waiters, ht₁, hwrote⟩⟩ :=
      entered_or_turnedAway ht hstep
    · refine ⟨cv, hcv, ?_⟩
      rw [hwrote, List.nil_append]
      rcases chronicle.records hs₁ ht₁ (registered_ne_entering _ _) (Stage.records_registered _ _)
        hstays with ⟨stage, ht₂, -, -, hwritten⟩ | ⟨es, how, trace, hes, ht₂, hwritten⟩
      · exact .inl ⟨stage, ht₂, hwritten⟩
      · have hreports := trace.reports.returned call.condvar how
        rw [hes]
        exact .inr ⟨how.result, how.records, ht₂, hwritten, hreports, hreports.level⟩
    · -- the thread is out of the call, so that there are no moves in which it stays
      rcases chronicle.nil_or_cons with ⟨rfl, rfl⟩ | ⟨c, rest, rfl⟩
      · have hreports : Reports call cv.clock (readings t []) (wakeups t []) _ _ :=
          .turnedAway bound waiters rfl rfl
        exact ⟨cv, hcv, .inr ⟨_, _, ht₁, by rw [hwrote]; rfl, hreports, hreports.level⟩⟩
      · obtain ⟨stage, ht₁'⟩ := hstays _ List.mem_cons_self
        rw [ht₁] at ht₁'
        cases ht₁'
  · intro t g place condvar all next ht hcode
    obtain ⟨m', hstep, ht', hwrote⟩ := step_of_notify ht hcode
    exact ⟨m', _, hstep, ht', hwrote, WakeResult.level_record _ _⟩

/-- A wait that parks twice before it times out writes one record. -/
theorem log_of_sliced_call : ∃ (es₀ : List Event) (m m₁ m₂ : ScriptMachine)
    (hs : List (ScriptMachine × Cause)) (call : Call Script.Place) (deadline : Time),
    Fresh (World.start 0 0 0 0).machine ∧
    Run (Next Script.code) (World.start 0 0 0 0).machine es₀ m ∧
    m.threads[0]? = some (call.thread .entering) ∧ m.step Script.code 0 = some m₁ ∧
    Chronicle Script.code m₁ hs m₂ ∧ Stays 0 call hs ∧ call.deadline = some deadline ∧
    parks 0 (events Script.code hs) = 2 ∧
    m₂.threads[0]? = some ⟨.running (call.next (.ok .timedOut)), some call.mutex⟩ ∧
    notes Script.code 0 ((m, .thread 0) :: hs) = [.record (.timedOut deadline deadline)] := by
  have spawned : Run (Next Script.code) (World.start 0 0 0 0).machine _ _ :=
    (Run.nil.snoc (.act (.bind none .boottime))).snoc (.act (.spawn slicedWait))
  -- locks and waits
  have waits := spawned.play [.step 0, .step 0] rfl
  let deadline := Time.new 0 300000000
  obtain ⟨m, m₁, m₂, hs, call, waits, ht, hstep, chronicle, hstays, hdeadline, hreadings, hparks,
      hwakeups, hback⟩ :
      ∃ (m m₁ m₂ : ScriptMachine) (hs : List (ScriptMachine × Cause)) (call : Call Script.Place),
        Run (Next Script.code) (World.start 0 0 0 0).machine _ m ∧
        m.threads[0]? = some (call.thread .entering) ∧ m.step Script.code 0 = some m₁ ∧
        Chronicle Script.code m₁ hs m₂ ∧ Stays 0 call hs ∧ call.deadline = some deadline ∧
        (readings 0 (events Script.code hs)).getLast? = some (.ok deadline) ∧
        parks 0 (events Script.code hs) = 2 ∧ wakeups 0 (events Script.code hs) = 0 ∧
        ∃ place, m₂.threads[0]? = some ⟨.running place, some call.mutex⟩ := by
    refine ⟨_, _, _, _, ⟨0, some deadline, _, 0⟩, waits, rfl, rfl,
      (History.of_course [.step 0, .step 0, .expire 0, .step 0, .step 0, .step 0, .expire 0,
        .step 0, .step 0, .step 0] rfl).chronicle, ?_, rfl, rfl, rfl, rfl, _, rfl⟩
    intro x hx
    simp only [List.mem_cons, List.not_mem_nil, or_false] at hx
    rcases hx with rfl | rfl | rfl | rfl | rfl | rfl | rfl | rfl | rfl | rfl <;> exact ⟨_, rfl⟩
  obtain ⟨place, hplace⟩ := hback
  obtain ⟨cv, -, ⟨stage, hin, -⟩ | ⟨result, records, hresult, hnotes, hreports, -⟩⟩ :=
    (log_of_calls (World.fresh_start 0 0 0 0) waits).1 0 call m₁ m₂ hs ht hstep chronicle hstays
  · rw [hplace] at hin
    cases hin
  · cases hreports with
    | timedOut hd hlast hle hnone =>
        cases hd.symm.trans hdeadline
        cases hlast.symm.trans hreadings
        exact ⟨_, m, m₁, m₂, hs, call, deadline, World.fresh_start 0 0 0 0, waits, ht, hstep,
          chronicle, hstays, hdeadline, hparks, hresult, hnotes⟩
    | skewed hd hlast hlt hnone =>
        cases hd.symm.trans hdeadline
        cases hlast.symm.trans hreadings
        exact absurd hlt (by decide)
    | notified hone => exact absurd (hone.symm.trans hwakeups) (by decide)
    | failed hlast hnone => cases hlast.symm.trans hreadings
    | turnedAway bound waiters hunread hnone =>
        rw [hunread] at hreadings
        cases hreadings

end Machine

end TimedCondvar
