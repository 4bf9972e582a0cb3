import Mathlib
import TimedCondvar.Proofs.Scripts

/-!
How long scripted threads can run before they are all at rest. Each instruction stands for a number
of steps, and so does each point within one, with what a thread does once more after a park counted
when it is woken. A step costs its thread one of them at least. A signal wakes one thread, and the
instruction that gives it pays for what that thread does until it parks again. So the steps that all
threads have before them are bounded, whoever takes them, and a world has counted in enough of them
with each script.
-/

namespace TimedCondvar

open Script (Place)

/-! ### Ranks

Within an instruction each step goes on to a lower rank, but for a wake-up. -/

/-- What a predicate wait has before it, up to its next wait or its result. -/
def Policy.State.rank : Policy.State → Nat
  | .check (.within _) => 31
  | .arm (.within _) _ => 30
  | .check _ => 29
  | .arm _ _ => 28
  | .block _ _ => 27
  | .recheck => 23
  | .done _ => 22

/-- What a wait has before it, up to its next park or its return. A timer that has spent its budget
may return like a notification. -/
def Stage.rank : Stage → Nat
  | .woken _ _ => 34
  | .reading timer => if clockSkewRetries < timer.retries then 33 else 25
  | .leaving .notified | .leaving (.skewed _ _ _) => 32
  | .entering => 26
  | .leaving _ => 24
  | .parking _ => 21
  | .queued _ => 20

/-- What a woken thread does until it parks again or its instruction is over. -/
def wakeRank : Nat := 14

def Script.Point.rank : Script.Point → Nat
  | .opening _ => 38
  | .beginning _ => 37
  | .looping _ _ _ state _ => state.rank
  | .armed _ _ _ => 27
  | .ending _ _ => 22
  | .reporting _ _ | .locking => 21
  | .fetching => 20
  | .released => 1

namespace Script.Place

/-- How many instructions follow the one at hand. -/
def later (p : Place) : Nat :=
  match p.point with
  | .locking | .fetching => p.rest.length
  | _ => p.rest.tail.length

/-- What a script has before it. -/
def effort (p : Place) : Nat := 64 * p.later + p.point.rank

end Script.Place

/-- A wait of a script goes back to its instruction, and a wait that was woken goes on there the
longest. -/
structure Resumes (next : Except SyncError WaitStatus → Place) : Prop where
  later : ∀ r, (next r).later = (next (.ok .signaled)).later
  signaled : (next (.ok .signaled)).point.rank ≤ 31
  ended : ∀ r, r ≠ .ok .signaled → (next r).point.rank ≤ 23

/-- A command with less before it than `n`. One that wakes a thread can spare what that thread does
then. -/
def Command.Spends (n : Nat) : Command Inbox Place Finished → Prop
  | .lock _ next | .unlock next | .emit _ next => next.effort < n
  | .access f => ∀ inbox, (f inbox).2.effort < n
  | .wait _ _ next => Resumes next ∧ 64 * (next (.ok .signaled)).later + Stage.entering.rank < n
  | .read _ next => ∀ r, (next r).effort < n
  | .notify _ all next => all = false ∧ ∀ r, (next r).effort + wakeRank < n
  | .instant next => ∀ i, (next i).effort < n
  | .stop => 0 < n
  | .wallTime _ | .sleep _ _ | .join _ _ => False

namespace Policy

theorem rank_checked (p : Policy) (holds : Bool) :
    (checked p holds).rank < (State.check p).rank := by
  cases p <;> cases holds <;> simp [checked, State.rank]

theorem rank_armed (p : Policy) (interval : Duration) (r : Except SyncError Time) :
    (armed p interval r).rank < (State.arm p interval).rank := by
  cases r <;> cases p <;> simp [armed, State.rank]

theorem rank_returned_signaled (p : Policy) : (returned p (.ok .signaled)).rank ≤ 31 := by
  cases p <;> simp [returned, State.rank]

theorem rank_returned (p : Policy) {r : Except SyncError WaitStatus} (h : r ≠ .ok .signaled) :
    (returned p r).rank ≤ 23 := by
  rcases r with e | _ | _
  · simp [returned, State.rank]
  · exact absurd rfl h
  · cases p <;> simp [returned, State.rank]

end Policy

namespace Script.Place

variable {n : Nat} {p : Place}

theorem spends_finish (h : 64 * p.rest.tail.length + 21 < n) (start : Option Int)
    (answer : Answer) : (p.finish start answer).Spends n := by
  cases start with
  | none => exact Nat.lt_of_le_of_lt (Nat.le_succ _) h
  | some start => exact fun _ => h

theorem spends_loop (policy : Policy) (condition : Condition) (start : Option Int)
    (state : Policy.State) (tally : Tally) (h : 64 * p.rest.tail.length + state.rank ≤ n) :
    (p.loop policy condition start state tally).Spends n := by
  have goesOn {state' : Policy.State} (tally' : Tally) (hlt : state'.rank < state.rank) :
      (p.moveTo (.looping policy condition start state' tally')).effort < n :=
    Nat.lt_of_lt_of_le (Nat.add_lt_add_left hlt _) h
  cases state with
  | check q => exact fun inbox => goesOn _ (Policy.rank_checked q _)
  | arm q interval => exact fun r => goesOn _ (Policy.rank_armed q interval r)
  | block q deadline =>
      refine ⟨⟨fun _ => rfl, Policy.rank_returned_signaled q, fun r hr =>
        Policy.rank_returned q hr⟩, ?_⟩
      exact Nat.lt_of_lt_of_le (Nat.add_lt_add_left (Nat.lt_succ_self _) _) h
  | recheck =>
      have hlt : (Policy.State.done (.ok true)).rank < Policy.State.recheck.rank := by decide
      exact fun inbox => goesOn _ hlt
  | done result => exact spends_finish (Nat.lt_of_lt_of_le (Nat.lt_succ_self _) h) start _

/-- A wait that leads to the end of its instruction. -/
theorem resumes_ending (p : Place) (answer : Except SyncError WaitStatus → Answer)
    (start : Option Int) : Resumes fun r => p.moveTo (.ending (answer r) start) where
  later _ := rfl
  signaled := Nat.le_of_ble_eq_true rfl
  ended _ _ := Nat.le_of_ble_eq_true rfl

theorem spends_perform (start : Option Int) (operation : Operation)
    (h : 64 * p.rest.tail.length + (Point.beginning start).rank ≤ n) :
    (p.perform start operation).Spends n := by
  have hlt (rank : Nat) (hrank : rank < 37) : 64 * p.rest.tail.length + rank < n :=
    Nat.lt_of_lt_of_le (Nat.add_lt_add_left hrank _) h
  have ends (answer : Answer) : (p.moveTo (.ending answer start)).effort < n :=
    hlt 22 (by decide)
  cases operation with
  | wait => exact ⟨resumes_ending p _ start, hlt _ (by decide)⟩
  | waitUntil deadline => exact ⟨resumes_ending p statusAnswer start, hlt _ (by decide)⟩
  | waitFor interval => exact fun r => hlt 27 (by decide)
  | waitPredicate policy condition =>
      have hstart : policy.start.rank < 37 := by
        cases policy <;> simp [Policy.start, Policy.State.rank]
      exact spends_loop policy condition start policy.start {} (Nat.le_of_lt (hlt _ hstart))
  | now => exact fun r => ends _
  | deadlineAfter interval => exact fun r => ends _
  | push item => exact fun inbox => ends _
  | close => exact fun inbox => ends _
  | drain => exact fun inbox => ends _
  | signal condvar => exact ⟨rfl, fun r => hlt (22 + wakeRank) (by decide)⟩

/-- Whatever a script does next, it has less before it then. -/
theorem spends_code (p : Place) : (code p).Spends p.effort := by
  obtain ⟨condvar, clock, mutex, index, rest, point⟩ := p
  cases point with
  | locking => exact Nat.lt_succ_self _
  | fetching =>
      cases rest with
      | nil => exact (by decide : 1 < 20)
      | cons i rest =>
          have hle : 64 * rest.length + 38 < 64 * (rest.length + 1) + 20 := by omega
          rw [code]
          dsimp only
          split
          · exact fun _ => hle
          · exact spends_perform none i.operation (Nat.le_of_lt (Nat.lt_of_succ_lt hle))
  | opening start => exact Nat.lt_succ_self _
  | beginning start =>
      cases rest with
      | nil => exact (by decide : 1 < 37)
      | cons i rest => exact spends_perform start i.operation (Nat.le_refl _)
  | armed interval start now =>
      cases now with
      | error e => exact spends_finish (Nat.add_lt_add_left (by decide : 21 < 27) _) start _
      | ok now =>
          exact ⟨resumes_ending _ statusAnswer start, Nat.add_lt_add_left (Nat.lt_succ_self 26) _⟩
  | looping policy condition start state tally =>
      exact spends_loop policy condition start state tally (Nat.le_refl _)
  | ending answer start => exact spends_finish (Nat.lt_succ_self _) start answer
  | reporting answer span => exact Nat.lt_succ_self _
  | released => exact Nat.succ_pos _

end Script.Place

/-! ### Stages -/

namespace Stage

theorem rank_registered (clock : Clock) (deadline : Option Time) :
    (registered clock deadline).rank < entering.rank := by
  cases deadline <;> simp [registered, rank]

theorem rank_ofPass (timer : Timer) (reading : Except ClockError Time) :
    (ofPass timer (timer.pass reading)).rank < (Stage.reading timer).rank := by
  -- only a timer that has spent its budget may end the wait like a notification
  have hlow {stage : Stage} (h : stage.rank < 25) : stage.rank < (Stage.reading timer).rank := by
    rw [rank]
    split <;> omega
  cases reading with
  | error e => exact hlow (Nat.lt_succ_self _)
  | ok now =>
      rw [Timer.pass]
      split
      · exact hlow (Nat.lt_succ_self _)
      · split
        · rename_i hspent
          simp [ofPass, rank, hspent]
        · exact hlow (by decide : 21 < 25)

theorem rank_ofWake (notified : Bool) (timed : Option (Timer × Park)) :
    (ofWake notified timed).rank < (woken notified timed).rank := by
  cases timed with
  | none => simp [ofWake, rank]
  | some timed =>
      cases notified with
      | true => simp [ofWake, rank]
      | false =>
          simp only [ofWake, Bool.false_eq_true, if_false, rank]
          split <;> decide

/-- What a return leads to ranks below it. -/
theorem rank_resumed {next : Except SyncError WaitStatus → Place} (h : Resumes next)
    (how : WaitEnd) : (next how.result).point.rank < (leaving how).rank := by
  cases how with
  | notified => exact Nat.lt_succ_of_le h.signaled
  | skewed clock deadline now => exact Nat.lt_succ_of_le h.signaled
  | timedOut deadline now => exact Nat.lt_succ_of_le (h.ended _ (by simp [WaitEnd.result]))
  | failed e => exact Nat.lt_succ_of_le (h.ended _ (by simp [WaitEnd.result]))

end Stage

/-! ### Threads -/

namespace Thread

/-- What a thread has before it. -/
def effort (th : Thread Place) : Nat :=
  match th.control with
  | .running p => p.effort
  | .waiting _ _ stage next => 64 * (next (.ok .signaled)).later + stage.rank
  | .sleeping _ | .ended => 0

/-- The effort in whole instructions, with what a wake-up may add. -/
def allowance (th : Thread Place) : Nat := 64 * (th.effort / 64 + 1)

/-- The thread does not sleep, and its wait goes back to its script. -/
def Steady (th : Thread Place) : Prop :=
  match th.control with
  | .waiting _ _ _ next => Resumes next
  | .sleeping _ => False
  | _ => True

variable {th : Thread Place}

theorem Steady.wake (h : th.Steady) (b : Bool) : (th.wake b).Steady := by
  obtain ⟨c, g⟩ := th
  cases c with
  | waiting condvar deadline stage next => cases stage <;> exact h
  | sleeping next => exact h.elim
  | _ => trivial

theorem effort_le_allowance (th : Thread Place) : th.effort ≤ th.allowance := by
  rw [allowance]
  omega

theorem allowance_mono {th' : Thread Place} (h : th'.effort ≤ th.effort) :
    th'.allowance ≤ th.allowance := by
  have hdiv := Nat.div_le_div_right (c := 64) h
  rw [allowance, allowance]
  omega

theorem effort_wake_le (h : th.Steady) (b : Bool) : (th.wake b).effort ≤ th.effort + wakeRank := by
  obtain ⟨c, g⟩ := th
  cases c with
  | waiting condvar deadline stage next =>
      cases stage with
      | queued timed => exact Nat.le_refl _
      | _ => exact Nat.le_add_right ..
  | sleeping next => exact h.elim
  | _ => exact Nat.le_add_right ..

/-- A wake-up is allowed for. -/
theorem allowance_wake (h : th.Steady) (b : Bool) : (th.wake b).allowance = th.allowance := by
  obtain ⟨c, g⟩ := th
  cases c with
  | waiting condvar deadline stage next =>
      cases stage with
      | queued timed =>
          change 64 * ((64 * (next (.ok .signaled)).later + 34) / 64 + 1) =
            64 * ((64 * (next (.ok .signaled)).later + 20) / 64 + 1)
          omega
      | _ => rfl
  | sleeping next => exact h.elim
  | _ => rfl

end Thread

namespace Machine

variable {m m' : ScriptMachine} {t : ThreadId} {th th' : Thread Place}

def effort (m : ScriptMachine) : Nat := (m.threads.map Thread.effort).sum

def allowance (m : ScriptMachine) : Nat := (m.threads.map Thread.allowance).sum

def Steady (m : ScriptMachine) : Prop := ∀ th ∈ m.threads, th.Steady

/-- A sum when one element changes. -/
theorem sum_set_of_getElem? {α : Type} {l : List α} {i : Nat} {a : α} (h : l[i]? = some a) (b : α)
    (f : α → Nat) : ((l.set i b).map f).sum + f a = (l.map f).sum + f b := by
  induction l generalizing i with
  | nil => cases h
  | cons x l ih =>
      cases i with
      | zero =>
          obtain rfl : x = a := by simpa using h
          simp only [List.set_cons_zero, List.map_cons, List.sum_cons]
          omega
      | succ i =>
          have hl := ih (i := i) (by simpa using h)
          simp only [List.set_cons_succ, List.map_cons, List.sum_cons]
          omega

theorem effort_le_allowance (m : ScriptMachine) : m.effort ≤ m.allowance :=
  List.sum_le_sum fun th _ => th.effort_le_allowance

/-- A machine in which something was done that was to be done. -/
structure Nearer (m m' : ScriptMachine) : Prop where
  steady : Steady m'
  effort_lt : m'.effort < m.effort
  allowance_le : m'.allowance ≤ m.allowance

/-- One thread goes on with less before it, once others were woken. What it spends is more than what
they may do. -/
theorem Steady.set {n : ScriptMachine} {extra : Nat} (h : Steady n)
    (heffort : n.effort ≤ m.effort + extra) (hallowance : n.allowance = m.allowance)
    (ht : n.threads[t]? = some th) (hset : m'.threads = n.threads.set t th') (hth' : th'.Steady)
    (hlt : th'.effort + extra < th.effort) : Nearer m m' where
  steady u hu := by
    rw [hset] at hu
    rcases List.mem_or_eq_of_mem_set hu with hu | rfl
    · exact h u hu
    · exact hth'
  effort_lt := by
    have hsum := sum_set_of_getElem? ht th' Thread.effort
    rw [effort] at heffort
    rw [effort, hset]
    omega
  allowance_le := by
    have hsum := sum_set_of_getElem? ht th' Thread.allowance
    have hle := Thread.allowance_mono (Nat.le_of_lt (Nat.lt_of_le_of_lt (Nat.le_add_right ..) hlt))
    rw [← hallowance, allowance, allowance, hset]
    omega

/-- Waking threads adds what each of them may do, and that is allowed for. -/
theorem Steady.wake (h : Steady m) (b : Bool) (t : ThreadId) :
    Steady (m.wake b t) ∧ (m.wake b t).effort ≤ m.effort + wakeRank ∧
      (m.wake b t).allowance = m.allowance := by
  have hthreads : (m.wake b t).threads = m.threads.modify t (Thread.wake b) := rfl
  cases ht : m.threads[t]? with
  | none =>
      have hout : m.threads.length ≤ t := List.getElem?_eq_none_iff.mp ht
      rw [List.modify_eq_self hout] at hthreads
      rw [Steady, effort, allowance, hthreads]
      exact ⟨h, Nat.le_add_right .., rfl⟩
  | some th =>
      have hth := h th (List.mem_of_getElem? ht)
      rw [modify_eq_set ht] at hthreads
      refine ⟨fun u hu => ?_, ?_, ?_⟩
      · rw [hthreads] at hu
        rcases List.mem_or_eq_of_mem_set hu with hu | rfl
        · exact h u hu
        · exact hth.wake b
      · have hsum := sum_set_of_getElem? ht (th.wake b) Thread.effort
        have hle := Thread.effort_wake_le hth b
        rw [effort, effort, hthreads]
        omega
      · have hsum := sum_set_of_getElem? ht (th.wake b) Thread.allowance
        have heq := Thread.allowance_wake hth b
        rw [allowance, allowance, hthreads]
        omega

theorem Steady.wakeAll (ts : List ThreadId) (h : Steady m) :
    Steady (ts.foldl (Machine.wake · true) m) ∧
      (ts.foldl (Machine.wake · true) m).effort ≤ m.effort + wakeRank * ts.length ∧
      (ts.foldl (Machine.wake · true) m).allowance = m.allowance := by
  induction ts generalizing m with
  | nil => exact ⟨h, Nat.le_refl _, rfl⟩
  | cons t ts ih =>
      obtain ⟨hsteady, heffort, hallowance⟩ := h.wake true t
      obtain ⟨hsteady', heffort', hallowance'⟩ := ih hsteady
      refine ⟨hsteady', ?_, hallowance'.trans hallowance⟩
      rw [List.foldl_cons, List.length_cons, Nat.mul_succ]
      omega

theorem Steady.notify (h : Steady m) (thread : Option ThreadId) (condvar : CondvarId)
    (all : Bool) : Steady (m.notify thread condvar all).1 ∧
      (m.notify thread condvar all).1.effort ≤
        m.effort + wakeRank * (m.woken condvar all).length ∧
      (m.notify thread condvar all).1.allowance = m.allowance :=
  Steady.wakeAll (m.woken condvar all) h

theorem Steady.calm {p : Place} {notes : List (Note Finished)} {c : Control Place}
    (h : Calm m (Script.code p) notes c) (g : Option MutexId) :
    (⟨c, g⟩ : Thread Place).Steady ∧ (⟨c, g⟩ : Thread Place).effort < p.effort := by
  have hspends := p.spends_code
  generalize Script.code p = cmd at h hspends
  cases h with
  | wait condvar deadline next => exact hspends
  | read hcv => exact ⟨trivial, hspends _⟩
  | instant next => exact ⟨trivial, hspends _⟩
  | emit notes next => exact ⟨trivial, hspends⟩
  | stop => exact ⟨trivial, hspends⟩
  | _ => exact hspends.elim

theorem effort_running {p : Place} (hc : th.control = .running p) : th.effort = p.effort := by
  rw [Thread.effort, hc]

theorem effort_waiting {condvar : CondvarId} {deadline : Option Time} {stage : Stage}
    {next : Except SyncError WaitStatus → Place}
    (hc : th.control = .waiting condvar deadline stage next) :
    th.effort = 64 * (next (.ok .signaled)).later + stage.rank := by
  rw [Thread.effort, hc]

/-- A step leaves less to be done. -/
theorem Steady.stepped (h : Steady m) (ht : m.threads[t]? = some th)
    (hs : Stepped Script.code m t th m') : Nearer m m' := by
  have hth := h th (List.mem_of_getElem? ht)
  have goesOn {th' : Thread Place} (hset : m'.threads = m.threads.set t th') (hth' : th'.Steady)
      (hlt : th'.effort < th.effort) : Nearer m m' :=
    h.set (Nat.le_add_right _ 0) rfl ht hset hth' hlt
  -- the wait goes on at a stage of lower rank
  have waits {condvar : CondvarId} {deadline : Option Time} {stage stage' : Stage}
      {next : Except SyncError WaitStatus → Place}
      (hc : th.control = .waiting condvar deadline stage next) (hlt : stage'.rank < stage.rank)
      (hset : m'.threads =
        m.threads.set t { th with control := .waiting condvar deadline stage' next }) :
      Nearer m m' := by
    refine goesOn hset ?_ ?_
    · rw [Thread.Steady, hc] at hth
      exact hth
    · rw [effort_waiting hc]
      exact Nat.add_lt_add_left hlt _
  -- the wait is over
  have returns {condvar : CondvarId} {deadline : Option Time} {stage : Stage}
      {next : Except SyncError WaitStatus → Place} (r : Except SyncError WaitStatus)
      (hc : th.control = .waiting condvar deadline stage next)
      (hlt : Resumes next → (next r).point.rank < stage.rank)
      (hset : m'.threads = m.threads.set t { th with control := .running (next r) }) :
      Nearer m m' := by
    rw [Thread.Steady, hc] at hth
    refine goesOn hset trivial ?_
    rw [effort_waiting hc, effort_running rfl, Place.effort, hth.later]
    exact Nat.add_lt_add_left (hlt hth) _
  -- the script goes on
  have runs {p next : Place} {g : Option MutexId} (hc : th.control = .running p)
      (hlt : next.effort < p.effort) (hset : m'.threads = m.threads.set t ⟨.running next, g⟩) :
      Nearer m m' :=
    goesOn hset trivial (by rw [effort_running hc]; exact hlt)
  have spends {p : Place} {cmd : Command Inbox Place Finished} (hcode : Script.code p = cmd) :
      cmd.Spends p.effort := hcode ▸ p.spends_code
  cases hs with
  | lock hc hcode hx hfree => exact runs hc (spends hcode) rfl
  | unlock hc hcode hg => exact runs hc (spends hcode) rfl
  | access hc hcode hg hx => exact runs hc (spends hcode _) rfl
  | calm line hc hcalm =>
      obtain ⟨hsteady, hlt⟩ := Steady.calm hcalm th.guard
      exact goesOn rfl hsteady (by rw [effort_running hc]; exact hlt)
  | @notify place condvar all next hc hcode =>
      -- what the woken thread does is paid for
      obtain ⟨rfl, hspends⟩ := spends hcode
      obtain ⟨hsteady, heffort, hallowance⟩ := h.notify (some t) condvar false
      have hone : (m.woken condvar false).length ≤ 1 := List.length_take_le 1 _
      refine hsteady.set (Nat.le_trans heffort (Nat.add_le_add_left
        (Nat.mul_le_mul_left wakeRank hone) _)) hallowance
        (notify_running m (some t) condvar false ht hc) rfl trivial ?_
      rw [effort_running hc]
      exact hspends _
  | sleep hc hcode hl => exact (spends hcode).elim
  | reject hc hg hcv hconflict =>
      refine returns _ hc (fun hnext => ?_) rfl
      exact Nat.lt_of_le_of_lt (hnext.ended _ (by simp)) (by decide)
  | register hc hg hcv hconflict => exact waits hc (Stage.rank_registered ..) rfl
  | read hc => exact waits hc (Stage.rank_ofPass ..) rfl
  | park hc hg => exact waits hc (Nat.lt_succ_self _) rfl
  | retake hc hg hx hfree => exact waits hc (Stage.rank_ofWake ..) rfl
  | @leave condvar deadline how next hc =>
      exact returns how.result hc (fun hnext => Stage.rank_resumed hnext how) rfl

end Machine

end TimedCondvar
