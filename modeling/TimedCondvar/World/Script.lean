import TimedCondvar.Machine.PredicateWait

/-!
Scripted threads. A script is run by one thread with one condition variable while it holds one
mutex: instruction after instruction, whether they succeed or not. Every mutex guards an inbox,
and conditions are about the inbox.
-/

namespace TimedCondvar

/-- What a mutex guards. -/
structure Inbox where
  items : List Int := []
  closed : Bool := false
  deriving DecidableEq, Repr

/-- What one predicate wait remembers of its condition: evaluations, and items taken. -/
structure Tally where
  calls : Nat := 0
  taken : List Int := []
  deriving DecidableEq, Repr

inductive Condition
  | always
  | never
  | closed
  /-- At least `n` items. -/
  | atLeast (n : Nat)
  | exactly (n : Nat)
  /-- From the `n`th evaluation on. -/
  | fromCall (n : Nat)
  /-- Takes all items; holds once `n` are taken. -/
  | take (n : Nat)
  /-- Takes one item; holds if there was one, or else if the inbox is closed. -/
  | pop
  deriving DecidableEq, Repr

def Condition.eval (c : Condition) (tally : Tally) (inbox : Inbox) : Bool × Tally × Inbox :=
  let tally := { tally with calls := tally.calls + 1 }
  match c with
  | .always => (true, tally, inbox)
  | .never => (false, tally, inbox)
  | .closed => (inbox.closed, tally, inbox)
  | .atLeast n => (n ≤ inbox.items.length, tally, inbox)
  | .exactly n => (inbox.items.length = n, tally, inbox)
  | .fromCall n => (n ≤ tally.calls, tally, inbox)
  | .take n =>
    let taken := tally.taken ++ inbox.items
    (n ≤ taken.length, { tally with taken := taken }, { inbox with items := [] })
  | .pop =>
    match inbox.items with
    | [] => (inbox.closed, tally, inbox)
    | x :: items =>
      (true, { tally with taken := tally.taken ++ [x] }, { inbox with items := items })

inductive Operation
  | wait
  | waitUntil (deadline : Time)
  | waitFor (interval : Duration)
  | waitPredicate (policy : Policy) (condition : Condition)
  | now
  | deadlineAfter (interval : Duration)
  | push (item : Int)
  | close
  | drain
  | signal (condvar : CondvarId)
  deriving Repr

/-- An operation, timed by a span if wanted. -/
structure Instruction where
  operation : Operation
  timed : Bool := false
  deriving Repr

/-- What came of an instruction. -/
inductive Answer
  | woken
  | status (s : WaitStatus)
  /-- A wait for a condition; one without end has no value to tell. -/
  | ready (value : Option Bool) (tally : Tally)
  | failed (e : SyncError) (tally : Option Tally)
  | time (t : Time)
  | length (n : Nat)
  | batch (items : List Int)
  | notified (r : WakeResult)
  | nothing
  deriving Repr

/-- Whether the wait got what it waited for; anything but a condition that holds did not. -/
def Answer.satisfied : Answer → Bool
  | .ready (some value) _ => value
  | _ => false

/-- An instruction is done. -/
structure Finished where
  index : Nat
  answer : Answer
  deriving Repr

namespace Script

/-- What the thread does within the instruction at hand. `start` is when its span began. -/
inductive Point
  | locking
  | fetching
  | opening (start : Int)
  | beginning (start : Option Int)
  | armed (interval : Duration) (start : Option Int) (now : Except SyncError Time)
  | looping (policy : Policy) (condition : Condition) (start : Option Int)
      (state : Policy.State) (tally : Tally)
  | ending (answer : Answer) (start : Option Int)
  | reporting (answer : Answer) (span : WaitSpan.End)
  | released
  deriving Repr

/-- A place in a script: what it works with, the instructions left, and the point within the
first of them, which has number `index`. -/
structure Place where
  condvar : CondvarId
  clock : Clock
  mutex : MutexId
  index : Nat := 0
  rest : List Instruction
  point : Point := .locking
  deriving Repr

namespace Place

def span (p : Place) : WaitSpan := ⟨"wait", p.clock⟩

def moveTo (p : Place) (point : Point) : Place := { p with point := point }

/-- The place behind the instruction at hand. -/
def behind (p : Place) : Place :=
  { p with index := p.index + 1, rest := p.rest.tail, point := .fetching }

/-- Ends the instruction: looks at the time first if there is a span to end. -/
def finish (p : Place) (start : Option Int) (answer : Answer) : Command Inbox Place Finished :=
  match start with
  | none => .emit [.event ⟨p.index, answer⟩] p.behind
  | some start => .instant fun now =>
      p.moveTo (.reporting answer (p.span.finish start now answer.satisfied))

def statusAnswer : Except SyncError WaitStatus → Answer
  | .ok s => .status s
  | .error e => .failed e none

def timeAnswer : Except SyncError Time → Answer
  | .ok t => .time t
  | .error e => .failed e none

def readyAnswer (policy : Policy) (tally : Tally) : Except SyncError Bool → Answer
  | .ok value => .ready (if policy = .forever then none else some value) tally
  | .error e => .failed e (some tally)

/-- Goes on with a wait for a condition. -/
def loop (p : Place) (policy : Policy) (condition : Condition) (start : Option Int)
    (state : Policy.State) (tally : Tally) : Command Inbox Place Finished :=
  state.command p.condvar (condition.eval tally) tally
    (fun state tally => p.moveTo (.looping policy condition start state tally))
    (fun r => p.finish start (readyAnswer policy tally r))

/-- Begins an operation. -/
def perform (p : Place) (start : Option Int) : Operation → Command Inbox Place Finished
  | .wait => .wait p.condvar none fun r => p.moveTo (.ending (match r with
      | .ok _ => .woken
      | .error e => .failed e none) start)
  | .waitUntil deadline =>
    .wait p.condvar (some deadline) fun r => p.moveTo (.ending (statusAnswer r) start)
  | .waitFor interval => .read p.condvar fun r => p.moveTo (.armed interval start r)
  | .waitPredicate policy condition => p.loop policy condition start policy.start {}
  | .now => .read p.condvar fun r => p.moveTo (.ending (timeAnswer r) start)
  | .deadlineAfter interval =>
    .read p.condvar fun r =>
      p.moveTo (.ending (timeAnswer (r.map (·.saturatingAdd interval))) start)
  | .push item => .access fun inbox =>
    let items := inbox.items ++ [item]
    ({ inbox with items := items }, p.moveTo (.ending (.length items.length) start))
  | .close => .access fun inbox =>
    ({ inbox with closed := true }, p.moveTo (.ending .nothing start))
  | .drain => .access fun inbox =>
    ({ inbox with items := [] }, p.moveTo (.ending (.batch inbox.items) start))
  | .signal condvar => .notify condvar false fun r => p.moveTo (.ending (.notified r) start)

end Place

/-- The code of scripted threads. -/
def code (p : Place) : Command Inbox Place Finished :=
  match p.point with
  | .locking => .lock p.mutex (p.moveTo .fetching)
  | .fetching =>
    match p.rest with
    | [] => .unlock (p.moveTo .released)
    | i :: _ => if i.timed then .instant fun now => p.moveTo (.opening now)
      else p.perform none i.operation
  | .opening start => .emit [.spanOpened p.span] (p.moveTo (.beginning (some start)))
  | .beginning start =>
    match p.rest with
    | [] => .unlock (p.moveTo .released)
    | i :: _ => p.perform start i.operation
  | .armed _ start (.error e) => p.finish start (.failed e none)
  | .armed interval start (.ok now) =>
    .wait p.condvar (some (now.saturatingAdd interval)) fun r =>
      p.moveTo (.ending (Place.statusAnswer r) start)
  | .looping policy condition start state tally => p.loop policy condition start state tally
  | .ending answer start => p.finish start answer
  | .reporting answer span => .emit [.spanEnded span, .event ⟨p.index, answer⟩] p.behind
  | .released => .stop

end Script

end TimedCondvar
