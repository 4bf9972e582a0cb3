import TimedCondvar.Machine.Step

/-!
The order in which a machine runs by itself. One thread runs at a time: the first in line that
can, until it parks or ends. Time stands still while any thread can run; then it moves on to the
end of a park.
-/

namespace TimedCondvar.Machine

variable {σ κ ε : Type}

/-- One step of the first thread in line that can do one. -/
def turn (code : κ → Command σ κ ε) (m : Machine σ κ ε) : Option (Machine σ κ ε) :=
  m.line.findSome? (m.step code)

/-- Runs until no thread can, for `n` steps at most. -/
def settle (code : κ → Command σ κ ε) : Nat → Machine σ κ ε → Machine σ κ ε
  | 0, m => m
  | n + 1, m =>
    match m.turn code with
    | none => m
    | some m' => settle code n m'

/-- Lets parks run out one by one, up to `limit` if there is one, each time running all threads
that can for `work` steps at most. At most `n` parks run out. -/
def elapse (code : κ → Command σ κ ε) (work : Nat) (limit : Option Int) :
    Nat → Machine σ κ ε → Machine σ κ ε
  | 0, m => m
  | n + 1, m =>
    match firstExpiry m.parked with
    | none => m
    | some (instant, t) =>
      if limit.all (instant ≤ ·) then
        elapse code work limit n ((m.expire instant t).settle code work)
      else m

/-- Moves the park clock on by `d`. A park is never empty, so in `d` no thread sees more parks
run out than there are nanoseconds. -/
def advance (code : κ → Command σ κ ε) (work : Nat) (d : Duration) (m : Machine σ κ ε) :
    Machine σ κ ε :=
  let target := m.mono + d.totalNanos
  { elapse code work (some target) (m.threads.length * (d.totalNanos + 1)) m with mono := target }

end TimedCondvar.Machine
