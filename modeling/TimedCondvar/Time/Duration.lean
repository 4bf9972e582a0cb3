import TimedCondvar.Number.Word

/-!
Lengths of time as whole seconds, held in 64 bits, and nanoseconds below one second. The view
`totalNanos` is the length in nanoseconds; order and arithmetic are read through it.
-/

namespace TimedCondvar

def nanosPerSec : Nat := 1000000000
def nanosPerMilli : Nat := 1000000
def nanosPerMicro : Nat := 1000
def microsPerSec : Nat := 1000000
def millisPerSec : Nat := 1000

theorem nanosPerSec_pos : 0 < nanosPerSec := by decide

theorem nanosPerSec_pred_lt : nanosPerSec - 1 < nanosPerSec := by decide

@[ext] structure Duration where
  secs : Nat
  nanos : Nat
  secs_lt : secs < unsignedLimit
  nanos_lt : nanos < nanosPerSec
  deriving Repr

namespace Duration

instance : DecidableEq Duration := fun _ _ => decidable_of_iff _ Duration.ext_iff.symm

def zero : Duration := ⟨0, 0, by decide, nanosPerSec_pos⟩

/-- The longest one. -/
def max : Duration := ⟨unsignedLimit - 1, nanosPerSec - 1, by decide, nanosPerSec_pred_lt⟩

def totalNanos (d : Duration) : Nat := d.secs * nanosPerSec + d.nanos

instance : LE Duration := ⟨fun a b => a.totalNanos ≤ b.totalNanos⟩
instance : LT Duration := ⟨fun a b => a.totalNanos < b.totalNanos⟩
instance (a b : Duration) : Decidable (a ≤ b) := inferInstanceAs (Decidable (a.totalNanos ≤ _))
instance (a b : Duration) : Decidable (a < b) := inferInstanceAs (Decidable (a.totalNanos < _))

/-- The length of so many nanoseconds, cut at `max`. -/
def ofNanos (n : Nat) : Duration :=
  if h : n / nanosPerSec < unsignedLimit then
    ⟨n / nanosPerSec, n % nanosPerSec, h, Nat.mod_lt _ nanosPerSec_pos⟩
  else max

def ofMicros (n : Nat) : Duration := ofNanos (n * nanosPerMicro)

def ofMillis (n : Nat) : Duration := ofNanos (n * nanosPerMilli)

/-- The length taken `k` times, cut at `max`. -/
def times (d : Duration) (k : Nat) : Duration := ofNanos (d.totalNanos * k)

@[simp] theorem totalNanos_zero : zero.totalNanos = 0 := rfl

theorem totalNanos_ofNanos {n : Nat} (h : n / nanosPerSec < unsignedLimit) :
    (ofNanos n).totalNanos = n := by
  simp only [ofNanos, h, dite_true, totalNanos]
  exact Nat.div_add_mod' n nanosPerSec

theorem totalNanos_injective {a b : Duration} (h : a.totalNanos = b.totalNanos) : a = b := by
  obtain ⟨s, n, hs, hn⟩ := a
  obtain ⟨s', n', hs', hn'⟩ := b
  simp only [totalNanos, nanosPerSec] at h hn hn'
  obtain rfl : s = s' := by omega
  obtain rfl : n = n' := by omega
  rfl

end Duration

end TimedCondvar
