import TimedCondvar.Time.Duration
import TimedCondvar.Text.Numeral

/-!
Points in time on a clock: whole seconds in the signed 64 bit range, before or after the clock's
origin, and nanoseconds below one second that always count forwards. The view `totalNanos` is
the distance from the origin in nanoseconds.
-/

namespace TimedCondvar

@[ext] structure Time where
  secs : Int
  nanos : Nat
  le_secs : -signedLimit ≤ secs
  secs_lt : secs < signedLimit
  nanos_lt : nanos < nanosPerSec
  deriving Repr

namespace Time

instance : DecidableEq Time := fun _ _ => decidable_of_iff _ Time.ext_iff.symm

def zero : Time := ⟨0, 0, by decide, by decide, nanosPerSec_pos⟩

/-- The latest one; the deadline of a wait that has no end. -/
def max : Time := ⟨signedLimit - 1, nanosPerSec - 1, by decide, by decide, nanosPerSec_pred_lt⟩

def earliest : Time := ⟨-signedLimit, 0, by decide, by decide, nanosPerSec_pos⟩

def totalNanos (t : Time) : Int := t.secs * nanosPerSec + t.nanos

/-! ### Order

Seconds come first, nanoseconds decide among equal seconds. -/

def compare (a b : Time) : Ordering :=
  (Ord.compare a.secs b.secs).then (Ord.compare a.nanos b.nanos)

instance : Ord Time := ⟨compare⟩
instance : LE Time := ⟨fun a b => a.secs < b.secs ∨ a.secs = b.secs ∧ a.nanos ≤ b.nanos⟩
instance : LT Time := ⟨fun a b => a.secs < b.secs ∨ a.secs = b.secs ∧ a.nanos < b.nanos⟩

instance (a b : Time) : Decidable (a ≤ b) :=
  inferInstanceAs (Decidable (a.secs < b.secs ∨ a.secs = b.secs ∧ a.nanos ≤ b.nanos))

instance (a b : Time) : Decidable (a < b) :=
  inferInstanceAs (Decidable (a.secs < b.secs ∨ a.secs = b.secs ∧ a.nanos < b.nanos))

theorem le_iff_totalNanos {a b : Time} : a ≤ b ↔ a.totalNanos ≤ b.totalNanos := by
  have ha := a.nanos_lt
  have hb := b.nanos_lt
  change a.secs < b.secs ∨ a.secs = b.secs ∧ a.nanos ≤ b.nanos ↔ _
  unfold totalNanos nanosPerSec at *
  omega

theorem lt_iff_totalNanos {a b : Time} : a < b ↔ a.totalNanos < b.totalNanos := by
  have ha := a.nanos_lt
  have hb := b.nanos_lt
  change a.secs < b.secs ∨ a.secs = b.secs ∧ a.nanos < b.nanos ↔ _
  unfold totalNanos nanosPerSec at *
  omega

/-! ### Building

`new` takes a reading as it comes, with any number of nanoseconds. `carry?` is the one addition
behind all others: it gives nothing if the seconds to add, the carried ones among them, are out
of range by themselves or take the sum out of range. -/

def new (secs : Int) (nanos : Nat) : Time :=
  let s := secs + (nanos / nanosPerSec : Nat)
  if h : -signedLimit ≤ s ∧ s < signedLimit then
    ⟨s, nanos % nanosPerSec, h.1, h.2, Nat.mod_lt _ nanosPerSec_pos⟩
  else if s < 0 then earliest
  else max

def carry? (t : Time) (addSecs addNanos : Nat) : Option Time :=
  let nanos := t.nanos + addNanos
  let add := addSecs + nanos / nanosPerSec
  if h : add < signedLimit ∧ t.secs + add < signedLimit then
    some ⟨t.secs + add, nanos % nanosPerSec,
      Int.le_trans t.le_secs (Int.le_add_of_nonneg_right (Int.natCast_nonneg _)),
      h.2, Nat.mod_lt _ nanosPerSec_pos⟩
  else none

/-! ### Adding and subtracting -/

def checkedAdd (t : Time) (d : Duration) : Option Time := t.carry? d.secs d.nanos

def saturatingAdd (t : Time) (d : Duration) : Time := (t.checkedAdd d).getD max

/-- Adds whole milliseconds, split into seconds and nanoseconds first. -/
def checkedAddMillis (t : Time) (ms : Nat) : Option Time :=
  t.carry? (ms / millisPerSec) (ms % millisPerSec * nanosPerMilli)

def saturatingAddMillis (t : Time) (ms : Nat) : Time := (t.checkedAddMillis ms).getD max

theorem natAbs_secs_sub_lt (a b : Time) : (a.secs - b.secs).natAbs < unsignedLimit := by
  have := a.secs_lt
  have := a.le_secs
  have := b.secs_lt
  have := b.le_secs
  have := unsignedLimit_eq
  omega

/-- The time from `earlier` to `t`, zero if `earlier` is not before `t`. A second is borrowed
if the nanoseconds of `t` do not suffice. -/
def durationSince (t earlier : Time) : Duration :=
  if t ≤ earlier then .zero
  else if hn : earlier.nanos ≤ t.nanos then
    ⟨(t.secs - earlier.secs).natAbs, t.nanos - earlier.nanos, natAbs_secs_sub_lt t earlier,
      by have := t.nanos_lt; omega⟩
  else
    ⟨(t.secs - earlier.secs).natAbs - 1, t.nanos + nanosPerSec - earlier.nanos,
      Nat.lt_of_le_of_lt (Nat.sub_le _ _) (natAbs_secs_sub_lt t earlier),
      by have := t.nanos_lt; omega⟩

/-- Microseconds since the origin in 64 bits, cut at their limit. Seconds before the origin
count as none. -/
def asMicros (t : Time) : Nat :=
  let limit := unsignedLimit - 1
  min limit (min limit (t.secs.toNat * microsPerSec) + t.nanos / nanosPerMicro)

/-- Seconds, a point, nine digits of nanoseconds, the unit. -/
def text (t : Time) : String :=
  Numeral.signed t.secs ++ "." ++ Numeral.padded 9 t.nanos ++ "s"

end Time

end TimedCondvar
