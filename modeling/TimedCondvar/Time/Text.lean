import TimedCondvar.Time.Duration
import TimedCondvar.Text.Numeral

/-!
Durations and dates in text. A duration is written in the largest unit it fills, with no more
digits of a fraction than it has; a date in the Gregorian calendar, to the microsecond.
-/

namespace TimedCondvar

/-- A fraction of `width` digits, the zeros at its end left out. -/
def fractionText (width n : Nat) : String :=
  let digits := ((Numeral.padded width n).toList.reverse.dropWhile (· = '0')).reverse
  if digits.isEmpty then "" else "." ++ String.ofList digits

def Duration.text (d : Duration) : String :=
  if 0 < d.secs then Numeral.decimal d.secs ++ fractionText 9 d.nanos ++ "s"
  else if nanosPerMilli ≤ d.nanos then
    Numeral.decimal (d.nanos / nanosPerMilli) ++ fractionText 6 (d.nanos % nanosPerMilli) ++ "ms"
  else if nanosPerMicro ≤ d.nanos then
    Numeral.decimal (d.nanos / nanosPerMicro) ++ fractionText 3 (d.nanos % nanosPerMicro) ++ "µs"
  else Numeral.decimal d.nanos ++ "ns"

/-- A day of the Gregorian calendar. -/
structure Date where
  year : Nat
  month : Nat
  day : Nat
  deriving DecidableEq, Repr

namespace Date

/-- The date so many days after 1 January 1970. Years are counted from March, in eras of 400, so
that leap days come last. -/
def ofDays (days : Nat) : Date :=
  let z := days + 719468
  let era := z / 146097
  let dayOfEra := z % 146097
  let year := (dayOfEra - dayOfEra / 1460 + dayOfEra / 36524 - dayOfEra / 146096) / 365
  let dayOfYear := dayOfEra - (365 * year + year / 4 - year / 100)
  let march := (5 * dayOfYear + 2) / 153
  let day := dayOfYear - (153 * march + 2) / 5 + 1
  let month := if march < 10 then march + 3 else march - 9
  ⟨year + 400 * era + (if month ≤ 2 then 1 else 0), month, day⟩

example : ofDays 0 = ⟨1970, 1, 1⟩ := by decide
example : ofDays 11016 = ⟨2000, 2, 29⟩ := by decide

def text (d : Date) : String :=
  (if 9999 < d.year then "+" ++ Numeral.decimal d.year else Numeral.padded 4 d.year)
    ++ "-" ++ Numeral.padded 2 d.month ++ "-" ++ Numeral.padded 2 d.day

end Date

/-- The text of an instant so many microseconds after the start of 1970, UTC. -/
def stampText (micros : Nat) : String :=
  let secs := micros / microsPerSec
  (Date.ofDays (secs / 86400)).text ++ "T" ++ Numeral.padded 2 (secs / 3600 % 24) ++ ":"
    ++ Numeral.padded 2 (secs / 60 % 60) ++ ":" ++ Numeral.padded 2 (secs % 60) ++ "."
    ++ Numeral.padded 6 (micros % microsPerSec) ++ "Z"

end TimedCondvar
