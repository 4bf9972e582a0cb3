import Mathlib.Algebra.Order.Field.Basic
import Mathlib.Tactic.NormNum
import Mathlib.Tactic.Ring
import TimedCondvar.Proofs.Numerals
import TimedCondvar.Proofs.Distances

/-!
The number that a time is written as. From the origin on it is the seconds that have passed since
then, to the nanosecond. A time before the origin has a negative number of seconds and nanoseconds
that count forwards from there. Its text puts the sign of the seconds in front of both, and so the
nanoseconds are read as if they counted backwards. `Time.Misshown` tells the times whose number is
wrong. Even so, no two times have one text, and a later time has the greater number unless both are
in one second before the origin.
-/

namespace TimedCondvar

namespace Time

variable {t u : Time} {q : ℚ}

/-- The text of the time is the number `q` in decimal notation, and the unit behind it. -/
def Shows (t : Time) (q : ℚ) : Prop :=
  ∃ number, t.text.toList = number ++ ['s'] ∧ Numeral.number? number = some q

/-- The time is before the origin, and not by whole seconds. -/
def Misshown (t : Time) : Prop := t.secs < 0 ∧ 0 < t.nanos

instance (t : Time) : Decidable t.Misshown :=
  inferInstanceAs (Decidable (t.secs < 0 ∧ 0 < t.nanos))

/-- The nanoseconds that the text comes to, with the sign of the seconds for all of it. -/
def shownNanos (t : Time) : Int :=
  if t.secs < 0 then t.secs * nanosPerSec - t.nanos else t.totalNanos

/-! ### The text without its unit -/

/-- The text in front of the unit. -/
def figures (t : Time) : List Char :=
  (Numeral.signed t.secs).toList ++ '.' :: (Numeral.padded 9 t.nanos).toList

theorem toList_text (t : Time) : t.text.toList = t.figures ++ ['s'] := by
  simp [text, figures]

theorem number?_figures (t : Time) :
    Numeral.number? t.figures = some ((t.shownNanos : ℚ) / nanosPerSec) := by
  have hlength := Numeral.length_padded (by decide : 0 < 9) (show t.nanos < 10 ^ 9 from t.nanos_lt)
  have hnumber := Numeral.unsigned?_point (Numeral.natural?_toDigits t.secs.natAbs)
    (Numeral.natural?_padded 9 t.nanos)
  rw [hlength] at hnumber
  by_cases hneg : t.secs < 0
  · rw [figures, Numeral.toList_signed, if_pos hneg, List.cons_append,
      Numeral.number?_minus hnumber, shownNanos, if_pos hneg, Nat.cast_natAbs, abs_of_neg hneg,
      nanosPerSec]
    refine congrArg some ?_
    push_cast
    ring
  · rw [figures, Numeral.toList_signed, if_neg hneg, Numeral.number?_of_unsigned? hnumber,
      shownNanos, if_neg hneg, Nat.cast_natAbs, abs_of_nonneg (Int.not_lt.mp hneg), totalNanos,
      nanosPerSec]
    refine congrArg some ?_
    push_cast
    ring

theorem shows_iff : t.Shows q ↔ q = (t.shownNanos : ℚ) / nanosPerSec := by
  constructor
  · rintro ⟨number, htext, hnumber⟩
    rw [toList_text] at htext
    rw [← List.append_cancel_right htext, number?_figures] at hnumber
    exact (Option.some.inj hnumber).symm
  · rintro rfl
    exact ⟨t.figures, t.toList_text, t.number?_figures⟩

/-! ### Which numbers are right

Numbers are compared by the nanoseconds they come to. -/

theorem shownNanos_eq_iff (t : Time) : t.shownNanos = t.totalNanos ↔ ¬t.Misshown := by
  unfold shownNanos Misshown totalNanos
  split <;> omega

theorem shownNanos_of_misshown (h : t.Misshown) : t.shownNanos = t.totalNanos - 2 * t.nanos := by
  rw [shownNanos, if_pos h.1, totalNanos]
  omega

theorem shownNanos_injective (h : t.shownNanos = u.shownNanos) : t = u := by
  have ht := t.nanos_lt
  have hu := u.nanos_lt
  unfold shownNanos totalNanos nanosPerSec at *
  apply Time.ext
  · split at h <;> split at h <;> omega
  · split at h <;> split at h <;> omega

theorem shownNanos_lt (hlt : t < u) (hnot : ¬(t.secs < 0 ∧ t.secs = u.secs)) :
    t.shownNanos < u.shownNanos := by
  have ht := t.nanos_lt
  have hu := u.nanos_lt
  rw [lt_iff_totalNanos] at hlt
  unfold shownNanos totalNanos nanosPerSec at *
  split <;> split <;> omega

/-- Of two times in one second before the origin, the later one is shown as the earlier. -/
theorem shownNanos_gt (hlt : t < u) (hneg : t.secs < 0) (hsecs : t.secs = u.secs) :
    u.shownNanos < t.shownNanos := by
  rw [lt_iff_totalNanos] at hlt
  unfold totalNanos nanosPerSec at hlt
  rw [shownNanos, shownNanos, if_pos hneg, if_pos (hsecs ▸ hneg), nanosPerSec]
  omega

theorem text_injective : Function.Injective text := by
  intro t u h
  have hshows : t.Shows ((u.shownNanos : ℚ) / nanosPerSec) := by
    unfold Shows
    rw [h]
    exact shows_iff.mpr rfl
  rw [shows_iff, div_left_inj' (by norm_num [nanosPerSec])] at hshows
  exact (shownNanos_injective (Int.cast_injective hshows)).symm

end Time

/-- A time is shown as one number of seconds. The number is the time, to the nanosecond, just if the
time is not before the origin, or is so by whole seconds. Otherwise the nanoseconds are counted the
wrong way, and the number is too low by two times as many. Texts tell times apart all the same. Of
two times the later one has the greater number, unless both are in one second before the origin: it
then has the lower one. -/
theorem Time.shows_its_seconds_iff (t : Time) :
    ∃ q, t.Shows q ∧ (∀ r, t.Shows r → r = q) ∧
      (q = (t.totalNanos : ℚ) / nanosPerSec ↔ ¬t.Misshown) ∧
      (t.Misshown → q = ((t.totalNanos : ℚ) - 2 * t.nanos) / nanosPerSec) ∧
      ∀ u, (t.text = u.text ↔ t = u) ∧
        ∀ r, u.Shows r → t < u →
          if t.secs < 0 ∧ t.secs = u.secs then r < q else q < r := by
  have hpos : (0 : ℚ) < nanosPerSec := by norm_num [nanosPerSec]
  refine ⟨(t.shownNanos : ℚ) / nanosPerSec, shows_iff.mpr rfl, fun r => shows_iff.mp, ?_, ?_, ?_⟩
  · rw [div_left_inj' hpos.ne', Int.cast_inj, t.shownNanos_eq_iff]
  · intro h
    rw [shownNanos_of_misshown h]
    push_cast
    rfl
  · intro u
    refine ⟨text_injective.eq_iff, ?_⟩
    intro r hr hlt
    rw [shows_iff.mp hr, div_lt_div_iff_of_pos_right hpos, div_lt_div_iff_of_pos_right hpos,
      Int.cast_lt, Int.cast_lt]
    split
    · rename_i h
      exact shownNanos_gt hlt h.1 h.2
    · rename_i h
      exact shownNanos_lt hlt h

/-- Half a second before the origin is shown as a second and a half before it, further away than the
whole second that is the earlier time. -/
theorem Time.shows_half_a_second_as_more :
    ∃ half whole : Time, half = new (-1) 500000000 ∧ whole = new (-1) 0 ∧ half.Misshown ∧
      half.text = "-1.500000000s" ∧ half.Shows (-3 / 2) ∧
      (half.totalNanos : ℚ) / nanosPerSec = -1 / 2 ∧
      whole < half ∧ whole.Shows (-1) ∧ (-3 / 2 : ℚ) < -1 := by
  have hwrong : (Time.new (-1) 500000000).Misshown := by decide
  have hsooner : Time.new (-1) 0 < Time.new (-1) 500000000 := by decide
  have hhalf : (Time.new (-1) 500000000).totalNanos = -500000000 := by decide
  have hnanos : (Time.new (-1) 500000000).nanos = 500000000 := by decide
  have hwhole : (Time.new (-1) 0).totalNanos = -1000000000 := by decide
  obtain ⟨q, hq, -, -, hmore, -⟩ := shows_its_seconds_iff (.new (-1) 500000000)
  obtain ⟨r, hr, -, hexact, -, hothers⟩ := shows_its_seconds_iff (.new (-1) 0)
  have hturned := (hothers (.new (-1) 500000000)).2 q hq hsooner
  rw [if_pos (by decide)] at hturned
  have hqvalue : q = -3 / 2 := by
    rw [hmore hwrong, hhalf, hnanos]
    norm_num [nanosPerSec]
  have hrvalue : r = -1 := by
    rw [hexact.mpr (by decide), hwhole]
    norm_num [nanosPerSec]
  refine ⟨_, _, rfl, rfl, hwrong, by decide +kernel, hqvalue ▸ hq, ?_, hsooner, hrvalue ▸ hr, ?_⟩
  · rw [hhalf]
    norm_num [nanosPerSec]
  · rw [← hqvalue, ← hrvalue]
    exact hturned

end TimedCondvar
