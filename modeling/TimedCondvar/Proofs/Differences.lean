import TimedCondvar.Proofs.Words

/-!
The difference of two times in words. Its seconds are unsigned, so that it spans the whole range of
times. If the nanoseconds of the later time do not suffice, a second is borrowed from the seconds;
there is one, as the other time is earlier. No operation leaves its word, the difference is the
exact distance, and it undoes an addition.
-/

namespace TimedCondvar

namespace Words

open Word

/-- How far two signed numbers are apart, in an unsigned word. -/
def distance (a b : BitVec 64) : BitVec 64 := .ofNat 64 (a.toInt - b.toInt).natAbs

/-- The length of these seconds and nanoseconds. Whole seconds among the nanoseconds are carried. -/
def length (secs : BitVec 64) (nanos : BitVec 32) : Except Halt Words :=
  if nanos < .ofNat 32 nanosPerSec then .ok ⟨secs, nanos⟩
  else do
    let carried := (nanos / .ofNat 32 nanosPerSec).setWidth 64
    .ok ⟨← sum secs carried, nanos % .ofNat 32 nanosPerSec⟩

def since (w earlier : Words) : Except Halt Words :=
  if (w.compare earlier).isLE then .ok ⟨.ofNat 64 0, .ofNat 32 0⟩
  else if earlier.nanos ≤ w.nanos then do
    length (distance w.secs earlier.secs) (← difference w.nanos earlier.nanos)
  else do
    let secs ← difference (distance w.secs earlier.secs) (.ofNat 64 1)
    length secs (← difference (← sum w.nanos (.ofNat 32 nanosPerSec)) earlier.nanos)

variable {nanos : Nat}

theorem length_ofNat (secs : BitVec 64) (hn : nanos < nanosPerSec) :
    length secs (.ofNat 32 nanos) = .ok ⟨secs, .ofNat 32 nanos⟩ := by
  have hlt : BitVec.ofNat 32 nanos < .ofNat 32 nanosPerSec := by
    rw [BitVec.lt_def, fits_nanosPerSec, fits_of_lt hn]
    exact hn
  exact if_pos hlt

theorem distance_words (t u : Time) :
    distance t.words.secs u.words.secs = .ofNat 64 (t.secs - u.secs).natAbs := by
  rw [distance, t.toInt_secs_words, u.toInt_secs_words]

theorem isLE_compare_words (t u : Time) : (t.words.compare u.words).isLE ↔ t ≤ u := by
  rw [compare_words, Time.compare_eq_totalNanos, Int.isLE_compare, Time.le_iff_totalNanos]

theorem nanos_words_le_iff (t u : Time) : t.words.nanos ≤ u.words.nanos ↔ t.nanos ≤ u.nanos := by
  rw [BitVec.le_def, t.toNat_nanos_words, u.toNat_nanos_words]

/-- There is a second to borrow from, if a later time has fewer nanoseconds. -/
theorem one_le_natAbs_secs {t earlier : Time} (hlt : ¬t ≤ earlier)
    (hn : ¬earlier.nanos ≤ t.nanos) : 1 ≤ (t.secs - earlier.secs).natAbs := by
  rw [Time.le_iff_totalNanos] at hlt
  have hn' := earlier.nanos_lt
  unfold Time.totalNanos nanosPerSec at *
  omega

theorem since_words (t earlier : Time) :
    t.words.since earlier.words = .ok (t.durationSince earlier).words := by
  have hn := t.nanos_lt
  have hn' := earlier.nanos_lt
  have hsum : Fits 32 (t.nanos + nanosPerSec) := by
    rw [fits_nanos_iff]
    unfold nanosPerSec at *
    omega
  rw [since, Time.durationSince]
  by_cases hle : t ≤ earlier
  · rw [if_pos hle, if_pos ((isLE_compare_words t earlier).mpr hle)]
    rfl
  · rw [if_neg hle, if_neg (mt (isLE_compare_words t earlier).mp hle), distance_words]
    by_cases hnanos : earlier.nanos ≤ t.nanos
    · rw [dif_pos hnanos, if_pos ((nanos_words_le_iff earlier t).mpr hnanos)]
      have hdiff := difference_ofNat (hsum.of_le (Nat.le_add_right _ _)) hnanos
      rw [Time.words, Time.words, hdiff, ok_bind, length_ofNat _ (by omega)]
      rfl
    · -- the borrowed second is added to the nanoseconds before the others are taken away
      rw [dif_neg hnanos, if_neg (mt (nanos_words_le_iff earlier t).mp hnanos)]
      have hfits := fits_secs_iff.mpr (Time.natAbs_secs_sub_lt t earlier)
      have hborrow := difference_ofNat hfits (one_le_natAbs_secs hle hnanos)
      have hdiff := difference_ofNat hsum (y := earlier.nanos) (by omega)
      rw [hborrow, ok_bind, Time.words, Time.words, sum_ofNat hsum, ok_bind, hdiff, ok_bind,
        length_ofNat _ (by omega)]
      rfl

end Words

namespace Time

variable {t r : Time} {d : Duration}

theorem durationSince_of_checkedAdd (h : t.checkedAdd d = some r) : r.durationSince t = d := by
  have hsum : r.totalNanos = t.totalNanos + d.totalNanos := totalNanos_of_carry? h
  have hdistance := totalNanos_durationSince r t
  refine Duration.totalNanos_injective ?_
  omega

end Time

/-- The difference of any two times is computed in words without an overflow. Its nanoseconds are
below one second, and it is the exact distance from the other time, or nothing if that one is not
earlier. If an addition gives a time, the difference from the time before is what was added. -/
theorem Words.difference_exact (t earlier : Time) :
    t.words.since earlier.words = .ok (t.durationSince earlier).words ∧
    (t.durationSince earlier).words.nanos.toNat < nanosPerSec ∧
    ((t.durationSince earlier).totalNanos : Int) =
      max 0 (t.totalNanos - earlier.totalNanos) ∧
    ∀ d r, t.checkedAdd d = some r →
      r.durationSince t = d ∧ r.words.since t.words = .ok d.words := by
  refine ⟨since_words t earlier, ?_, t.totalNanos_durationSince earlier, ?_⟩
  · rw [Duration.toNat_nanos_words]
    exact (t.durationSince earlier).nanos_lt
  · intro d r hsum
    have hundo := Time.durationSince_of_checkedAdd hsum
    exact ⟨hundo, hundo ▸ since_words r t⟩

/-- The latest time is the longest length away from the earliest one. A sum across the origin has
fewer nanoseconds than the time it was added to, and its difference is what was added. -/
theorem Words.difference_exact_across_origin :
    Time.max.words.since Time.earliest.words = .ok Duration.max.words ∧
    ∃ r, (Time.new (-1) 900000000).checkedAdd (.ofMillis 200) = some r ∧
      r.durationSince (.new (-1) 900000000) = .ofMillis 200 ∧
      r.words.since (Time.new (-1) 900000000).words = .ok (Duration.ofMillis 200).words := by
  obtain ⟨hfar, -, -, -⟩ := difference_exact .max .earliest
  obtain ⟨-, -, -, hundo⟩ := difference_exact (.new (-1) 900000000) .zero
  have hlongest : Time.max.durationSince .earliest = .max := by
    decide
  have hadd : (Time.new (-1) 900000000).checkedAdd (.ofMillis 200) = some (.new 0 100000000) := by
    decide
  obtain ⟨hback, hwords⟩ := hundo _ _ hadd
  exact ⟨hlongest ▸ hfar, _, hadd, hback, hwords⟩

end TimedCondvar
