import TimedCondvar.Proofs.Distances

/-!
Where additions to a time stop. All of them carry into the seconds by the same rule, which gives
nothing if the sum is later than the latest time. It also gives nothing if the seconds to add are
out of range by themselves. For a time before the origin that is a rule of its own: the sum may well
be a time then. Whole milliseconds never come to that many seconds, so additions of milliseconds
stop at the latest time and nowhere else.
-/

namespace TimedCondvar

namespace Time

variable {t r : Time} {d : Duration} {addSecs addNanos ms : Nat}

/-- The nanoseconds of the time and the interval take up all the range after the origin, and the
time is before it. -/
def Overlong (t : Time) (nanos : Nat) : Prop :=
  t.secs < 0 ∧ max.totalNanos < t.nanos + nanos

theorem carry?_eq_none_iff : t.carry? addSecs addNanos = none ↔
    max.totalNanos < t.totalNanos + (addSecs * nanosPerSec + addNanos : Nat) ∨
      t.Overlong (addSecs * nanosPerSec + addNanos) := by
  have hn := t.nanos_lt
  rw [carry?, dite_eq_right_iff, Overlong, totalNanos_max]
  simp only [reduceCtorEq, imp_false, totalNanos, nanosPerSec] at *
  omega

theorem totalNanos_of_carry? (h : t.carry? addSecs addNanos = some r) :
    r.totalNanos = t.totalNanos + (addSecs * nanosPerSec + addNanos : Nat) := by
  rw [carry?] at h
  split at h
  · cases h
    simp only [totalNanos, nanosPerSec]
    omega
  · cases h

/-- A sum is cut at the latest time, unless the interval was out of range by itself. -/
theorem totalNanos_getD_carry?_of_not_overlong
    (h : ¬t.Overlong (addSecs * nanosPerSec + addNanos)) :
    ((t.carry? addSecs addNanos).getD max).totalNanos =
      min (t.totalNanos + (addSecs * nanosPerSec + addNanos : Nat)) max.totalNanos := by
  cases hc : t.carry? addSecs addNanos with
  | none =>
      have hlt := (carry?_eq_none_iff.mp hc).resolve_right h
      exact (Int.min_eq_right (Int.le_of_lt hlt)).symm
  | some r =>
      have heq := totalNanos_of_carry? hc
      have hle := r.totalNanos_le_max
      rw [Option.getD_some, heq, Int.min_eq_left (heq ▸ hle)]

/-- An interval of whole milliseconds, as its seconds and its nanoseconds. -/
theorem nanos_of_millis (ms : Nat) :
    ms / millisPerSec * nanosPerSec + ms % millisPerSec * nanosPerMilli = ms * nanosPerMilli := by
  simp only [millisPerSec, nanosPerSec, nanosPerMilli]
  omega

/-- Milliseconds in 64 bits are far from filling the range. -/
theorem not_overlong_millis (t : Time) (hms : ms < unsignedLimit) :
    ¬t.Overlong (ms * nanosPerMilli) := by
  have hn := t.nanos_lt
  rw [Overlong, totalNanos_max]
  simp only [nanosPerSec, nanosPerMilli, unsignedLimit, signedLimit] at *
  omega

theorem checkedAdd_eq_none_iff (t : Time) (d : Duration) : t.checkedAdd d = none ↔
    max.totalNanos < t.totalNanos + d.totalNanos ∨ t.Overlong d.totalNanos :=
  carry?_eq_none_iff

theorem checkedAddMillis_eq_none_iff (t : Time) (hms : ms < unsignedLimit) :
    t.checkedAddMillis ms = none ↔
      max.totalNanos < t.totalNanos + (ms * nanosPerMilli : Nat) := by
  rw [checkedAddMillis, carry?_eq_none_iff, nanos_of_millis]
  exact or_iff_left (t.not_overlong_millis hms)

theorem saturatingAdd_of_overlong (h : t.Overlong d.totalNanos) : t.saturatingAdd d = max := by
  rw [saturatingAdd, (checkedAdd_eq_none_iff t d).mpr (.inr h), Option.getD_none]

theorem totalNanos_saturatingAdd_eq_min (h : ¬t.Overlong d.totalNanos) :
    (t.saturatingAdd d).totalNanos = min (t.totalNanos + d.totalNanos) max.totalNanos :=
  totalNanos_getD_carry?_of_not_overlong h

theorem totalNanos_saturatingAddMillis (t : Time) (hms : ms < unsignedLimit) :
    (t.saturatingAddMillis ms).totalNanos =
      min (t.totalNanos + (ms * nanosPerMilli : Nat)) max.totalNanos := by
  have hnot := t.not_overlong_millis hms
  rw [← nanos_of_millis] at hnot ⊢
  exact totalNanos_getD_carry?_of_not_overlong hnot

/-- Whole milliseconds counted from a reading, none of them included. -/
theorem deadlineAfterMillis_of_now {clock : Clock} {reply : Reply} {now : Time}
    (h : clock.now reply = .ok now) (hms : ms < unsignedLimit) :
    ∃ deadline, clock.deadlineAfterMillis reply ms = .ok deadline ∧
      deadline.totalNanos = min (now.totalNanos + (ms * nanosPerMilli : Nat)) max.totalNanos := by
  rw [Clock.deadlineAfterMillis, h]
  refine ⟨_, rfl, ?_⟩
  split
  · rename_i hzero
    have hle := now.totalNanos_le_max
    rw [hzero, Nat.zero_mul, Int.natCast_zero, Int.add_zero, Int.min_eq_left hle]
  · exact now.totalNanos_saturatingAddMillis hms

/-- An addition gives nothing if the sum is later than the latest time, and for one other reason:
the time is before the origin, and the interval does not fit after it. The saturating addition is
the latest time then, and else the sum, cut at the latest time. So it is for every deadline that is
counted from a reading. Additions of milliseconds in 64 bits stop at the latest time only. -/
theorem addition_stops (t : Time) (d : Duration) {ms : Nat} (hms : ms < unsignedLimit) :
    (t.checkedAdd d = none ↔
      max.totalNanos < t.totalNanos + d.totalNanos ∨ t.Overlong d.totalNanos) ∧
    (t.Overlong d.totalNanos → t.saturatingAdd d = max) ∧
    (¬t.Overlong d.totalNanos →
      (t.saturatingAdd d).totalNanos = min (t.totalNanos + d.totalNanos) max.totalNanos) ∧
    (t.checkedAddMillis ms = none ↔
      max.totalNanos < t.totalNanos + (ms * nanosPerMilli : Nat)) ∧
    (t.saturatingAddMillis ms).totalNanos =
      min (t.totalNanos + (ms * nanosPerMilli : Nat)) max.totalNanos ∧
    ∀ (clock : Clock) (reply : Reply), clock.now reply = .ok t →
      clock.deadlineAfter reply d = .ok (t.saturatingAdd d) ∧
      ∃ deadline, clock.deadlineAfterMillis reply ms = .ok deadline ∧
        deadline.totalNanos =
          min (t.totalNanos + (ms * nanosPerMilli : Nat)) max.totalNanos := by
  refine ⟨t.checkedAdd_eq_none_iff d, saturatingAdd_of_overlong, totalNanos_saturatingAdd_eq_min,
    t.checkedAddMillis_eq_none_iff hms, t.totalNanos_saturatingAddMillis hms, ?_⟩
  intro clock reply hnow
  refine ⟨?_, deadlineAfterMillis_of_now hnow hms⟩
  rw [Clock.deadlineAfter, hnow]
  rfl

/-- The length of half the range. -/
def halfRange : Duration := ⟨signedLimit, 0, by decide, nanosPerSec_pos⟩

/-- Half the range after the earliest time is the origin, and that addition gives nothing. The
deadline is the latest time. One millisecond after it is exact. -/
theorem addition_stops_at_origin : 1 < unsignedLimit ∧
    earliest.totalNanos + halfRange.totalNanos = zero.totalNanos ∧
    earliest.checkedAdd halfRange = none ∧
    Clock.boottime.deadlineAfter (.time (-signedLimit) 0) halfRange = .ok max ∧
    (earliest.saturatingAddMillis 1).totalNanos = earliest.totalNanos + nanosPerMilli := by
  have hms : 1 < unsignedLimit := by decide
  have hover : earliest.Overlong halfRange.totalNanos := ⟨by decide, by decide⟩
  have hnow : Clock.boottime.now (.time (-signedLimit) 0) = .ok earliest := rfl
  obtain ⟨hnone, hmax, -, -, hmillis, hdeadlines⟩ := addition_stops earliest halfRange hms
  obtain ⟨hdeadline, -⟩ := hdeadlines .boottime _ hnow
  refine ⟨hms, by decide, hnone.mpr (.inr hover), hmax hover ▸ hdeadline, ?_⟩
  rw [hmillis]
  decide

end Time

end TimedCondvar
