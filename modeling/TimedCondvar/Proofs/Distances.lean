import TimedCondvar.Wait.Timed

/-!
Lengths between points in time, and the parks a wait cuts them into. A length is the exact distance
to a later time, and adding one to a time that is not before the origin is exact as long as the sum
is a time. So a park that starts at a reading and is not cut ends at the deadline, if the clock goes
along with the park clock.
-/

namespace TimedCondvar

namespace Time

theorem totalNanos_injective {a b : Time} (h : a.totalNanos = b.totalNanos) : a = b := by
  have ha := a.nanos_lt
  have hb := b.nanos_lt
  simp only [totalNanos, nanosPerSec] at h ha hb
  apply Time.ext
  · omega
  · omega

theorem totalNanos_durationSince (t earlier : Time) : ((t.durationSince earlier).totalNanos : Int) =
    Max.max 0 (t.totalNanos - earlier.totalNanos) := by
  have hn := t.nanos_lt
  have hn' := earlier.nanos_lt
  rw [durationSince]
  split
  · rename_i hle
    rw [le_iff_totalNanos] at hle
    simp only [Duration.totalNanos, Duration.zero]
    omega
  · rename_i hlt
    rw [le_iff_totalNanos] at hlt
    split
    · simp only [totalNanos, Duration.totalNanos, nanosPerSec] at *
      omega
    · -- a second is borrowed
      simp only [totalNanos, Duration.totalNanos, nanosPerSec] at *
      omega

theorem durationSince_pos {t earlier : Time} (h : earlier < t) :
    0 < (t.durationSince earlier).totalNanos := by
  have hdistance := totalNanos_durationSince t earlier
  rw [lt_iff_totalNanos] at h
  omega

theorem nonneg_secs {t : Time} (h : 0 ≤ t.totalNanos) : 0 ≤ t.secs := by
  have hn := t.nanos_lt
  simp only [totalNanos, nanosPerSec] at *
  omega

theorem totalNanos_max : max.totalNanos = signedLimit * nanosPerSec - 1 := by
  decide

theorem totalNanos_le_max (t : Time) : t.totalNanos ≤ max.totalNanos := by
  have hs := t.secs_lt
  have hn := t.nanos_lt
  rw [totalNanos_max]
  simp only [totalNanos, nanosPerSec] at *
  omega

/-- A sum is exact if neither it nor the seconds that are added are out of range. -/
theorem totalNanos_saturatingAdd_of_lt {t : Time} {d : Duration}
    (hadd : d.secs + (t.nanos + d.nanos) / nanosPerSec < signedLimit)
    (hsum : t.totalNanos + d.totalNanos ≤ max.totalNanos) :
    (t.saturatingAdd d).totalNanos = t.totalNanos + d.totalNanos := by
  rw [totalNanos_max] at hsum
  have hrange : t.secs + (d.secs + (t.nanos + d.nanos) / nanosPerSec : Nat) < signedLimit := by
    simp only [totalNanos, Duration.totalNanos, nanosPerSec] at *
    omega
  rw [saturatingAdd, checkedAdd, carry?, dif_pos ⟨hadd, hrange⟩, Option.getD_some]
  simp only [totalNanos, Duration.totalNanos, nanosPerSec]
  omega

theorem totalNanos_saturatingAdd {t : Time} {d : Duration} (hpos : 0 ≤ t.totalNanos)
    (hsum : t.totalNanos + d.totalNanos ≤ max.totalNanos) :
    (t.saturatingAdd d).totalNanos = t.totalNanos + d.totalNanos := by
  have hs := nonneg_secs hpos
  refine totalNanos_saturatingAdd_of_lt ?_ hsum
  rw [totalNanos_max] at hsum
  simp only [totalNanos, Duration.totalNanos, nanosPerSec] at *
  omega

theorem totalNanos_new {secs : Int} {nanos : Nat} (hn : nanos < nanosPerSec)
    (hle : -signedLimit ≤ secs) (hlt : secs < signedLimit) :
    (new secs nanos).totalNanos = secs * nanosPerSec + nanos := by
  have hcarry : nanos / nanosPerSec = 0 := Nat.div_eq_of_lt hn
  rw [new, dif_pos (by rw [hcarry]; omega)]
  simp [totalNanos, hcarry, Nat.mod_eq_of_lt hn]

end Time

/-- A reply that counts nanoseconds from the origin is read as it is. -/
theorem Clock.now_of_nanos (clock : Clock) {reading : Int}
    (hle : Time.earliest.totalNanos ≤ reading) (hlt : reading ≤ Time.max.totalNanos) :
    ∃ now, clock.now (.time (Int.fdiv reading nanosPerSec) (Int.fmod reading nanosPerSec)) =
      .ok now ∧ now.totalNanos = reading := by
  have hpos : (0 : Int) ≤ nanosPerSec := Int.natCast_nonneg _
  rw [Int.fdiv_eq_ediv_of_nonneg _ hpos, Int.fmod_eq_emod_of_nonneg _ hpos]
  have hlow : Time.earliest.totalNanos = -signedLimit * nanosPerSec := by decide
  rw [hlow] at hle
  rw [Time.totalNanos_max] at hlt
  simp only [nanosPerSec] at *
  refine ⟨Time.new (reading / 1000000000) (reading % 1000000000).toNat, ?_, ?_⟩
  · rw [now, if_pos (by simp only [nanosPerSec]; omega)]
    rfl
  · rw [Time.totalNanos_new (by simp only [nanosPerSec]; omega) (by omega) (by omega)]
    simp only [nanosPerSec]
    omega

theorem totalNanos_parkSlice : parkSlice.totalNanos = 250000000 := by
  decide

namespace Clock

variable {c : Clock} {remaining : Duration}

/-- A park lasts no longer than what remains, and a cut one lasts a slice. -/
theorem park_eq (c : Clock) (remaining : Duration) :
    c.park remaining = ⟨remaining, false⟩ ∧ (c ≠ .monotonic → remaining ≤ parkSlice) ∨
      c ≠ .monotonic ∧ parkSlice < remaining ∧ c.park remaining = ⟨parkSlice, true⟩ := by
  have cut (hc : c ≠ .monotonic) (hpark : c.park remaining =
      if parkSlice < remaining then ⟨parkSlice, true⟩ else ⟨remaining, false⟩) :
      c.park remaining = ⟨remaining, false⟩ ∧ (c ≠ .monotonic → remaining ≤ parkSlice) ∨
        c ≠ .monotonic ∧ parkSlice < remaining ∧ c.park remaining = ⟨parkSlice, true⟩ := by
    rw [hpark]
    split
    · rename_i hlt
      exact .inr ⟨hc, hlt, rfl⟩
    · rename_i hle
      exact .inl ⟨rfl, fun _ => Nat.le_of_not_lt hle⟩
  cases c with
  | monotonic => exact .inl ⟨rfl, fun hc => absurd rfl hc⟩
  | monotonicRaw => exact cut nofun rfl
  | boottime => exact cut nofun rfl

theorem park_length_le (hc : c ≠ .monotonic) : (c.park remaining).length ≤ parkSlice := by
  rcases c.park_eq remaining with ⟨hpark, hle⟩ | ⟨-, -, hpark⟩
  · rw [hpark]
    exact hle hc
  · rw [hpark]
    exact Nat.le_refl _

theorem park_length_pos (h : 0 < remaining.totalNanos) :
    0 < (c.park remaining).length.totalNanos := by
  rcases c.park_eq remaining with ⟨hpark, -⟩ | ⟨-, -, hpark⟩
  · rw [hpark]
    exact h
  · rw [hpark]
    decide

/-- A park is for all that remains if it is not cut, and never for more. -/
theorem park_length (c : Clock) (remaining : Duration) :
    (c.park remaining).length.totalNanos ≤ remaining.totalNanos ∧
      ((c.park remaining).capped = false → (c.park remaining).length = remaining) := by
  rcases c.park_eq remaining with ⟨hpark, -⟩ | ⟨-, hlt, hpark⟩
  · rw [hpark]
    exact ⟨Nat.le_refl _, fun _ => rfl⟩
  · rw [hpark]
    exact ⟨Nat.le_of_lt hlt, nofun⟩

/-- How often a wait on this clock parks for what remains, if each park is for all of it or for a
slice. -/
def parks (c : Clock) (remaining : Nat) : Nat :=
  if remaining = 0 then 0
  else if c = .monotonic then 1
  else (remaining + (parkSlice.totalNanos - 1)) / parkSlice.totalNanos

@[simp] theorem parks_zero (c : Clock) : c.parks 0 = 0 := rfl

/-- One park leaves one park less to be made. -/
theorem parks_eq_add_one (h : 0 < remaining.totalNanos) : c.parks remaining.totalNanos =
    c.parks (remaining.totalNanos - (c.park remaining).length.totalNanos) + 1 := by
  rcases c.park_eq remaining with ⟨hpark, hle⟩ | ⟨hc, hlt, hpark⟩
  · rw [hpark, Nat.sub_self, parks_zero, parks, if_neg (Nat.ne_of_gt h)]
    split
    · rfl
    · rename_i hc
      have hslice : remaining.totalNanos ≤ parkSlice.totalNanos := hle hc
      rw [totalNanos_parkSlice] at *
      omega
  · have hslice : parkSlice.totalNanos < remaining.totalNanos := hlt
    have hleft : remaining.totalNanos - parkSlice.totalNanos ≠ 0 := by omega
    simp only [hpark, parks, if_neg (Nat.ne_of_gt h), if_neg hleft, if_neg hc]
    rw [totalNanos_parkSlice] at *
    omega

end Clock

namespace Timer

/-- The timer is that of a wait for `deadline` on `clock`. -/
def IsFor (timer : Timer) (clock : Clock) (deadline : Time) : Prop :=
  timer.clock = clock ∧ timer.deadline = deadline

/-- A pass that parks does so for what remains, as far as its clock lets it. -/
theorem exists_park_of_pass {timer : Timer} {reading : Except ClockError Time} {p : Park}
    (h : timer.pass reading = .park p) : ∃ now, reading = .ok now ∧ ¬timer.deadline ≤ now ∧
      p = timer.clock.park (timer.deadline.durationSince now) := by
  cases reading with
  | error e => cases h
  | ok now =>
      rw [pass] at h
      split at h
      · cases h
      · rename_i hlt
        split at h
        · cases h
        · cases h
          exact ⟨now, rfl, hlt, rfl⟩

end Timer

end TimedCondvar
