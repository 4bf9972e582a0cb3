import TimedCondvar.Clock.Uptime
import TimedCondvar.Proofs.Distances

/-!
Microseconds of uptime, and the timers that count them. From the origin on they are the whole
microseconds that have passed, cut at the limit of 64 bits, and never go down. Of a time before the
origin only the seconds count as none; the microseconds of the second it is in count all the same.
`Time.Miscounted` tells those times, where the count is wrong and from where it goes down. A timer
that starts at the origin or later is off by less than a microsecond, and one that has run out stays
so.
-/

namespace TimedCondvar

namespace Time

variable {t u : Time}

/-- The whole microseconds from the origin to the time, none if it is before the origin, cut at the
limit of 64 bits. -/
def wholeMicros (t : Time) : Int :=
  Min.min (unsignedLimit - 1) (Max.max 0 (Int.fdiv t.totalNanos nanosPerMicro))

/-- The time is before the origin, and a microsecond or more into one of its seconds. -/
def Miscounted (t : Time) : Prop := t.secs < 0 ∧ nanosPerMicro ≤ t.nanos

instance (t : Time) : Decidable t.Miscounted :=
  inferInstanceAs (Decidable (t.secs < 0 ∧ nanosPerMicro ≤ t.nanos))

theorem wholeMicros_eq (t : Time) : t.wholeMicros =
    Min.min ((unsignedLimit : Int) - 1) (Max.max 0 (t.totalNanos / nanosPerMicro)) := by
  rw [wholeMicros, Int.fdiv_eq_ediv_of_nonneg _ (Int.natCast_nonneg _)]

theorem wholeMicros_mono (h : t ≤ u) : t.wholeMicros ≤ u.wholeMicros := by
  rw [le_iff_totalNanos] at h
  rw [wholeMicros_eq, wholeMicros_eq, nanosPerMicro]
  omega

theorem totalNanos_neg_of_secs (h : t.secs < 0) : t.totalNanos < 0 := by
  have hn := t.nanos_lt
  unfold totalNanos nanosPerSec at *
  omega

theorem wholeMicros_of_secs_neg (h : t.secs < 0) : t.wholeMicros = 0 := by
  have hneg := totalNanos_neg_of_secs h
  rw [wholeMicros_eq, nanosPerMicro, unsignedLimit]
  omega

theorem asMicros_of_secs_neg (h : t.secs < 0) : t.asMicros = t.nanos / nanosPerMicro := by
  have hn := t.nanos_lt
  have hnone : t.secs.toNat = 0 := Int.toNat_of_nonpos (Int.le_of_lt h)
  rw [asMicros, hnone]
  unfold nanosPerMicro nanosPerSec unsignedLimit at *
  omega

/-- From the origin on, to cut the seconds, their product and the sum one after the other is to cut
the whole. -/
theorem asMicros_of_secs_nonneg (h : 0 ≤ t.secs) : (t.asMicros : Int) = t.wholeMicros := by
  have hn := t.nanos_lt
  rw [wholeMicros_eq, asMicros]
  unfold totalNanos nanosPerMicro nanosPerSec microsPerSec unsignedLimit at *
  omega

theorem asMicros_eq_wholeMicros_iff (t : Time) :
    (t.asMicros : Int) = t.wholeMicros ↔ ¬t.Miscounted := by
  by_cases hneg : t.secs < 0
  · rw [wholeMicros_of_secs_neg hneg, asMicros_of_secs_neg hneg, Miscounted, nanosPerMicro]
    omega
  · refine iff_of_true (asMicros_of_secs_nonneg (Int.not_lt.mp hneg)) (fun h => hneg h.1)

/-- A wrong count is too high. -/
theorem wholeMicros_le_asMicros (t : Time) : t.wholeMicros ≤ t.asMicros := by
  by_cases hneg : t.secs < 0
  · rw [wholeMicros_of_secs_neg hneg]
    exact Int.natCast_nonneg _
  · exact Int.le_of_eq (asMicros_of_secs_nonneg (Int.not_lt.mp hneg)).symm

theorem asMicros_pos_of_miscounted (h : t.Miscounted) : 0 < t.asMicros := by
  rw [asMicros_of_secs_neg h.1]
  exact Nat.div_pos h.2 (by decide)

/-- From a time that is counted right, the count never goes down. -/
theorem asMicros_mono (hright : ¬t.Miscounted) (h : t ≤ u) : t.asMicros ≤ u.asMicros := by
  have hle := wholeMicros_mono h
  have hu := u.wholeMicros_le_asMicros
  rw [← (asMicros_eq_wholeMicros_iff t).mpr hright] at hle
  omega

theorem asMicros_zero : zero.asMicros = 0 := by
  decide

/-- From a time that is counted wrong, the count goes down: it is none at the origin. -/
theorem asMicros_zero_lt (h : t.Miscounted) : t ≤ zero ∧ zero.asMicros < t.asMicros := by
  refine ⟨.inl h.1, ?_⟩
  rw [asMicros_zero]
  exact asMicros_pos_of_miscounted h

theorem exists_asMicros_lt_iff (t : Time) :
    (∃ later, t ≤ later ∧ later.asMicros < t.asMicros) ↔ t.Miscounted := by
  constructor
  · rintro ⟨later, hle, hlt⟩
    refine Decidable.byContradiction fun hright => ?_
    exact Nat.not_lt.mpr (asMicros_mono hright hle) hlt
  · intro h
    exact ⟨zero, asMicros_zero_lt h⟩

theorem new_self (t : Time) : new t.secs t.nanos = t := by
  have hcarried : t.nanos / nanosPerSec = 0 := Nat.div_eq_of_lt t.nanos_lt
  have hsecs : t.secs + (t.nanos / nanosPerSec : Nat) = t.secs := by
    rw [hcarried, Int.natCast_zero, Int.add_zero]
  rw [new, dif_pos (by rw [hsecs]; exact ⟨t.le_secs, t.secs_lt⟩)]
  exact Time.ext hsecs (Nat.mod_eq_of_lt t.nanos_lt)

end Time

/-- Every time is a reading of every clock. -/
theorem Clock.now_time (clock : Clock) (t : Time) : clock.now (.time t.secs t.nanos) = .ok t := by
  have hn := t.nanos_lt
  rw [now, if_pos (by omega), Int.toNat_natCast, t.new_self]

namespace Uptime

variable {reply : Reply} {t : Time}

theorem micros_of_now (h : Clock.uptimeSource.now reply = .ok t) :
    micros reply = .ok t.asMicros := by
  rw [micros, h]
  rfl

end Uptime

/-- The microseconds of a time are the whole microseconds after the origin, cut at the limit of 64
bits and none before the origin, unless the time is before the origin by more than whole seconds: it
then counts the microseconds of the second it is in. From those times, and from no others, the count
goes down to some later time, and so does the uptime between two readings. -/
theorem Uptime.counts_whole_micros_iff (t : Time) :
    ((t.asMicros : Int) = t.wholeMicros ↔ ¬t.Miscounted) ∧
    (t.Miscounted → t.totalNanos < 0 ∧ t.asMicros = t.nanos / nanosPerMicro ∧ 0 < t.asMicros) ∧
    ((∃ later, t ≤ later ∧ later.asMicros < t.asMicros) ↔ t.Miscounted) ∧
    ∀ reply, Clock.uptimeSource.now reply = .ok t → micros reply = .ok t.asMicros ∧
      ((∃ reply' later now, Clock.uptimeSource.now reply' = .ok later ∧ t ≤ later ∧
        micros reply' = .ok now ∧ now < t.asMicros) ↔ t.Miscounted) := by
  refine ⟨t.asMicros_eq_wholeMicros_iff, ?_, t.exists_asMicros_lt_iff, ?_⟩
  · intro h
    exact ⟨Time.totalNanos_neg_of_secs h.1, Time.asMicros_of_secs_neg h.1,
      Time.asMicros_pos_of_miscounted h⟩
  · intro reply hnow
    refine ⟨micros_of_now hnow, ?_⟩
    rw [← t.exists_asMicros_lt_iff]
    constructor
    · rintro ⟨reply', later, now, hlater, hle, hmicros, hlt⟩
      cases hmicros.symm.trans (micros_of_now hlater)
      exact ⟨later, hle, hlt⟩
    · rintro ⟨later, hle, hlt⟩
      have hlater := Clock.uptimeSource.now_time later
      exact ⟨_, later, _, hlater, hle, micros_of_now hlater, hlt⟩

/-- Half a second before the origin counts half a million microseconds, and the origin none. -/
theorem Uptime.miscounts_before_origin :
    ∃ t, Clock.uptimeSource.now (.time (-1) 500000000) = .ok t ∧ t.Miscounted ∧
      t.totalNanos = -500000000 ∧ t.wholeMicros = 0 ∧
      micros (.time (-1) 500000000) = .ok 500000 ∧ micros (.time 0 0) = .ok 0 ∧
      (t.asMicros : Int) ≠ t.wholeMicros ∧
      ∃ later, t ≤ later ∧ later.asMicros < t.asMicros := by
  have hwrong : (Time.new (-1) 500000000).Miscounted := by
    decide
  obtain ⟨hcount, hcounted, hfalls, huptime⟩ := counts_whole_micros_iff (.new (-1) 500000000)
  obtain ⟨-, hhalf, -⟩ := hcounted hwrong
  obtain ⟨hmicros, -⟩ := huptime (.time (-1) 500000000) rfl
  rw [hhalf] at hmicros
  have hzero : micros (.time 0 0) = .ok Time.zero.asMicros := micros_of_now rfl
  rw [Time.asMicros_zero] at hzero
  exact ⟨_, rfl, hwrong, by decide, by decide, hmicros, hzero, fun h => hcount.mp h hwrong,
    hfalls.mpr hwrong⟩

/-! ### Timers

A timer starts with the uptime at one reading and is asked at a later one whether its interval has
passed. -/

namespace Time

variable {t u : Time}

/-- In the range of the count, a time from the origin on loses what is left of its last
microsecond. -/
theorem asMicros_bounds (hpos : 0 ≤ t.totalNanos)
    (hlimit : t.totalNanos < unsignedLimit * nanosPerMicro) :
    (t.asMicros : Int) * nanosPerMicro ≤ t.totalNanos ∧
      t.totalNanos < (t.asMicros : Int) * nanosPerMicro + nanosPerMicro := by
  rw [asMicros_of_secs_nonneg (nonneg_secs hpos), wholeMicros_eq]
  unfold nanosPerMicro unsignedLimit at *
  omega

/-- The microseconds that are counted between two readings are off by less than one. -/
theorem asMicros_sub_bounds (hpos : 0 ≤ t.totalNanos) (hle : t ≤ u)
    (hlimit : u.totalNanos < unsignedLimit * nanosPerMicro) :
    (((u.asMicros - t.asMicros) * nanosPerMicro : Nat) : Int) - nanosPerMicro <
        u.totalNanos - t.totalNanos ∧
      u.totalNanos - t.totalNanos <
        ((u.asMicros - t.asMicros) * nanosPerMicro : Nat) + nanosPerMicro := by
  rw [le_iff_totalNanos] at hle
  have ht := asMicros_bounds hpos (Int.lt_of_le_of_lt hle hlimit)
  have hu := asMicros_bounds (Int.le_trans hpos hle) hlimit
  unfold nanosPerMicro at *
  omega

theorem not_miscounted_of_nonneg (h : 0 ≤ t.totalNanos) : ¬t.Miscounted :=
  fun hwrong => Int.not_lt.mpr h (totalNanos_neg_of_secs hwrong.1)

theorem asMicros_lt (t : Time) : t.asMicros < unsignedLimit := by
  rw [asMicros, unsignedLimit]
  omega

end Time

theorem Duration.totalNanos_ofMicros {n : Nat} (h : n < unsignedLimit) :
    (ofMicros n).totalNanos = n * nanosPerMicro := by
  refine totalNanos_ofNanos ?_
  unfold nanosPerMicro nanosPerSec
  omega

namespace Uptime

variable {reply reply₀ reply₁ reply₂ : Reply} {t t₀ t₁ t₂ : Time}

theorem isExpired_of_now (h : Clock.uptimeSource.now reply = .ok t) (before : Nat) (d : Duration) :
    isExpired reply before d =
      .ok (decide (d.totalNanos ≤ (t.asMicros - before) * nanosPerMicro)) := by
  have hlt : t.asMicros - before < unsignedLimit :=
    Nat.lt_of_le_of_lt (Nat.sub_le _ _) t.asMicros_lt
  rw [isExpired, micros_of_now h, ← Duration.totalNanos_ofMicros hlt]
  rfl

/-- A timer that has run out stays so at every later uptime, and at an interval that is shorter. -/
theorem isExpired_mono {before : Nat} {d shorter : Duration}
    (h₁ : Clock.uptimeSource.now reply₁ = .ok t₁) (h₂ : Clock.uptimeSource.now reply₂ = .ok t₂)
    (hmicros : t₁.asMicros ≤ t₂.asMicros) (hd : shorter ≤ d)
    (h : isExpired reply₁ before d = .ok true) : isExpired reply₂ before shorter = .ok true := by
  rw [isExpired_of_now h₁, Except.ok.injEq, decide_eq_true_iff] at h
  have hlonger : (t₁.asMicros - before) * nanosPerMicro ≤
      (t₂.asMicros - before) * nanosPerMicro :=
    Nat.mul_le_mul_right _ (Nat.sub_le_sub_right hmicros before)
  rw [isExpired_of_now h₂, Except.ok.injEq, decide_eq_true_iff]
  exact Nat.le_trans hd (Nat.le_trans h hlonger)

/-- A start in the future counts as this moment. -/
theorem isExpired_of_lt {later : Nat} (h : Clock.uptimeSource.now reply = .ok t)
    (hlt : t.asMicros < later) (d : Duration) :
    isExpired reply later d = .ok (decide (d = .zero)) := by
  rw [isExpired_of_now h, Nat.sub_eq_zero_of_le (Nat.le_of_lt hlt), Nat.zero_mul]
  congr 1
  refine decide_eq_decide.mpr ⟨fun hd => ?_, fun hd => ?_⟩
  · exact Duration.totalNanos_injective (Nat.le_zero.mp hd)
  · rw [hd]
    exact Nat.le_refl _

end Uptime

/-- Three readings of the clock of uptime, from the origin on and in the range of the count, and a
timer that starts at the first. Whether its interval has passed at the second is told with an error
of less than a microsecond either way. Once it has passed, it has passed at the third, and every
shorter one has. A timer that starts later than the reading has run out just if its interval is
nothing. -/
theorem Uptime.expires_to_the_microsecond {reply₀ reply₁ reply₂ : Reply} {t₀ t₁ t₂ : Time}
    (h₀ : Clock.uptimeSource.now reply₀ = .ok t₀) (h₁ : Clock.uptimeSource.now reply₁ = .ok t₁)
    (h₂ : Clock.uptimeSource.now reply₂ = .ok t₂) (hpos : 0 ≤ t₀.totalNanos) (h₀₁ : t₀ ≤ t₁)
    (h₁₂ : t₁ ≤ t₂) (hlimit : t₂.totalNanos < unsignedLimit * nanosPerMicro) (d : Duration) :
    ∃ before now, micros reply₀ = .ok before ∧ micros reply₁ = .ok now ∧
      (∃ expired, isExpired reply₁ before d = .ok expired ∧
        (expired = true →
          (d.totalNanos : Int) - nanosPerMicro < t₁.totalNanos - t₀.totalNanos ∧
          isExpired reply₂ before d = .ok true ∧
          ∀ shorter ≤ d, isExpired reply₁ before shorter = .ok true) ∧
        (expired = false →
          t₁.totalNanos - t₀.totalNanos < (d.totalNanos : Int) + nanosPerMicro)) ∧
      ∀ later, now < later → isExpired reply₁ later d = .ok (decide (d = .zero)) := by
  have h₁pos : 0 ≤ t₁.totalNanos := Int.le_trans hpos (Time.le_iff_totalNanos.mp h₀₁)
  have h₁limit := Int.lt_of_le_of_lt (Time.le_iff_totalNanos.mp h₁₂) hlimit
  obtain ⟨hover, hunder⟩ := Time.asMicros_sub_bounds hpos h₀₁ h₁limit
  have hexpired := isExpired_of_now h₁ t₀.asMicros d
  refine ⟨_, _, micros_of_now h₀, micros_of_now h₁, ⟨_, hexpired, ?_, ?_⟩, ?_⟩
  · intro h
    rw [h] at hexpired
    rw [decide_eq_true_iff] at h
    -- the second reading is not before the origin, so that the count cannot go down from it
    have hmono := Time.asMicros_mono (Time.not_miscounted_of_nonneg h₁pos) h₁₂
    refine ⟨by omega, isExpired_mono h₁ h₂ hmono (Nat.le_refl _) hexpired, ?_⟩
    intro shorter hshorter
    exact isExpired_mono h₁ h₁ (Nat.le_refl _) hshorter hexpired
  · intro h
    rw [decide_eq_false_iff_not] at h
    omega
  · intro later hlt
    exact isExpired_of_lt h₁ hlt d

/-- One nanosecond is enough for a timer of one microsecond to run out, if it is the one in which the
count goes up. A timer that starts a microsecond later has not run out. -/
theorem Uptime.expires_to_the_microsecond_in_one_nanosecond :
    ∃ before, micros (.time 0 999) = .ok before ∧
      isExpired (.time 0 1000) before (.ofMicros 1) = .ok true ∧
      isExpired (.time 0 1500) before (.ofMicros 1) = .ok true ∧
      ((Duration.ofMicros 1).totalNanos : Int) - nanosPerMicro <
        (Time.new 0 1000).totalNanos - (Time.new 0 999).totalNanos ∧
      (Time.new 0 1000).totalNanos - (Time.new 0 999).totalNanos = 1 ∧
      isExpired (.time 0 1000) 2 (.ofMicros 1) = .ok false := by
  have h₀ : Clock.uptimeSource.now (.time 0 999) = .ok (.new 0 999) := rfl
  have h₁ : Clock.uptimeSource.now (.time 0 1000) = .ok (.new 0 1000) := rfl
  have h₂ : Clock.uptimeSource.now (.time 0 1500) = .ok (.new 0 1500) := rfl
  have hstart : micros (.time 0 999) = .ok 0 :=
    (micros_of_now h₀).trans (congrArg Except.ok (by decide))
  have hasked : micros (.time 0 1000) = .ok 1 :=
    (micros_of_now h₁).trans (congrArg Except.ok (by decide))
  have htold : isExpired (.time 0 1000) 0 (.ofMicros 1) = .ok true :=
    (isExpired_of_now h₁ 0 _).trans (congrArg Except.ok (by decide))
  obtain ⟨before, now, hbefore, hnow, ⟨expired, hexpired, htrue, -⟩, hlater⟩ :=
    expires_to_the_microsecond h₀ h₁ h₂ (by decide) (by decide) (by decide) (by decide)
      (.ofMicros 1)
  cases hbefore.symm.trans hstart
  cases hnow.symm.trans hasked
  cases hexpired.symm.trans htold
  obtain ⟨hbound, hstays, -⟩ := htrue rfl
  exact ⟨0, hstart, htold, hstays, hbound, by decide, hlater 2 (by decide)⟩

end TimedCondvar
