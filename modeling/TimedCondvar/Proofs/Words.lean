import TimedCondvar.Proofs.Additions

/-!
Times as they are held, in a signed word of 64 bits for the seconds and a word of 32 bits for the
nanoseconds, and the additions carried out on these words. Arithmetic on nanoseconds is unchecked;
sums of seconds are checked, and refused if they leave their word. `Words.build` builds a time and
adds to it any number of times. No unchecked operation on the way ever leaves its word, and the
result is the words of the time that the exact additions give, or a refusal where they give nothing.
-/

namespace TimedCondvar

/-- Why a computation on words stops: a checked sum leaves its word, an unchecked operation does, or
the nanoseconds of a result come to a second. -/
inductive Halt
  | refused
  | overflow
  | unnormalized
  deriving DecidableEq, Repr

namespace Word

variable {n m x y : Nat}

theorem ok_bind {α β : Type} (a : α) (f : α → Except Halt β) : (Except.ok a >>= f) = f a := rfl

/-! ### Arithmetic in one word

Sums, differences and products are unchecked. A number fits a word if the word reads back as that
number. The lemmas carry each operation over to the numbers, as long as the result fits. -/

def sum (a b : BitVec n) : Except Halt (BitVec n) :=
  if a.uaddOverflow b then .error .overflow else .ok (a + b)

def difference (a b : BitVec n) : Except Halt (BitVec n) :=
  if a.usubOverflow b then .error .overflow else .ok (a - b)

def product (a b : BitVec n) : Except Halt (BitVec n) :=
  if a.umulOverflow b then .error .overflow else .ok (a * b)

/-- The checked sum of signed words. -/
def signedSum (a b : BitVec n) : Except Halt (BitVec n) :=
  if a.saddOverflow b then .error .refused else .ok (a + b)

/-- An unsigned word as a signed one, refused if its number is out of the signed range. -/
def asSigned (a : BitVec n) : Except Halt (BitVec n) :=
  if a.msb then .error .refused else .ok a

def Fits (n x : Nat) : Prop := (BitVec.ofNat n x).toNat = x

theorem fits_toNat (a : BitVec n) : Fits n a.toNat := by
  rw [Fits, BitVec.ofNat_toNat, BitVec.setWidth_eq]

theorem fits_nanos_iff : Fits 32 x ↔ x < 4294967296 := by
  rw [Fits, BitVec.toNat_ofNat]
  omega

theorem fits_secs_iff : Fits 64 x ↔ x < unsignedLimit := by
  rw [Fits, BitVec.toNat_ofNat, unsignedLimit]
  omega

/-- Nanoseconds below one second. -/
theorem fits_of_lt (hx : x < nanosPerSec) : Fits 32 x := by
  rw [nanosPerSec] at hx
  exact fits_nanos_iff.mpr (by omega)

theorem fits_nanosPerSec : Fits 32 nanosPerSec := fits_nanos_iff.mpr (by decide)

theorem Fits.of_le (h : Fits n x) (hle : y ≤ x) : Fits n y := by
  have hlt := (BitVec.ofNat n x).isLt
  rw [h] at hlt
  rw [Fits, BitVec.toNat_ofNat, Nat.mod_eq_of_lt (Nat.lt_of_le_of_lt hle hlt)]

theorem sum_ofNat (h : Fits n (x + y)) :
    sum (.ofNat n x) (.ofNat n y) = .ok (.ofNat n (x + y)) := by
  have hx : (BitVec.ofNat n x).toNat = x := h.of_le (Nat.le_add_right _ _)
  have hy : (BitVec.ofNat n y).toNat = y := h.of_le (Nat.le_add_left _ _)
  have hlt := (BitVec.ofNat n (x + y)).isLt
  rw [h] at hlt
  have hno : (BitVec.ofNat n x).uaddOverflow (.ofNat n y) = false := by
    rw [BitVec.uaddOverflow, hx, hy]
    exact decide_eq_false (Nat.not_le_of_lt hlt)
  rw [sum, hno, BitVec.ofNat_add]
  rfl

theorem difference_ofNat (h : Fits n x) (hle : y ≤ x) :
    difference (.ofNat n x) (.ofNat n y) = .ok (.ofNat n (x - y)) := by
  have hx : (BitVec.ofNat n x).toNat = x := h
  have hy : (BitVec.ofNat n y).toNat = y := h.of_le hle
  have hno : (BitVec.ofNat n x).usubOverflow (.ofNat n y) = false := by
    rw [BitVec.usubOverflow, hx, hy]
    exact decide_eq_false (Nat.not_lt_of_le hle)
  have hlt := (BitVec.ofNat n y).isLt
  rw [hy] at hlt
  rw [difference, hno, BitVec.ofNat_sub_ofNat_of_le _ _ hlt hle]
  rfl

theorem product_ofNat (hx : Fits n x) (hy : Fits n y) (h : Fits n (x * y)) :
    product (.ofNat n x) (.ofNat n y) = .ok (.ofNat n (x * y)) := by
  have hlt := (BitVec.ofNat n (x * y)).isLt
  rw [h] at hlt
  have hno : (BitVec.ofNat n x).umulOverflow (.ofNat n y) = false := by
    rw [BitVec.umulOverflow, hx, hy]
    exact decide_eq_false (Nat.not_le_of_lt hlt)
  rw [product, hno, BitVec.ofNat_mul]
  rfl

theorem ofNat_div (hx : Fits n x) (hy : Fits n y) :
    BitVec.ofNat n x / .ofNat n y = .ofNat n (x / y) := by
  rw [BitVec.udiv_def, hx, hy]

theorem ofNat_mod (hx : Fits n x) (hy : Fits n y) :
    BitVec.ofNat n x % .ofNat n y = .ofNat n (x % y) := by
  rw [BitVec.umod_def, hx, hy]

theorem setWidth_ofNat (hx : Fits n x) : (BitVec.ofNat n x).setWidth m = .ofNat m x := by
  refine BitVec.eq_of_toNat_eq ?_
  rw [BitVec.toNat_setWidth, hx, BitVec.toNat_ofNat]

theorem asSigned_ofNat (hx : Fits 64 x) : asSigned (.ofNat 64 x) =
    if x < signedLimit then .ok (.ofNat 64 x) else .error .refused := by
  have hmsb : (BitVec.ofNat 64 x).msb = decide (signedLimit ≤ x) := by
    rw [BitVec.msb_eq_decide, hx, signedLimit]
  rw [asSigned, hmsb]
  by_cases hlt : x < signedLimit
  · rw [decide_eq_false (Nat.not_le_of_lt hlt), if_pos hlt]
    rfl
  · rw [decide_eq_true (Nat.le_of_not_lt hlt), if_neg hlt]
    rfl

theorem toInt_ofInt {x : Int} (hle : -signedLimit ≤ x) (hlt : x < signedLimit) :
    (BitVec.ofInt 64 x).toInt = x := by
  rw [signedLimit] at hle hlt
  exact BitVec.toInt_ofInt_eq_self (by decide) (by omega) (by omega)

theorem neg_le_toInt (a : BitVec 64) : -signedLimit ≤ a.toInt := a.le_toInt

theorem toInt_lt (a : BitVec 64) : a.toInt < signedLimit := BitVec.toInt_lt

theorem signedSum_ofInt {x : Int} (hle : -signedLimit ≤ x) (hlt : x < signedLimit)
    (hy : y < signedLimit) : signedSum (.ofInt 64 x) (.ofNat 64 y) =
      if x + y < signedLimit then .ok (.ofInt 64 (x + y)) else .error .refused := by
  have hx := toInt_ofInt hle hlt
  have hy' : (BitVec.ofInt 64 (y : Int)).toInt = y := toInt_ofInt (by omega) (by omega)
  rw [← BitVec.ofInt_natCast]
  have hover : (BitVec.ofInt 64 x).saddOverflow (.ofInt 64 y) =
      decide ((signedLimit : Int) ≤ x + y) := by
    rw [BitVec.saddOverflow, hx, hy', Bool.eq_iff_iff]
    simp only [Bool.or_eq_true, decide_eq_true_eq]
    simp only [signedLimit, Nat.reduceSub, Int.reducePow] at *
    omega
  rw [signedSum, hover, BitVec.ofInt_add]
  by_cases hsum : x + y < signedLimit
  · rw [decide_eq_false (Int.not_le_of_gt hsum), if_pos hsum]
    rfl
  · rw [decide_eq_true (Int.le_of_not_gt hsum), if_neg hsum]
    rfl

end Word

/-! ### Times in words -/

/-- Seconds and nanoseconds of a time or of a length. The seconds are signed in a time only. -/
@[ext] structure Words where
  secs : BitVec 64
  nanos : BitVec 32
  deriving DecidableEq, Repr

def Time.words (t : Time) : Words := ⟨.ofInt 64 t.secs, .ofNat 32 t.nanos⟩

def Duration.words (d : Duration) : Words := ⟨.ofNat 64 d.secs, .ofNat 32 d.nanos⟩

@[simp] theorem Time.toInt_secs_words (t : Time) : t.words.secs.toInt = t.secs :=
  Word.toInt_ofInt t.le_secs t.secs_lt

@[simp] theorem Time.toNat_nanos_words (t : Time) : t.words.nanos.toNat = t.nanos :=
  Word.fits_of_lt t.nanos_lt

@[simp] theorem Duration.toNat_nanos_words (d : Duration) : d.words.nanos.toNat = d.nanos :=
  Word.fits_of_lt d.nanos_lt

namespace Words

open Word

def latest : Words := ⟨BitVec.intMax 64, .ofNat 32 (nanosPerSec - 1)⟩

/-- The seconds to add, those carried from the nanoseconds among them. -/
def addend (addSecs : BitVec 64) (carried : BitVec 32) : Except Halt (BitVec 64) := do
  signedSum (← asSigned addSecs) (carried.setWidth 64)

def carry (secs addSecs : BitVec 64) (nanos : BitVec 32) : Except Halt Words := do
  let carried := nanos / .ofNat 32 nanosPerSec
  let nanos := nanos % .ofNat 32 nanosPerSec
  let secs ← signedSum secs (← addend addSecs carried)
  if nanos < .ofNat 32 nanosPerSec then .ok ⟨secs, nanos⟩ else .error .unnormalized

/-- A refused result is the latest time. -/
def orLatest : Except Halt Words → Except Halt Words
  | .error .refused => .ok latest
  | result => result

def new (secs : BitVec 64) (nanos : BitVec 32) : Except Halt Words :=
  orLatest (carry secs (.ofNat 64 0) nanos)

def checkedAdd (w d : Words) : Except Halt Words := do
  carry w.secs d.secs (← sum w.nanos d.nanos)

def checkedAddMillis (w : Words) (ms : BitVec 64) : Except Halt Words := do
  let rest := (ms % .ofNat 64 millisPerSec).setWidth 32
  let addNanos ← product rest (.ofNat 32 nanosPerMilli)
  carry w.secs (ms / .ofNat 64 millisPerSec) (← sum w.nanos addNanos)

/-- Seconds first, nanoseconds among equal seconds. -/
def compare (a b : Words) : Ordering :=
  (Ord.compare a.secs.toInt b.secs.toInt).then (Ord.compare a.nanos.toNat b.nanos.toNat)

/-- An exact result in words; where there is none, the computation is refused. -/
def ofTime? : Option Time → Except Halt Words
  | some t => .ok t.words
  | none => .error .refused

theorem exists_of_ofTime? {r : Option Time} {w : Words} (h : ofTime? r = .ok w) :
    ∃ t, r = some t ∧ w = t.words := by
  cases r with
  | none => cases h
  | some t =>
      cases h
      exact ⟨t, rfl, rfl⟩

variable {secs : Int} {addSecs addNanos carried nanos : Nat}

theorem addend_ofNat (ha : Fits 64 addSecs) (hc : Fits 32 carried) :
    addend (.ofNat 64 addSecs) (.ofNat 32 carried) =
      if addSecs + carried < signedLimit then .ok (.ofNat 64 (addSecs + carried))
      else .error .refused := by
  have hsmall : carried < signedLimit := by
    have := fits_nanos_iff.mp hc
    rw [signedLimit]
    omega
  rw [addend, asSigned_ofNat ha, setWidth_ofNat hc]
  by_cases hadd : addSecs < signedLimit
  · have hsum := signedSum_ofInt (x := (addSecs : Int)) (by omega) (by omega) hsmall
    simp only [← Int.natCast_add, BitVec.ofInt_natCast, Int.ofNat_lt] at hsum
    rw [if_pos hadd, ok_bind, hsum]
  · have hout : ¬addSecs + carried < signedLimit := by omega
    rw [if_neg hadd, if_neg hout]
    rfl

/-- The carry is refused by the rule of the exact one, and else comes to the same seconds and
nanoseconds. -/
theorem carry_eq (hle : -signedLimit ≤ secs) (hlt : secs < signedLimit) (ha : Fits 64 addSecs)
    (hn : Fits 32 nanos) : carry (.ofInt 64 secs) (.ofNat 64 addSecs) (.ofNat 32 nanos) =
      if addSecs + nanos / nanosPerSec < signedLimit ∧
          secs + (addSecs + nanos / nanosPerSec : Nat) < signedLimit then
        .ok ⟨.ofInt 64 (secs + (addSecs + nanos / nanosPerSec : Nat)),
          .ofNat 32 (nanos % nanosPerSec)⟩
      else .error .refused := by
  have hcarried : Fits 32 (nanos / nanosPerSec) := hn.of_le (Nat.div_le_self _ _)
  have hnormal : BitVec.ofNat 32 (nanos % nanosPerSec) < .ofNat 32 nanosPerSec := by
    rw [BitVec.lt_def, fits_nanosPerSec, hn.of_le (Nat.mod_le _ _)]
    exact Nat.mod_lt _ nanosPerSec_pos
  rw [carry, ofNat_div hn fits_nanosPerSec, ofNat_mod hn fits_nanosPerSec,
    addend_ofNat ha hcarried]
  by_cases hadd : addSecs + nanos / nanosPerSec < signedLimit
  · rw [if_pos hadd, ok_bind, signedSum_ofInt hle hlt hadd]
    by_cases hsum : secs + (addSecs + nanos / nanosPerSec : Nat) < signedLimit
    · rw [if_pos hsum, if_pos ⟨hadd, hsum⟩]
      exact if_pos hnormal
    · rw [if_neg hsum, if_neg (fun h => hsum h.2)]
      rfl
  · rw [if_neg hadd, if_neg (fun h => hadd h.1)]
    rfl

theorem carry_words (t : Time) (ha : Fits 64 addSecs) (hn : addNanos < nanosPerSec) :
    (do carry t.words.secs (.ofNat 64 addSecs) (← sum t.words.nanos (.ofNat 32 addNanos))) =
      ofTime? (t.carry? addSecs addNanos) := by
  have hfits : Fits 32 (t.nanos + addNanos) := by
    have := t.nanos_lt
    rw [fits_nanos_iff]
    unfold nanosPerSec at *
    omega
  rw [Time.words, sum_ofNat hfits, ok_bind, carry_eq t.le_secs t.secs_lt ha hfits, Time.carry?]
  split <;> rfl

theorem latest_eq : latest = Time.max.words := by
  decide

theorem orLatest_ofTime? (r : Option Time) : orLatest (ofTime? r) = .ok (r.getD .max).words := by
  cases r with
  | none => exact congrArg Except.ok latest_eq
  | some r => rfl

/-- Building a time from any two words never fails. -/
theorem new_eq (secs : BitVec 64) (nanos : BitVec 32) :
    new secs nanos = .ok (Time.new secs.toInt nanos.toNat).words := by
  have hle := neg_le_toInt secs
  have hzero : Fits 64 0 := fits_secs_iff.mpr (by decide)
  have hcarry := carry_eq hle (toInt_lt secs) hzero (fits_toNat nanos)
  rw [BitVec.ofInt_toInt, BitVec.ofNat_toNat, BitVec.setWidth_eq, Nat.zero_add] at hcarry
  rw [new, hcarry, Time.new]
  -- a word of nanoseconds carries a few seconds only, so that the last sum alone can be refused
  have hsmall : nanos.toNat / nanosPerSec < signedLimit := by
    have := nanos.isLt
    unfold nanosPerSec signedLimit
    omega
  by_cases hsum : secs.toInt + (nanos.toNat / nanosPerSec : Nat) < signedLimit
  · have hlow := Int.le_add_of_nonneg_right (a := secs.toInt)
      (Int.natCast_nonneg (nanos.toNat / nanosPerSec))
    rw [if_pos ⟨hsmall, hsum⟩, dif_pos ⟨Int.le_trans hle hlow, hsum⟩]
    rfl
  · rw [if_neg (fun h => hsum h.2), dif_neg (fun h => hsum h.2), if_neg (by omega), ← latest_eq]
    rfl

theorem checkedAdd_words (t : Time) (d : Duration) :
    t.words.checkedAdd d.words = ofTime? (t.checkedAdd d) :=
  carry_words t (fits_secs_iff.mpr d.secs_lt) d.nanos_lt

theorem checkedAddMillis_words (t : Time) (ms : BitVec 64) :
    t.words.checkedAddMillis ms = ofTime? (t.checkedAddMillis ms.toNat) := by
  have hms := fits_toNat ms
  have hlt := fits_secs_iff.mp hms
  have hthousand : Fits 64 millisPerSec := fits_secs_iff.mpr (by decide)
  have hrest : ms.toNat % millisPerSec < 1000 := Nat.mod_lt _ (by decide)
  have hproduct : product (.ofNat 32 (ms.toNat % millisPerSec)) (.ofNat 32 nanosPerMilli) =
      .ok (.ofNat 32 (ms.toNat % millisPerSec * nanosPerMilli)) := by
    unfold nanosPerMilli
    refine product_ofNat ?_ ?_ ?_ <;> rw [fits_nanos_iff] <;> omega
  have hword : ms = .ofNat 64 ms.toNat := by rw [BitVec.ofNat_toNat, BitVec.setWidth_eq]
  rw [checkedAddMillis, hword, ofNat_mod hms hthousand, ofNat_div hms hthousand,
    setWidth_ofNat (hms.of_le (Nat.mod_le _ _)), ← hword, hproduct, ok_bind]
  -- less than a thousand milliseconds are left, so less than one second
  refine carry_words t (hms.of_le (Nat.div_le_self _ _)) ?_
  unfold nanosPerMilli nanosPerSec
  omega

theorem compare_words (t u : Time) : t.words.compare u.words = t.compare u := by
  simp only [compare, Time.toInt_secs_words, Time.toNat_nanos_words]
  rfl

end Words

/-! ### Any number of additions -/

inductive Addition
  | checked (d : Duration)
  | saturating (d : Duration)
  | checkedMillis (ms : BitVec 64)
  | saturatingMillis (ms : BitVec 64)

namespace Addition

def perform : Addition → Time → Option Time
  | .checked d, t => t.checkedAdd d
  | .saturating d, t => some (t.saturatingAdd d)
  | .checkedMillis ms, t => t.checkedAddMillis ms.toNat
  | .saturatingMillis ms, t => some (t.saturatingAddMillis ms.toNat)

def inWords : Addition → Words → Except Halt Words
  | .checked d, w => w.checkedAdd d.words
  | .saturating d, w => Words.orLatest (w.checkedAdd d.words)
  | .checkedMillis ms, w => w.checkedAddMillis ms
  | .saturatingMillis ms, w => Words.orLatest (w.checkedAddMillis ms)

/-- One addition on the words of a time. -/
theorem inWords_words (add : Addition) (t : Time) :
    add.inWords t.words = Words.ofTime? (add.perform t) := by
  cases add with
  | checked d => exact Words.checkedAdd_words t d
  | saturating d =>
      rw [inWords, Words.checkedAdd_words]
      exact Words.orLatest_ofTime? _
  | checkedMillis ms => exact Words.checkedAddMillis_words t ms
  | saturatingMillis ms =>
      rw [inWords, Words.checkedAddMillis_words]
      exact Words.orLatest_ofTime? _

end Addition

/-- The time of these seconds and nanoseconds, with the additions made to it one after the other. -/
def Time.build (secs : Int) (nanos : Nat) (adds : List Addition) : Option Time :=
  adds.foldlM (fun t add => add.perform t) (new secs nanos)

def Words.build (secs : BitVec 64) (nanos : BitVec 32) (adds : List Addition) :
    Except Halt Words := do
  adds.foldlM (fun w add => add.inWords w) (← new secs nanos)

theorem Words.foldlM_words (adds : List Addition) (t : Time) :
    adds.foldlM (fun w add => add.inWords w) t.words =
      ofTime? (adds.foldlM (fun t add => add.perform t) t) := by
  induction adds generalizing t with
  | nil => rfl
  | cons add adds ih =>
      rw [List.foldlM_cons, List.foldlM_cons, add.inWords_words]
      cases add.perform t with
      | none => rfl
      | some r => exact ih r

theorem Words.build_eq (secs : BitVec 64) (nanos : BitVec 32) (adds : List Addition) :
    build secs nanos adds = ofTime? (Time.build secs.toInt nanos.toNat adds) := by
  rw [build, new_eq, Word.ok_bind, foldlM_words]
  rfl

namespace Time

variable {ms : Nat}

/-- The order by seconds and nanoseconds is that of the distances from the origin. -/
theorem compare_eq_totalNanos (t u : Time) :
    t.compare u = Ord.compare t.totalNanos u.totalNanos := by
  have ht := t.nanos_lt
  have hu := u.nanos_lt
  unfold compare totalNanos nanosPerSec at *
  cases hsecs : Ord.compare t.secs u.secs with
  | lt =>
      rw [Int.compare_eq_lt] at hsecs
      exact (Int.compare_eq_lt.mpr (by omega)).symm
  | gt =>
      rw [Int.compare_eq_gt] at hsecs
      exact (Int.compare_eq_gt.mpr (by omega)).symm
  | eq =>
      rw [Int.compare_eq_eq] at hsecs
      cases hnanos : Ord.compare t.nanos u.nanos with
      | lt =>
          rw [Nat.compare_eq_lt] at hnanos
          exact (Int.compare_eq_lt.mpr (by omega)).symm
      | gt =>
          rw [Nat.compare_eq_gt] at hnanos
          exact (Int.compare_eq_gt.mpr (by omega)).symm
      | eq =>
          rw [Nat.compare_eq_eq] at hnanos
          exact (Int.compare_eq_eq.mpr (by omega)).symm

/-- Whatever carries into the seconds, a time is built exactly, or is the latest one. -/
theorem totalNanos_new_eq_min {secs : Int} (nanos : Nat) (hle : -signedLimit ≤ secs) :
    (new secs nanos).totalNanos = min (secs * nanosPerSec + nanos) max.totalNanos := by
  rw [new, totalNanos_max]
  split
  · rename_i hrange
    obtain ⟨-, hlt⟩ := hrange
    change (secs + (nanos / nanosPerSec : Nat)) * (nanosPerSec : Int) +
      (nanos % nanosPerSec : Nat) = _
    unfold nanosPerSec at *
    omega
  · rename_i hrange
    have hcarried := Int.natCast_nonneg (nanos / nanosPerSec)
    rw [if_neg (by omega), totalNanos_max]
    unfold nanosPerSec at *
    omega

/-- Whole milliseconds are the same addition as the length they come to. -/
theorem checkedAddMillis_eq (t : Time) (hms : ms < unsignedLimit) :
    t.checkedAddMillis ms = t.checkedAdd (.ofMillis ms) := by
  have hsecs : ms * nanosPerMilli / nanosPerSec = ms / millisPerSec := by
    simp only [nanosPerMilli, nanosPerSec, millisPerSec]
    omega
  have hnanos : ms * nanosPerMilli % nanosPerSec = ms % millisPerSec * nanosPerMilli := by
    simp only [nanosPerMilli, nanosPerSec, millisPerSec]
    omega
  have hrange : ms * nanosPerMilli / nanosPerSec < unsignedLimit :=
    hsecs ▸ Nat.lt_of_le_of_lt (Nat.div_le_self _ _) hms
  rw [checkedAddMillis, checkedAdd, Duration.ofMillis, Duration.ofNanos, dif_pos hrange, ← hsecs,
    ← hnanos]

end Time

/-- However often is added to a time in words, no unchecked operation leaves its word: the result is
the time that the exact additions give, or a refusal where they give nothing. A time is built from
the distance its two numbers come to, cut at the latest time. The nanoseconds in the words are below
one second, the order of such words is that of the distances from the origin, an addition that gives
a time is exact, and milliseconds are added as the length they come to. -/
theorem Words.additions_exact (secs : BitVec 64) (nanos : BitVec 32) (adds : List Addition) :
    build secs nanos adds = ofTime? (Time.build secs.toInt nanos.toNat adds) ∧
    (Time.new secs.toInt nanos.toNat).totalNanos =
      min (secs.toInt * nanosPerSec + nanos.toNat) Time.max.totalNanos ∧
    ∀ w, build secs nanos adds = .ok w → w.nanos.toNat < nanosPerSec ∧
      ∃ t, Time.build secs.toInt nanos.toNat adds = some t ∧ w = t.words ∧
        (∀ u : Time, w.compare u.words = Ord.compare t.totalNanos u.totalNanos ∧
          t.compare u = Ord.compare t.totalNanos u.totalNanos ∧
          (t ≤ u ↔ t.totalNanos ≤ u.totalNanos) ∧ (t < u ↔ t.totalNanos < u.totalNanos)) ∧
        (∀ d r, t.checkedAdd d = some r → r.totalNanos = t.totalNanos + d.totalNanos) ∧
        ∀ ms : BitVec 64, t.checkedAddMillis ms.toNat = t.checkedAdd (.ofMillis ms.toNat) ∧
          t.saturatingAddMillis ms.toNat = t.saturatingAdd (.ofMillis ms.toNat) := by
  refine ⟨build_eq secs nanos adds, Time.totalNanos_new_eq_min _ (Word.neg_le_toInt secs), ?_⟩
  intro w hw
  rw [build_eq] at hw
  obtain ⟨t, ht, rfl⟩ := exists_of_ofTime? hw
  refine ⟨?_, t, ht, rfl, ?_, ?_, ?_⟩
  · rw [t.toNat_nanos_words]
    exact t.nanos_lt
  · intro u
    have hcompare := t.compare_eq_totalNanos u
    exact ⟨(compare_words t u).trans hcompare, hcompare, Time.le_iff_totalNanos,
      Time.lt_iff_totalNanos⟩
  · intro d r hsum
    exact Time.totalNanos_of_carry? hsum
  · intro ms
    have hms := Word.fits_secs_iff.mp (Word.fits_toNat ms)
    have hchecked := t.checkedAddMillis_eq hms
    exact ⟨hchecked, congrArg (Option.getD · Time.max) hchecked⟩

/-- The largest word of nanoseconds carries four seconds into a time before the origin, and two
additions bring it to a whole second. One and a half seconds more are exact. -/
theorem Words.additions_exact_of_largest_nanos :
    ∃ t r : Time,
      build (.ofInt 64 (-2)) (.ofNat 32 4294967295)
        [.checkedMillis 1705, .saturating (.ofNanos 32705)] = .ok ⟨4, 0⟩ ∧
      t.words = ⟨4, 0⟩ ∧ t.checkedAdd (.ofMillis 1500) = some r ∧
      t.checkedAddMillis 1500 = some r ∧ r.totalNanos = t.totalNanos + 1500000000 := by
  obtain ⟨hwords, -, hbuilt⟩ := additions_exact (.ofInt 64 (-2)) (.ofNat 32 4294967295)
    [.checkedMillis 1705, .saturating (.ofNanos 32705)]
  have htime : Time.build (-2) 4294967295
      [.checkedMillis 1705, .saturating (.ofNanos 32705)] = some (.new 4 0) := by
    decide
  have hbuild := hwords.trans (congrArg ofTime? htime)
  obtain ⟨-, t, ht, hw, -, hsum, hmillis⟩ := hbuilt ⟨4, 0⟩ hbuild
  cases Option.some.inj (ht.symm.trans htime)
  have hchecked : (Time.new 4 0).checkedAdd (.ofMillis 1500) = some (.new 5 500000000) := by
    decide
  exact ⟨_, _, hbuild, hw.symm, hchecked, (hmillis 1500).1.trans hchecked, hsum _ _ hchecked⟩

end TimedCondvar
