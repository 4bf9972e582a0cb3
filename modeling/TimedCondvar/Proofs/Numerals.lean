import Mathlib.Algebra.Field.Rat
import Mathlib.Data.List.Basic
import TimedCondvar.Text.Numeral

/-!
Numerals and the numbers that are read from them. Numbers have different numerals in every base up
to sixteen, with a sign or without, and a character that is no digit is in none of them. `number?`
is the reader of decimal numbers. It knows the rules of decimal notation and nothing of how a numeral
is made; zeros in front of a numeral, which fill it up to a width, are nothing to it.
-/

namespace TimedCondvar.Numeral

variable {b m n width : Nat} {c : Char} {s whole fraction : List Char} {q : ℚ}

/-! ### Digits -/

theorem digitChar_injOn (hm : m < 16) (hn : n < 16) (h : m.digitChar = n.digitChar) : m = n := by
  have hall : ∀ i < 16, ∀ j < 16, Nat.digitChar i = Nat.digitChar j → i = j := by decide
  exact hall m hm n hn h

/-- A numeral ends with its last digit, and what stands in front of it is a numeral or nothing. -/
theorem toDigits_eq_front (hb : 1 < b) (n : Nat) :
    Nat.toDigits b n =
      (if n < b then [] else Nat.toDigits b (n / b)) ++ [Nat.digitChar (n % b)] := by
  rw [Nat.toDigits_eq_if hb]
  split
  · rename_i hn
    rw [Nat.mod_eq_of_lt hn, List.nil_append]
  · rfl

theorem toDigits_injective (hb : 1 < b) (hdigits : b ≤ 16) :
    Function.Injective (Nat.toDigits b) := by
  intro m n h
  induction m using Nat.strong_induction_on generalizing n with
  | _ m ih =>
      rw [toDigits_eq_front hb m, toDigits_eq_front hb n, List.append_singleton_inj] at h
      obtain ⟨hfront, hlast⟩ := h
      have hmod : m % b = n % b := by
        have hm := Nat.mod_lt m (show b > 0 by omega)
        have hn := Nat.mod_lt n (show b > 0 by omega)
        exact digitChar_injOn (by omega) (by omega) hlast
      have hdiv : m / b = n / b := by
        split at hfront <;> split at hfront
        · rename_i hm hn
          rw [Nat.div_eq_of_lt hm, Nat.div_eq_of_lt hn]
        · exact absurd hfront.symm Nat.toDigits_ne_nil
        · exact absurd hfront Nat.toDigits_ne_nil
        · exact ih (m / b) (Nat.div_lt_self (by omega) hb) hfront
      rw [← Nat.div_add_mod m b, ← Nat.div_add_mod n b, hdiv, hmod]

theorem not_mem_toDigits (hb : 1 < b) (hc : ∀ d, Nat.digitChar d ≠ c) (n : Nat) :
    c ∉ Nat.toDigits b n := by
  induction n using Nat.strong_induction_on with
  | _ n ih =>
      rw [toDigits_eq_front hb n, List.mem_append, List.mem_singleton, not_or]
      refine ⟨?_, (hc _).symm⟩
      split
      · exact List.not_mem_nil
      · exact ih (n / b) (Nat.div_lt_self (by omega) hb)

theorem isDigit_of_mem_toDigits (hc : c ∈ Nat.toDigits 10 n) : c.isDigit = true :=
  Nat.isDigit_of_mem_toDigits (by decide) (by decide) hc

/-! ### Numerals -/

theorem toList_decimal (n : Nat) : (decimal n).toList = Nat.toDigits 10 n :=
  String.toList_ofList

theorem toList_hex (n : Nat) : (hex n).toList = '0' :: 'x' :: Nat.toDigits 16 n := by
  simp [hex]

theorem toList_signed (k : Int) : (signed k).toList =
    if k < 0 then '-' :: Nat.toDigits 10 k.natAbs else Nat.toDigits 10 k.natAbs := by
  unfold signed
  split <;> simp [toList_decimal]

theorem toList_padded (width n : Nat) : (padded width n).toList =
    List.replicate (width - (Nat.toDigits 10 n).length) '0' ++ Nat.toDigits 10 n :=
  String.toList_ofList

theorem blank_not_mem_decimal (n : Nat) : ' ' ∉ (decimal n).toList := by
  rw [toList_decimal]
  exact not_mem_toDigits (by decide) (fun _ => Nat.digitChar_ne _ (by decide)) n

theorem blank_not_mem_hex (n : Nat) : ' ' ∉ (hex n).toList := by
  have hdigits := not_mem_toDigits (b := 16) (c := ' ') (by decide)
    (fun _ => Nat.digitChar_ne _ (by decide)) n
  simp [toList_hex, hdigits]

theorem decimal_injective : Function.Injective decimal := by
  intro m n h
  apply toDigits_injective (by decide : 1 < 10) (by decide)
  rw [← toList_decimal, ← toList_decimal, h]

theorem hex_injective : Function.Injective hex := by
  intro m n h
  rw [← String.toList_inj, toList_hex, toList_hex, List.cons_inj_right, List.cons_inj_right] at h
  exact toDigits_injective (by decide) (by decide) h

theorem signed_injective : Function.Injective signed := by
  intro k l h
  have hminus (n : Nat) : '-' ∉ Nat.toDigits 10 n :=
    not_mem_toDigits (by decide) (fun _ => Nat.digitChar_ne _ (by decide)) n
  have hdigits {m n : Nat} (h : Nat.toDigits 10 m = Nat.toDigits 10 n) : m = n :=
    toDigits_injective (by decide) (by decide) h
  rw [← String.toList_inj, toList_signed, toList_signed] at h
  split at h <;> split at h
  · have := hdigits (List.cons_inj_right _ |>.mp h)
    omega
  · exact absurd (h ▸ List.mem_cons_self) (hminus _)
  · exact absurd (h ▸ List.mem_cons_self) (hminus _)
  · have := hdigits h
    omega

/-! ### Reading decimal numbers -/

/-- The number that is written with digits alone, one at least. -/
def natural? (s : List Char) : Option Nat :=
  if !s.isEmpty && s.all Char.isDigit then some (Nat.ofDigitChars 10 s 0) else none

/-- A number without a sign. A point is followed by digits for a number of parts, of which ten to the
power of their count make a whole. -/
def unsigned? (s : List Char) : Option ℚ :=
  match s.dropWhile Char.isDigit with
  | [] => (natural? s).map fun (whole : Nat) => (whole : ℚ)
  | '.' :: fraction =>
    (natural? (s.takeWhile Char.isDigit)).bind fun (whole : Nat) =>
      (natural? fraction).map fun (part : Nat) => (whole : ℚ) + part / 10 ^ fraction.length
  | _ => none

def number? : List Char → Option ℚ
  | '-' :: s => (unsigned? s).map (- ·)
  | s => unsigned? s

example : number? "-1.05".toList = some (-21 / 20) := by decide +kernel
example : number? "7.".toList = none := by decide

theorem natural?_eq_some_iff : natural? s = some n ↔
    (s ≠ [] ∧ ∀ c ∈ s, c.isDigit = true) ∧ Nat.ofDigitChars 10 s 0 = n := by
  simp [natural?]

theorem natural?_toDigits (n : Nat) : natural? (Nat.toDigits 10 n) = some n := by
  rw [natural?_eq_some_iff]
  exact ⟨⟨Nat.toDigits_ne_nil, fun _ => isDigit_of_mem_toDigits⟩, Nat.ofDigitChars_ten_toDigits⟩

theorem natural?_padded (width n : Nat) : natural? (padded width n).toList = some n := by
  rw [natural?_eq_some_iff, toList_padded]
  refine ⟨⟨by simp, fun c hc => ?_⟩, ?_⟩
  · rcases List.mem_append.mp hc with hzero | hdigit
    · rw [(List.mem_replicate.mp hzero).2]
      rfl
    · exact isDigit_of_mem_toDigits hdigit
  · rw [Nat.ofDigitChars_append, Nat.ofDigitChars_replicate_zero, Nat.mul_zero,
      Nat.ofDigitChars_ten_toDigits]

theorem length_padded (hwidth : 0 < width) (hn : n < 10 ^ width) :
    (padded width n).toList.length = width := by
  have hle := (Nat.length_toDigits_le_iff (by decide) hwidth).mpr hn
  rw [toList_padded, List.length_append, List.length_replicate]
  omega

theorem unsigned?_point (hwhole : natural? whole = some m) (hfraction : natural? fraction = some n) :
    unsigned? (whole ++ '.' :: fraction) = some ((m : ℚ) + n / 10 ^ fraction.length) := by
  have hdigits := (natural?_eq_some_iff.mp hwhole).1.2
  have hpoint : ¬Char.isDigit '.' = true := by decide
  rw [unsigned?, List.dropWhile_append_of_pos hdigits, List.takeWhile_append_of_pos hdigits,
    List.dropWhile_cons_of_neg hpoint, List.takeWhile_cons_of_neg hpoint, List.append_nil]
  simp only [hwhole, hfraction, Option.bind_some, Option.map_some]

theorem number?_minus (h : unsigned? s = some q) : number? ('-' :: s) = some (-q) := by
  rw [number?, h, Option.map_some]

theorem number?_of_unsigned? (h : unsigned? s = some q) : number? s = some q := by
  unfold number?
  split
  · simp [unsigned?] at h
  · exact h

end TimedCondvar.Numeral
