/-!
Nonnegative binary64 numbers in exact arithmetic: a mantissa below 2^53 and a power of two.
`ofRatio?` rounds a quotient to the nearest such number, ties to an even mantissa; products and
quotients are rounded from their exact values.
-/

namespace TimedCondvar

structure Binary64 where
  mantissa : Nat
  exponent : Int
  deriving DecidableEq, Repr

namespace Binary64

def zero : Binary64 := ⟨0, -1074⟩

/-- Mantissas are below this, two to the power of 53. -/
def mantissaLimit : Nat := 9007199254740992

/-- The least mantissa of a number with all its digits, two to the power of 52. -/
def leastNormal : Nat := 4503599627370496

/-- `num / den * 2 ^ -e` as a quotient of two numbers. -/
def scale (num den : Nat) (e : Int) : Nat × Nat :=
  if 0 ≤ e then (num, den <<< e.toNat) else (num <<< (-e).toNat, den)

/-- The nearest integer to a quotient, the even one of two. -/
def roundDiv (num den : Nat) : Nat :=
  let q := num / den
  let r := 2 * (num % den)
  if r < den then q else if den < r then q + 1 else q + q % 2

/-- The nearest number to a quotient, unless that is too large. -/
def ofRatio? (num den : Nat) : Option Binary64 :=
  if num = 0 then some zero
  else
    let e : Int := max (-1074) ((num.log2 : Int) - den.log2 - 53)
    let (n, d) := scale num den e
    let e := if n / d < mantissaLimit then e else e + 1
    let (n, d) := scale num den e
    let m := roundDiv n d
    let (m, e) := if m = mantissaLimit then (leastNormal, e + 1) else (m, e)
    if 971 < e then none else some ⟨m, e⟩

/-- The number as a quotient. -/
def toRatio (x : Binary64) : Nat × Nat :=
  if 0 ≤ x.exponent then (x.mantissa <<< x.exponent.toNat, 1)
  else (x.mantissa, 1 <<< (-x.exponent).toNat)

def mul? (x y : Binary64) : Option Binary64 :=
  ofRatio? (x.toRatio.1 * y.toRatio.1) (x.toRatio.2 * y.toRatio.2)

def div? (x y : Binary64) : Option Binary64 :=
  ofRatio? (x.toRatio.1 * y.toRatio.2) (x.toRatio.2 * y.toRatio.1)

/-! ### The shortest decimal

The reals that round to a number form an interval around it. Its ends are halfway to the
neighbours, and belong to it if the mantissa is even. -/

/-- Whether `num / den` rounds to `x`. -/
def rounds (x : Binary64) (num den : Nat) : Bool :=
  let (n, d) := scale (4 * num) den x.exponent
  let below := if x.mantissa = leastNormal ∧ -1074 < x.exponent then 1 else 2
  let low := (4 * x.mantissa - below) * d
  let high := (4 * x.mantissa + 2) * d
  if x.mantissa % 2 = 0 then low ≤ n && n ≤ high else low < n && n < high

/-- A decimal `digits * 10 ^ exponent`. -/
structure Decimal where
  digits : Nat
  exponent : Int
  deriving DecidableEq, Repr

def Decimal.toRatio (d : Decimal) : Nat × Nat :=
  if 0 ≤ d.exponent then (d.digits * Nat.pow 10 d.exponent.toNat, 1)
  else (d.digits, Nat.pow 10 (-d.exponent).toNat)

/-- The decimals on the grid `10 ^ e` next to `x`, the nearer first. -/
def neighbours (x : Binary64) (e : Int) : List Decimal :=
  let (n, d) := x.toRatio
  let (n, d) := if 0 ≤ e then (n, d * Nat.pow 10 e.toNat) else (n * Nat.pow 10 (-e).toNat, d)
  let q := n / d
  if 2 * (n % d) < d ∨ 2 * (n % d) = d ∧ q % 2 = 0 then [⟨q, e⟩, ⟨q + 1, e⟩]
  else [⟨q + 1, e⟩, ⟨q, e⟩]

/-- Tries grids from `10 ^ e` downwards. -/
def shortestFrom (x : Binary64) : Nat → Int → Decimal
  | 0, e => ⟨0, e⟩
  | fuel + 1, e =>
    let hit := (x.neighbours e).find? fun d => d.digits ≠ 0 && x.rounds d.toRatio.1 d.toRatio.2
    match hit with
    | some d => d
    | none => shortestFrom x fuel (e - 1)

/-- The decimal with the fewest digits that rounds to `x`, the nearest of those. -/
def shortest (x : Binary64) : Decimal :=
  if x.mantissa = 0 then ⟨0, 0⟩
  else
    let (n, d) := x.toRatio
    let top : Int := (Nat.toDigits 10 (n / d)).length
    let top := if n / d = 0 then -((Nat.toDigits 10 (d / n)).length : Int) + 1 else top
    x.shortestFrom 24 top

/-! ### Text -/

/-- Digits with the point where it falls from 10^-5 to 10^16, with a power of ten elsewhere; a
number without fraction gets one digit of it. -/
def Decimal.text (x : Decimal) : String :=
  let ds := Nat.toDigits 10 x.digits
  let point : Int := ds.length + x.exponent
  let zeros (n : Int) : List Char := List.replicate n.toNat '0'
  let power := (if point ≤ 0 then ['-'] else []) ++ Nat.toDigits 10 (point - 1).natAbs
  String.ofList <|
    if x.digits = 0 then ['0', '.', '0']
    else if 0 ≤ x.exponent ∧ point ≤ 16 then ds ++ zeros x.exponent ++ ['.', '0']
    else if 0 < point ∧ point ≤ 16 then ds.take point.toNat ++ '.' :: ds.drop point.toNat
    else if -5 < point ∧ point ≤ 0 then '0' :: '.' :: zeros (-point) ++ ds
    else if ds.length = 1 then ds ++ 'e' :: power
    else ds.take 1 ++ '.' :: ds.drop 1 ++ 'e' :: power

def text (x : Binary64) : String := x.shortest.text

end Binary64

end TimedCondvar
