import TimedCondvar.Json.Skip
import TimedCondvar.Number.Binary64
import TimedCondvar.Number.Word

/-!
Reading a number where a value of another type was wanted. An integer that fits 64 bits stays an
integer; any other number is a binary64, computed from the leading digits that fit 64 bits and
one power of ten, so not always the one nearest to the text.
-/

namespace TimedCondvar.Json

inductive Number
  | integer (n : Int)
  | real (negative : Bool) (x : Binary64)
  deriving DecidableEq, Repr

def Number.found : Number → Unexpected
  | .integer n => .integer n
  | .real negative x => .real ((if negative then "-" else "") ++ x.text)

def digitValue (c : Char) : Nat := c.toNat - '0'.toNat

/-- `significand * 10 ^ exponent`. Powers beyond 10^308 are applied in steps; three of them leave
nothing of any significand. -/
def applyPower : Nat → Binary64 → Int → Option Binary64
  | 0, _, _ => some .zero
  | fuel + 1, x, e =>
    match Binary64.ofRatio? (Nat.pow 10 (min e.natAbs 308)) 1 with
    | none => none
    | some power =>
      if e.natAbs ≤ 308 then if 0 ≤ e then x.mul? power else x.div? power
      else if x.mantissa = 0 then some x
      else if 0 ≤ e then none
      else (x.div? power).bind (applyPower fuel · (e + 308))

/-- The number of the digits read, at the text left. -/
def ofParts (negative : Bool) (significand : Nat) (exponent : Int) (s : List Char) :
    Except Fault (Number × List Char) :=
  match (Binary64.ofRatio? significand 1).bind (applyPower 4 · exponent) with
  | some x => .ok (.real negative x, s)
  | none => .error ⟨.numberOutOfRange, s, 0⟩

/-- Exponents are below this, two to the power of 31. -/
def exponentLimit : Nat := 2147483648

/-- Reads the digits of an exponent on from the value `n`. -/
def readExponentDigits (negative : Bool) (significand : Nat) (exponent : Int)
    (negativePower : Bool) : Nat → List Char → Except Fault (Number × List Char)
  | n, c :: s =>
    if isDigit c then
      let n := 10 * n + digitValue c
      if n < exponentLimit then readExponentDigits negative significand exponent negativePower n s
      else if significand ≠ 0 && !negativePower then .error ⟨.numberOutOfRange, s, 0⟩
      else .ok (.real negative .zero, skipDigits s)
    else ofParts negative significand (exponent + if negativePower then -(n : Int) else n) (c :: s)
  | n, [] => ofParts negative significand (exponent + if negativePower then -(n : Int) else n) []

/-- Reads an exponent, behind its letter. -/
def readExponent (negative : Bool) (significand : Nat) (exponent : Int) (s : List Char) :
    Except Fault (Number × List Char) :=
  let (negativePower, s) := match s with
    | '+' :: s => (false, s)
    | '-' :: s => (true, s)
    | s => (false, s)
  match s with
  | [] => .error ⟨.eofInValue, [], 0⟩
  | c :: s' =>
    if isDigit c then readExponentDigits negative significand exponent negativePower 0 s
    else .error ⟨.invalidNumber, c :: s', 1⟩

def readExponent? (negative : Bool) (significand : Nat) (exponent : Int) :
    List Char → Except Fault (Number × List Char)
  | [] => ofParts negative significand exponent []
  | c :: s =>
    if c = 'e' ∨ c = 'E' then readExponent negative significand exponent s
    else ofParts negative significand exponent (c :: s)

/-- Reads digits behind the point as long as the significand fits. -/
def readFractionDigits (negative : Bool) :
    Nat → Int → List Char → Except Fault (Number × List Char)
  | significand, exponent, c :: s =>
    if isDigit c then
      let n := 10 * significand + digitValue c
      if n < unsignedLimit then readFractionDigits negative n (exponent - 1) s
      else readExponent? negative significand exponent (skipDigits s)
    else readExponent? negative significand exponent (c :: s)
  | significand, exponent, [] => ofParts negative significand exponent []

/-- Reads the digits behind the point, of which there has to be one. -/
def readFraction (negative : Bool) (significand : Nat) (exponent : Int) (s : List Char) :
    Except Fault (Number × List Char) :=
  match s with
  | [] => .error (.ahead .eofInValue [])
  | c :: s' =>
    if isDigit c then readFractionDigits negative significand exponent s
    else .error (.ahead .invalidNumber (c :: s'))

/-- An integer ends here, unless a fraction or an exponent follows. Zero has no negative
integer, and an integer may not leave 64 bits. -/
def readAfterInteger (negative : Bool) (significand : Nat) (s : List Char) :
    Except Fault (Number × List Char) :=
  match s with
  | '.' :: s => readFraction negative significand 0 s
  | c :: s' =>
    if c = 'e' ∨ c = 'E' then readExponent negative significand 0 s' else integer s
  | [] => integer s
where
  integer (s : List Char) : Except Fault (Number × List Char) :=
    if !negative then .ok (.integer significand, s)
    else if significand = 0 ∨ signedLimit < significand then ofParts true significand 0 s
    else .ok (.integer (-significand), s)

/-- Reads on where the significand no longer fits: further digits only count as powers. -/
def readLongInteger (negative : Bool) (significand : Nat) (s : List Char) :
    Except Fault (Number × List Char) :=
  let digits := (s.takeWhile isDigit).length
  match skipDigits s with
  | '.' :: s => readFraction negative significand digits s
  | s => readExponent? negative significand digits s

def readIntegerDigits (negative : Bool) : Nat → List Char → Except Fault (Number × List Char)
  | significand, c :: s =>
    if isDigit c then
      let n := 10 * significand + digitValue c
      if n < unsignedLimit then readIntegerDigits negative n s
      else readLongInteger negative significand (c :: s)
    else readAfterInteger negative significand (c :: s)
  | significand, [] => readAfterInteger negative significand []

/-- Reads a number, behind its sign. -/
def readNumber (negative : Bool) : List Char → Except Fault (Number × List Char)
  | [] => .error ⟨.eofInValue, [], 0⟩
  | '0' :: s =>
    if (s.head?).any isDigit then .error (.ahead .invalidNumber s)
    else readAfterInteger negative 0 s
  | c :: s =>
    if isDigit c then readIntegerDigits negative 0 (c :: s)
    else .error ⟨.invalidNumber, c :: s, 1⟩

end TimedCondvar.Json
