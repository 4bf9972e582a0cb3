/-!
Numbers in text: decimal numerals, numerals filled up with zeros to a width, hexadecimal
numerals, and the reading of an unsigned decimal numeral below a limit.
-/

namespace TimedCondvar.Numeral

def decimal (n : Nat) : String := String.ofList (Nat.toDigits 10 n)

def signed (n : Int) : String :=
  if n < 0 then "-" ++ decimal n.natAbs else decimal n.natAbs

/-- The decimal numeral with zeros in front, `width` digits at least. -/
def padded (width n : Nat) : String :=
  let digits := Nat.toDigits 10 n
  String.ofList (List.replicate (width - digits.length) '0' ++ digits)

def hex (n : Nat) : String := "0x" ++ String.ofList (Nat.toDigits 16 n)

inductive ReadError
  | empty
  | invalidDigit
  | tooLarge
  deriving DecidableEq, Repr

def ReadError.message : ReadError → String
  | .empty => "cannot parse integer from empty string"
  | .invalidDigit => "invalid digit found in string"
  | .tooLarge => "number too large to fit in target type"

def digit? (c : Char) : Option Nat :=
  if '0' ≤ c ∧ c ≤ '9' then some (c.toNat - '0'.toNat) else none

/-- Reads on from the value `n` of the digits before. The first fault from the left is reported. -/
def readDigits (limit : Nat) : Nat → List Char → Except ReadError Nat
  | n, [] => .ok n
  | n, c :: cs =>
    match digit? c with
    | none => .error .invalidDigit
    | some d =>
      if 10 * n + d < limit then readDigits limit (10 * n + d) cs else .error .tooLarge

/-- An unsigned numeral below `limit`; one plus sign may stand in front of the digits. -/
def read (limit : Nat) (text : String) : Except ReadError Nat :=
  match text.toList with
  | [] => .error .empty
  | ['+'] => .error .invalidDigit
  | '+' :: cs => readDigits limit 0 cs
  | cs => readDigits limit 0 cs

end TimedCondvar.Numeral
