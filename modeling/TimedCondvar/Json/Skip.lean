import TimedCondvar.Json.Literal

/-!
Skipping a value of any kind. What is skipped has to be well-formed, but numbers of any size and
values of any depth will do.
-/

namespace TimedCondvar.Json

def isDigit (c : Char) : Bool := '0' ≤ c && c ≤ '9'

def skipDigits (s : List Char) : List Char := s.dropWhile isDigit

/-! ### Numbers -/

/-- Skips an exponent, behind its letter. -/
def skipExponent (s : List Char) : Except Fault (List Char) :=
  let s := match s with
    | '+' :: s | '-' :: s => s
    | s => s
  match s with
  | [] => .error ⟨.invalidNumber, [], 0⟩
  | c :: s => if isDigit c then .ok (skipDigits s) else .error ⟨.invalidNumber, c :: s, 1⟩

def skipExponent? : List Char → Except Fault (List Char)
  | [] => .ok []
  | c :: s => if c = 'e' ∨ c = 'E' then skipExponent s else .ok (c :: s)

/-- Skips what may follow the digits before the point. -/
def skipFraction? : List Char → Except Fault (List Char)
  | '.' :: s =>
    match s with
    | [] => .error (.ahead .invalidNumber [])
    | c :: s =>
      if isDigit c then skipExponent? (skipDigits s) else .error (.ahead .invalidNumber (c :: s))
  | s => skipExponent? s

/-- Skips a number, behind its sign. -/
def skipNumber : List Char → Except Fault (List Char)
  | [] => .error ⟨.invalidNumber, [], 0⟩
  | '0' :: s =>
    if (s.head?).any isDigit then .error (.ahead .invalidNumber s) else skipFraction? s
  | c :: s =>
    if isDigit c then skipFraction? (skipDigits s) else .error ⟨.invalidNumber, c :: s, 1⟩

/-! ### Values -/

/-- Skips a key and its colon, from where the key has to begin. -/
def skipKey (s : List Char) : Except Fault (List Char) := do
  match skipBlank s with
  | [] => .error (.ahead .eofInObject [])
  | '"' :: s =>
    let s ← skipString s
    match skipBlank s with
    | [] => .error (.ahead .eofInObject [])
    | ':' :: s => .ok s
    | s => .error (.ahead .expectedColon s)
  | s => .error (.ahead .keyNotString s)

mutual

/-- Skips a value; `fuel` bounds the number of values and brackets on the way. -/
def skipAny : Nat → List Char → Except Fault (List Char)
  | 0, s => .error (.ahead .eofInValue s)
  | fuel + 1, s =>
    match skipBlank s with
    | [] => .error (.ahead .eofInValue [])
    | 'n' :: s => readWord ['u', 'l', 'l'] s
    | 't' :: s => readWord ['r', 'u', 'e'] s
    | 'f' :: s => readWord ['a', 'l', 's', 'e'] s
    | '-' :: s => skipNumber s
    | '"' :: s => skipString s
    | '[' :: s =>
      match skipBlank s with
      | [] => .error (.ahead .eofInList [])
      | ']' :: s => .ok s
      | s => skipElements fuel s
    | '{' :: s =>
      match skipBlank s with
      | [] => .error (.ahead .eofInObject [])
      | '}' :: s => .ok s
      | s => skipMembers fuel s
    | c :: s => if isDigit c then skipNumber (c :: s) else .error (.ahead .expectedValue (c :: s))

/-- Skips one element or more, and the bracket behind them. -/
def skipElements : Nat → List Char → Except Fault (List Char)
  | 0, s => .error (.ahead .eofInValue s)
  | fuel + 1, s => do
    let s ← skipAny fuel s
    match skipBlank s with
    | [] => .error (.ahead .eofInList [])
    | ',' :: s => skipElements fuel s
    | ']' :: s => .ok s
    | s => .error (.ahead .expectedListCommaOrEnd s)

/-- Skips one member or more, and the brace behind them. -/
def skipMembers : Nat → List Char → Except Fault (List Char)
  | 0, s => .error (.ahead .eofInValue s)
  | fuel + 1, s => do
    let s ← skipKey s
    let s ← skipAny fuel s
    match skipBlank s with
    | [] => .error (.ahead .eofInObject [])
    | ',' :: s => skipMembers fuel s
    | '}' :: s => .ok s
    | s => .error (.ahead .expectedObjectCommaOrEnd s)

end

def skipValue (s : List Char) : Except Fault (List Char) := skipAny (2 * s.length + 2) s

end TimedCondvar.Json
