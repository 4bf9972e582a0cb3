import TimedCondvar.Json.Fault

/-!
The tokens of JSON text that are spelt out: blanks, the three words, strings. A string is read in
two ways. `readString` gives its characters and wants surrogates in pairs; `skipString` only
finds its end and leaves surrogates alone.
-/

namespace TimedCondvar.Json

def isBlank (c : Char) : Bool := c = ' ' || c = '\t' || c = '\n' || c = '\r'

def skipBlank (s : List Char) : List Char := s.dropWhile isBlank

/-- Reads the rest of a word. -/
def readWord : List Char → List Char → Except Fault (List Char)
  | [], s => .ok s
  | _ :: _, [] => .error ⟨.eofInValue, [], 0⟩
  | w :: ws, c :: s => if c = w then readWord ws s else .error ⟨.expectedIdent, c :: s, 1⟩

/-! ### Escapes -/

/-- The escapes of one letter. -/
def simpleEscape? : Char → Option Char
  | '"' => some '"'
  | '\\' => some '\\'
  | '/' => some '/'
  | 'b' => some '\x08'
  | 'f' => some '\x0c'
  | 'n' => some '\n'
  | 'r' => some '\r'
  | 't' => some '\t'
  | _ => none

def hexDigit? (c : Char) : Option Nat :=
  if '0' ≤ c ∧ c ≤ '9' then some (c.toNat - '0'.toNat)
  else if 'a' ≤ c ∧ c ≤ 'f' then some (c.toNat - 'a'.toNat + 10)
  else if 'A' ≤ c ∧ c ≤ 'F' then some (c.toNat - 'A'.toNat + 10)
  else none

/-- The number of bytes of a text. -/
def byteLength (s : List Char) : Nat := s.foldr (fun c n => c.utf8Size + n) 0

/-- Four hexadecimal digits. Four bytes are taken before they are looked at. -/
def readHex4 (s : List Char) : Except Fault (Nat × List Char) :=
  if byteLength (s.take 4) < 4 then .error ⟨.eofInString, [], 0⟩
  else match s with
    | a :: b :: c :: d :: s' =>
      match hexDigit? a, hexDigit? b, hexDigit? c, hexDigit? d with
      | some a, some b, some c, some d => .ok (((a * 16 + b) * 16 + c) * 16 + d, s')
      | _, _, _, _ => .error ⟨.invalidEscape, s, 4⟩
    | _ => .error ⟨.invalidEscape, s, 4⟩

def isHighSurrogate (n : Nat) : Bool := 0xD800 ≤ n && n ≤ 0xDBFF

def isLowSurrogate (n : Nat) : Bool := 0xDC00 ≤ n && n ≤ 0xDFFF

def ofSurrogates (high low : Nat) : Char :=
  Char.ofNat (0x10000 + (high - 0xD800) * 0x400 + (low - 0xDC00))

/-- The character of an escape, behind its `u`. -/
def readUnicode (s : List Char) : Except Fault (Char × List Char) := do
  let (n, s) ← readHex4 s
  if isLowSurrogate n then .error ⟨.unpairedSurrogate, s, 0⟩
  else if isHighSurrogate n then
    match s with
    | [] | ['\\'] => .error ⟨.eofInString, [], 0⟩
    | '\\' :: 'u' :: s => do
      let (low, s) ← readHex4 s
      if isLowSurrogate low then .ok (ofSurrogates n low, s)
      else .error ⟨.unpairedSurrogate, s, 0⟩
    | '\\' :: s => .error ⟨.unexpectedEndOfHexEscape, s, 1⟩
    | s => .error ⟨.unexpectedEndOfHexEscape, s, 1⟩
  else .ok (Char.ofNat n, s)

/-- The character of an escape, behind its backslash. -/
def readEscape : List Char → Except Fault (Char × List Char)
  | [] => .error ⟨.eofInString, [], 0⟩
  | 'u' :: s => readUnicode s
  | c :: s =>
    match simpleEscape? c with
    | some d => .ok (d, s)
    | none => .error ⟨.invalidEscape, c :: s, 1⟩

def skipEscape : List Char → Except Fault (List Char)
  | [] => .error ⟨.eofInString, [], 0⟩
  | 'u' :: s => (readHex4 s).map (·.2)
  | c :: s =>
    match simpleEscape? c with
    | some _ => .ok s
    | none => .error ⟨.invalidEscape, c :: s, 1⟩

/-! ### Strings -/

def isControl (c : Char) : Bool := c < ' '

/-- The characters of a string up to its closing quote; `fuel` bounds their number. -/
def readChars : Nat → List Char → Except Fault (List Char × List Char)
  | 0, s => .error ⟨.eofInString, s, 0⟩
  | _ + 1, [] => .error ⟨.eofInString, [], 0⟩
  | fuel + 1, c :: s =>
    if c = '"' then .ok ([], s)
    else if c = '\\' then do
      let (d, s) ← readEscape s
      let (ds, s) ← readChars fuel s
      .ok (d :: ds, s)
    else if isControl c then .error ⟨.controlCharacter, s, 0⟩
    else do
      let (ds, s) ← readChars fuel s
      .ok (c :: ds, s)

def skipChars : Nat → List Char → Except Fault (List Char)
  | 0, s => .error ⟨.eofInString, s, 0⟩
  | _ + 1, [] => .error ⟨.eofInString, [], 0⟩
  | fuel + 1, c :: s =>
    if c = '"' then .ok s
    else if c = '\\' then do
      let s ← skipEscape s
      skipChars fuel s
    else if isControl c then .error ⟨.controlCharacter, c :: s, 0⟩
    else skipChars fuel s

/-- Reads a string, behind its opening quote. -/
def readString (s : List Char) : Except Fault (String × List Char) :=
  (readChars (s.length + 1) s).map fun (cs, s) => (String.ofList cs, s)

/-- Skips a string, behind its opening quote. -/
def skipString (s : List Char) : Except Fault (List Char) := skipChars (s.length + 1) s

end TimedCondvar.Json
