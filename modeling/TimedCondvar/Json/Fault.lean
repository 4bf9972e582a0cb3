import TimedCondvar.Text.Numeral

/-!
What can be wrong with a JSON text, and where. A reader works on the text that is left; a fault
holds the text left when it arose, so that its line and column can be counted from the whole
text. Columns count bytes.
-/

namespace TimedCondvar.Json

/-- A value found where another was wanted. -/
inductive Unexpected
  | null
  | boolean (b : Bool)
  | integer (n : Int)
  /-- A number that is no integer, by its text. -/
  | real (text : String)
  /-- A string, as it is written in messages. -/
  | string (text : String)
  | sequence
  | map
  deriving DecidableEq, Repr

def Unexpected.message : Unexpected → String
  | .null => "null"
  | .boolean b => "boolean `" ++ (if b then "true" else "false") ++ "`"
  | .integer n => "integer `" ++ Numeral.signed n ++ "`"
  | .real text => "floating point `" ++ text ++ "`"
  | .string text => "string " ++ text
  | .sequence => "sequence"
  | .map => "map"

inductive Cause
  | eofInValue
  | eofInString
  | eofInList
  | eofInObject
  | expectedValue
  | expectedIdent
  | expectedColon
  | expectedListCommaOrEnd
  | expectedObjectCommaOrEnd
  | keyNotString
  | invalidNumber
  | numberOutOfRange
  | invalidEscape
  | unpairedSurrogate
  | unexpectedEndOfHexEscape
  | controlCharacter
  | trailingComma
  | trailingCharacters
  | invalidType (found : Unexpected) (expected : String)
  | unknownVariant (name : String) (known : List String)
  | duplicateField (name : String)
  deriving DecidableEq, Repr

/-- Whether the text broke off, is malformed, or says something that is not wanted. -/
inductive Category
  | eof
  | malformed
  | data
  deriving DecidableEq, Repr

namespace Cause

def category : Cause → Category
  | .eofInValue | .eofInString | .eofInList | .eofInObject => .eof
  | .invalidType _ _ | .unknownVariant _ _ | .duplicateField _ => .data
  | _ => .malformed

private def quoted (s : String) : String := "`" ++ s ++ "`"

def message : Cause → String
  | .eofInValue => "EOF while parsing a value"
  | .eofInString => "EOF while parsing a string"
  | .eofInList => "EOF while parsing a list"
  | .eofInObject => "EOF while parsing an object"
  | .expectedValue => "expected value"
  | .expectedIdent => "expected ident"
  | .expectedColon => "expected `:`"
  | .expectedListCommaOrEnd => "expected `,` or `]`"
  | .expectedObjectCommaOrEnd => "expected `,` or `\x7d`"
  | .keyNotString => "key must be a string"
  | .invalidNumber => "invalid number"
  | .numberOutOfRange => "number out of range"
  | .invalidEscape => "invalid escape"
  | .unpairedSurrogate => "lone leading surrogate in hex escape"
  | .unexpectedEndOfHexEscape => "unexpected end of hex escape"
  | .controlCharacter => "control character (\\u0000-\\u001F) found while parsing a string"
  | .trailingComma => "trailing comma"
  | .trailingCharacters => "trailing characters"
  | .invalidType found expected => "invalid type: " ++ found.message ++ ", expected " ++ expected
  | .unknownVariant name known =>
    "unknown variant " ++ quoted name ++ ", expected one of "
      ++ ", ".intercalate (known.map quoted)
  | .duplicateField name => "duplicate field " ++ quoted name

end Cause

/-! ### Positions -/

structure Position where
  line : Nat := 1
  column : Nat := 0
  deriving DecidableEq, Repr

namespace Position

def next (p : Position) (c : Char) : Position :=
  if c = '\n' then ⟨p.line + 1, 0⟩ else ⟨p.line, p.column + c.utf8Size⟩

def after (p : Position) (text : List Char) : Position := text.foldl next p

/-- The position so many bytes into the text, which may be within a character. -/
def afterBytes (p : Position) : Nat → List Char → Position
  | _, [] => p
  | n, c :: cs =>
    if c.utf8Size ≤ n then (p.next c).afterBytes (n - c.utf8Size) cs
    else ⟨p.line, p.column + n⟩

end Position

/-- A cause, the text left, and how many bytes of that are still counted in. -/
structure Fault where
  cause : Cause
  rest : List Char
  extra : Nat := 0
  deriving DecidableEq, Repr

namespace Fault

/-- A fault found upon looking at the next character without taking it. -/
def ahead (cause : Cause) (rest : List Char) : Fault := ⟨cause, rest, 1⟩

def position (f : Fault) (text : List Char) : Position :=
  (Position.after {} (text.take (text.length - f.rest.length))).afterBytes f.extra f.rest

def message (f : Fault) (text : List Char) : String :=
  let p := f.position text
  f.cause.message ++ " at line " ++ Numeral.decimal p.line ++ " column " ++ Numeral.decimal p.column

end Fault

end TimedCondvar.Json
