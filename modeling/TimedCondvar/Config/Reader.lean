import TimedCondvar.Config
import TimedCondvar.Json.Reject

/-!
Clocks and configurations read from JSON text. A configuration is an object or an array. In an
object members other than the clock are skipped; a clock left out is the default one.
-/

namespace TimedCondvar

namespace Json

/-! ### Clocks -/

/-- The clock of a name read up to here. -/
def clockOfKey (name : String) (s : List Char) : Except Fault (Clock × List Char) :=
  match Clock.ofKey? name with
  | some c => .ok (c, s)
  | none => .error ⟨.unknownVariant name (Clock.all.map (·.key)), s, 0⟩

def readColon (s : List Char) : Except Fault (List Char) :=
  match skipBlank s with
  | [] => .error (.ahead .eofInObject [])
  | ':' :: s => .ok s
  | s => .error (.ahead .expectedColon s)

def readNull (s : List Char) : Except Fault (List Char) :=
  match skipBlank s with
  | [] => .error (.ahead .eofInValue [])
  | 'n' :: s => readWord ['u', 'l', 'l'] s
  | s => .error (reject "unit" s)

/-- Reads a clock: its name, or an object whose only member has that name and the value null. -/
def readClock (s : List Char) : Except Fault (Clock × List Char) := do
  match skipBlank s with
  | [] => .error (.ahead .eofInValue [])
  | '"' :: s =>
    let (name, s) ← readString s
    clockOfKey name s
  | '{' :: s =>
    match skipBlank s with
    | [] => .error (.ahead .eofInValue [])
    | '"' :: s =>
      let (name, s) ← readString s
      let (clock, s) ← clockOfKey name s
      let s ← readColon s
      let s ← readNull s
      match skipBlank s with
      | [] => .error ⟨.eofInObject, [], 0⟩
      | '}' :: s => .ok (clock, s)
      | s => .error ⟨.expectedValue, s, 0⟩
    | s => .error (.ahead .expectedValue s)
  | s => .error (.ahead .expectedValue s)

/-! ### Configurations -/

/-- The text behind an object that is given up: blanks and its brace, if that is next. -/
def closeObject (s : List Char) : List Char :=
  match skipBlank s with
  | '}' :: s => s
  | s => s

/-- Reads the value of a member, from its colon. A second clock is refused before its value. -/
def readMember (key : String) (clock : Option Clock) (s : List Char) :
    Except Fault (Option Clock × List Char) := do
  if key = "clock" then
    if clock.isSome then .error ⟨.duplicateField "clock", closeObject s, 0⟩
    else
      let s ← readColon s
      let (c, s) ← readClock s
      .ok (some c, s)
  else
    let s ← readColon s
    let s ← skipValue s
    .ok (clock, s)

/-- Reads members up to the brace behind them, where a comma or the brace has to come next;
`fuel` bounds their number. -/
def readMembers : Nat → Option Clock → List Char → Except Fault (Option Clock × List Char)
  | 0, _, s => .error (.ahead .eofInObject s)
  | fuel + 1, clock, s =>
    match skipBlank s with
    | [] => .error (.ahead .eofInObject [])
    | '}' :: s => .ok (clock, s)
    | ',' :: s =>
      match skipBlank s with
      | [] => .error (.ahead .eofInValue [])
      | '"' :: s => do
        let (key, s) ← readString s
        let (clock, s) ← readMember key clock s
        readMembers fuel clock s
      | '}' :: s => .error (.ahead .trailingComma ('}' :: s))
      | s => .error (.ahead .keyNotString s)
    | s => .error (.ahead .expectedObjectCommaOrEnd s)

/-- Reads an object, behind its opening brace. -/
def readObject (s : List Char) : Except Fault (Option Clock × List Char) := do
  match skipBlank s with
  | [] => .error (.ahead .eofInObject [])
  | '}' :: s => .ok (none, s)
  | '"' :: s =>
    let (key, s) ← readString s
    let (clock, s) ← readMember key none s
    readMembers (s.length + 1) clock s
  | s => .error (.ahead .keyNotString s)

/-- Reads the bracket that ends an array. -/
def readArrayEnd (s : List Char) : Except Fault (List Char) :=
  match skipBlank s with
  | [] => .error (.ahead .eofInList [])
  | ']' :: s => .ok s
  | ',' :: s =>
    match skipBlank s with
    | ']' :: s => .error (.ahead .trailingComma (']' :: s))
    | s => .error (.ahead .trailingCharacters s)
  | s => .error (.ahead .trailingCharacters s)

/-- Reads an array, behind its opening bracket: a clock or nothing. -/
def readArray (s : List Char) : Except Fault (Option Clock × List Char) := do
  match skipBlank s with
  | [] => .error (.ahead .eofInList [])
  | ']' :: s => .ok (none, s)
  | s =>
    let (clock, s) ← readClock s
    let s ← readArrayEnd s
    .ok (some clock, s)

end Json

/-- Reads a clock from a whole text. -/
def Clock.ofJson (text : String) : Except Json.Fault Clock := do
  let (clock, s) ← Json.readClock text.toList
  Json.readEnd clock s

/-- Reads a configuration from a whole text. -/
def Config.ofJson (text : String) : Except Json.Fault Config := do
  let (clock, s) ← match Json.skipBlank text.toList with
    | [] => .error (.ahead .eofInValue [])
    | '{' :: s => Json.readObject s
    | '[' :: s => Json.readArray s
    | s => .error (Json.reject "struct SyncConfig" s)
  Json.readEnd { clock := clock.getD default } s

end TimedCondvar
