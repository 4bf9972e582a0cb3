import TimedCondvar.Json.Number
import TimedCondvar.Text.Quoted

/-!
Faults about values as a whole: one of the wrong type, and text behind the last one.
-/

namespace TimedCondvar.Json

/-- Reads past a value that is not wanted, as far as it is told in the message. -/
def reject (expected : String) (s : List Char) : Fault :=
  let result : Except Fault (Unexpected × List Char) :=
    match s with
    | 'n' :: r => (readWord ['u', 'l', 'l'] r).map fun r => (.null, r)
    | 't' :: r => (readWord ['r', 'u', 'e'] r).map fun r => (.boolean true, r)
    | 'f' :: r => (readWord ['a', 'l', 's', 'e'] r).map fun r => (.boolean false, r)
    | '"' :: r => (readString r).map fun (text, r) => (.string (Text.quoted text), r)
    | '[' :: r => .ok (.sequence, '[' :: r)
    | '{' :: r => .ok (.map, '{' :: r)
    | '-' :: r => (readNumber true r).map fun (n, r) => (n.found, r)
    | c :: r =>
      if isDigit c then (readNumber false (c :: r)).map fun (n, r) => (n.found, r)
      else .error (.ahead .expectedValue (c :: r))
    | [] => .error (.ahead .eofInValue [])
  match result with
  | .ok (found, rest) => ⟨.invalidType found expected, rest, 0⟩
  | .error f => f

/-- Nothing but blanks may follow the value. -/
def readEnd {α : Type} (value : α) (s : List Char) : Except Fault α :=
  match skipBlank s with
  | [] => .ok value
  | s => .error (.ahead .trailingCharacters s)

end TimedCondvar.Json
