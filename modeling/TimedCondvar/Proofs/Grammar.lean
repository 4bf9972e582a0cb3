import TimedCondvar.Config.Reader

/-!
The grammar of configurations. Each form is a relation between a text that begins with it and what
is left of the text behind it. No reader is used here. Blanks stand in front of a form or between
its tokens where a rule says so, and no form begins with one.

Strings come in two kinds. A string whose characters matter spells them out, and a character
beyond the basic plane as a pair of surrogates. A string that is passed over need only end, so a
surrogate may stand alone in it.
-/

namespace TimedCondvar.Json

/-! ### Tokens -/

/-- Characters that `p` holds of, any number of them. -/
inductive Span (p : Char → Bool) : List Char → List Char → Prop
  | nil {r : List Char} : Span p r r
  | cons {c : Char} {s r : List Char} (head : p c = true) (rest : Span p s r) : Span p (c :: s) r

abbrev Blanks : List Char → List Char → Prop := Span isBlank

/-- The number that four hexadecimal digits write. -/
inductive Hex4 : Nat → List Char → List Char → Prop
  | mk {a b c d : Char} {i j k l : Nat} {r : List Char} (first : hexDigit? a = some i)
      (second : hexDigit? b = some j) (third : hexDigit? c = some k)
      (fourth : hexDigit? d = some l) :
      Hex4 (((i * 16 + j) * 16 + k) * 16 + l) (a :: b :: c :: d :: r) r

/-- The first surrogate of a character beyond the basic plane. -/
def highHalf (d : Char) : Nat := 0xD800 + (d.toNat - 0x10000) / 0x400

/-- The second one. -/
def lowHalf (d : Char) : Nat := 0xDC00 + (d.toNat - 0x10000) % 0x400

/-- An escape behind its backslash, and the character it stands for. -/
inductive Escape : Char → List Char → List Char → Prop
  | letter {c d : Char} {r : List Char} (letter : simpleEscape? c = some d) : Escape d (c :: r) r
  | unicode {d : Char} {s r : List Char} (digits : Hex4 d.toNat s r) : Escape d ('u' :: s) r
  | pair {d : Char} {s s' r : List Char} (beyond : 0x10000 ≤ d.toNat)
      (high : Hex4 (highHalf d) s ('\\' :: 'u' :: s')) (low : Hex4 (lowHalf d) s' r) :
      Escape d ('u' :: s) r

/-- An escape that is passed over. -/
inductive RawEscape : List Char → List Char → Prop
  | letter {c d : Char} {r : List Char} (letter : simpleEscape? c = some d) : RawEscape (c :: r) r
  | unicode {n : Nat} {s r : List Char} (digits : Hex4 n s r) : RawEscape ('u' :: s) r

/-- A string behind its opening quote, and the characters in it. -/
inductive Chars : List Char → List Char → List Char → Prop
  | quote {r : List Char} : Chars [] ('"' :: r) r
  | plain {c : Char} {cs s r : List Char} (notQuote : c ≠ '"') (notBackslash : c ≠ '\\')
      (visible : isControl c = false) (rest : Chars cs s r) : Chars (c :: cs) (c :: s) r
  | escape {d : Char} {cs s s' r : List Char} (escape : Escape d s s') (rest : Chars cs s' r) :
      Chars (d :: cs) ('\\' :: s) r

/-- A string that is passed over, behind its opening quote. -/
inductive RawChars : List Char → List Char → Prop
  | quote {r : List Char} : RawChars ('"' :: r) r
  | plain {c : Char} {s r : List Char} (notQuote : c ≠ '"') (notBackslash : c ≠ '\\')
      (visible : isControl c = false) (rest : RawChars s r) : RawChars (c :: s) r
  | escape {s s' r : List Char} (escape : RawEscape s s') (rest : RawChars s' r) :
      RawChars ('\\' :: s) r

/-- A key and its colon. The form of its string is left open. -/
inductive Key (form : List Char → List Char → Prop) : List Char → List Char → Prop
  | mk {s s' r : List Char} (string : form s s') (colon : Blanks s' (':' :: r)) :
      Key form ('"' :: s) r

/-! ### Numbers -/

inductive Digits : List Char → List Char → Prop
  | mk {c : Char} {s r : List Char} (first : isDigit c = true) (rest : Span isDigit s r) :
      Digits (c :: s) r

/-- The digits before the point. No zero stands in front of others. -/
inductive Whole : List Char → List Char → Prop
  | zero {r : List Char} : Whole ('0' :: r) r
  | digits {c : Char} {s r : List Char} (noZero : c ≠ '0') (digits : Digits (c :: s) r) :
      Whole (c :: s) r

inductive Fraction : List Char → List Char → Prop
  | none {r : List Char} : Fraction r r
  | point {s r : List Char} (digits : Digits s r) : Fraction ('.' :: s) r

inductive Sign : List Char → List Char → Prop
  | none {r : List Char} : Sign r r
  | plus {r : List Char} : Sign ('+' :: r) r
  | minus {r : List Char} : Sign ('-' :: r) r

inductive Exponent : List Char → List Char → Prop
  | none {r : List Char} : Exponent r r
  | power {e : Char} {s s' r : List Char} (letter : e = 'e' ∨ e = 'E') (sign : Sign s s')
      (digits : Digits s' r) : Exponent (e :: s) r

/-- A number behind its sign. -/
inductive Unsigned : List Char → List Char → Prop
  | mk {s s' s'' r : List Char} (whole : Whole s s') (fraction : Fraction s' s'')
      (exponent : Exponent s'' r) : Unsigned s r

inductive NumberForm : List Char → List Char → Prop
  | positive {s r : List Char} (number : Unsigned s r) : NumberForm s r
  | negative {s r : List Char} (number : Unsigned s r) : NumberForm ('-' :: s) r

/-! ### Values of any kind -/

/-- What a rule about values is for: a value, or the elements of an array or the members of an
object from the first of them to the bracket behind the last. -/
inductive Part
  | value
  | elements
  | members

inductive WellFormed : Part → List Char → List Char → Prop
  | nullWord {r : List Char} : WellFormed .value ('n' :: 'u' :: 'l' :: 'l' :: r) r
  | trueWord {r : List Char} : WellFormed .value ('t' :: 'r' :: 'u' :: 'e' :: r) r
  | falseWord {r : List Char} : WellFormed .value ('f' :: 'a' :: 'l' :: 's' :: 'e' :: r) r
  | number {s r : List Char} (number : NumberForm s r) : WellFormed .value s r
  | string {s r : List Char} (string : RawChars s r) : WellFormed .value ('"' :: s) r
  | emptyArray {s r : List Char} (close : Blanks s (']' :: r)) : WellFormed .value ('[' :: s) r
  | array {s s' r : List Char} (blanks : Blanks s s') (elements : WellFormed .elements s' r) :
      WellFormed .value ('[' :: s) r
  | emptyObject {s r : List Char} (close : Blanks s ('}' :: r)) : WellFormed .value ('{' :: s) r
  | object {s s' r : List Char} (blanks : Blanks s s') (members : WellFormed .members s' r) :
      WellFormed .value ('{' :: s) r
  | lastElement {s s' r : List Char} (value : WellFormed .value s s')
      (close : Blanks s' (']' :: r)) : WellFormed .elements s r
  | element {s s₁ s₂ s₃ r : List Char} (value : WellFormed .value s s₁)
      (comma : Blanks s₁ (',' :: s₂)) (blanks : Blanks s₂ s₃)
      (rest : WellFormed .elements s₃ r) : WellFormed .elements s r
  | lastMember {s s₁ s₂ s₃ r : List Char} (key : Key RawChars s s₁) (blanks : Blanks s₁ s₂)
      (value : WellFormed .value s₂ s₃) (close : Blanks s₃ ('}' :: r)) : WellFormed .members s r
  | member {s s₁ s₂ s₃ s₄ s₅ r : List Char} (key : Key RawChars s s₁) (blanks : Blanks s₁ s₂)
      (value : WellFormed .value s₂ s₃) (comma : Blanks s₃ (',' :: s₄)) (blanks' : Blanks s₄ s₅)
      (rest : WellFormed .members s₅ r) : WellFormed .members s r

/-! ### Configurations -/

/-- A clock by its name: a string, or an object whose only member has that name and is null. -/
inductive NameForm (name : List Char) : List Char → List Char → Prop
  | string {s r : List Char} (string : Chars name s r) : NameForm name ('"' :: s) r
  | object {s s₁ s₂ s₃ r : List Char} (blanks : Blanks s s₁) (key : Key (Chars name) s₁ s₂)
      (null : Blanks s₂ ('n' :: 'u' :: 'l' :: 'l' :: s₃)) (close : Blanks s₃ ('}' :: r)) :
      NameForm name ('{' :: s) r

/-- A member of a configuration, and the clock it names. A member of another key names none,
whatever its value. -/
inductive Field : Option (List Char) → List Char → List Char → Prop
  | clock {name s s₁ s₂ r : List Char} (key : Key (Chars "clock".toList) s s₁)
      (blanks : Blanks s₁ s₂) (value : NameForm name s₂ r) : Field (some name) s r
  | other {label s s₁ s₂ r : List Char} (other : label ≠ "clock".toList)
      (key : Key (Chars label) s s₁) (blanks : Blanks s₁ s₂) (value : WellFormed .value s₂ r) :
      Field none s r

/-- The members behind the first one with the brace behind them, and the clocks they name. -/
inductive Fields : List (List Char) → List Char → List Char → Prop
  | close {s r : List Char} (close : Blanks s ('}' :: r)) : Fields [] s r
  | member {name : Option (List Char)} {names : List (List Char)} {s s₁ s₂ s₃ r : List Char}
      (comma : Blanks s (',' :: s₁)) (blanks : Blanks s₁ s₂) (field : Field name s₂ s₃)
      (rest : Fields names s₃ r) : Fields (name.toList ++ names) s r

/-- An object or an array, and the clocks it names. -/
inductive ConfigForm : List (List Char) → List Char → List Char → Prop
  | emptyObject {s r : List Char} (close : Blanks s ('}' :: r)) : ConfigForm [] ('{' :: s) r
  | object {name : Option (List Char)} {names : List (List Char)} {s s₁ s₂ r : List Char}
      (blanks : Blanks s s₁) (field : Field name s₁ s₂) (rest : Fields names s₂ r) :
      ConfigForm (name.toList ++ names) ('{' :: s) r
  | emptyArray {s r : List Char} (close : Blanks s (']' :: r)) : ConfigForm [] ('[' :: s) r
  | array {name s s₁ s₂ r : List Char} (blanks : Blanks s s₁) (clock : NameForm name s₁ s₂)
      (close : Blanks s₂ (']' :: r)) : ConfigForm [name] ('[' :: s) r

/-- A whole text that is a configuration, with blanks around it. -/
inductive ConfigText : List (List Char) → List Char → Prop
  | mk {names : List (List Char)} {s s' r : List Char} (before : Blanks s s')
      (form : ConfigForm names s' r) (after : Blanks r []) : ConfigText names s

/-- What the clocks named in a configuration come to. None leaves the default, and one is taken if
it is known; all else is refused. -/
def named? : List (List Char) → Option (Option Clock)
  | [] => some none
  | [name] => (Clock.ofKey? (String.ofList name)).map some
  | _ => none

end TimedCondvar.Json
