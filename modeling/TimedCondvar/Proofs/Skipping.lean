import Mathlib.Data.List.DropRight
import TimedCondvar.Proofs.Tokens

/-!
What is skipped is a well-formed value, and every well-formed value is skipped. A number has no
mark at its end, so it is skipped as a whole only if what stands behind it cannot go on it.
Blanks, commas and closing brackets cannot, and nothing else may stand behind a value.
-/

namespace TimedCondvar.Json

variable {c : Char} {s s' s'' r : List Char}

/-! ### Numbers -/

/-- Characters that may stand inside a number, behind its first digit. -/
def goesOn (c : Char) : Bool := isDigit c || c = '.' || c = 'e' || c = 'E'

theorem stops_digit_of_goesOn (stops : Stops goesOn r) : Stops isDigit r := by
  apply stops.mono
  intro c hc
  simp [goesOn, hc]

theorem sign_of_skipExponent (h : skipExponent s = .ok r) : ∃ s', Sign s s' ∧ Digits s' r := by
  unfold skipExponent at h
  extract_lets s' at h
  have sign : Sign s s' := by
    dsimp only [s']
    split
    · exact .plus
    · exact .minus
    · exact .none
  refine ⟨s', sign, ?_⟩
  clear_value s'
  split at h
  · cases h
  split at h
  next digit => cases h; exact .mk digit (span_dropWhile _)
  · cases h

theorem Sign.skipExponent_eq (sign : Sign s s') (digits : Digits s' r) (stops : Stops isDigit r) :
    skipExponent s = .ok r := by
  cases digits with
  | @mk c t r first rest =>
      have hrest : skipDigits t = r := rest.dropWhile_eq stops
      cases sign with
      | none =>
          unfold skipExponent
          split
          next heq => cases heq; exact absurd first (by decide)
          next heq => cases heq; exact absurd first (by decide)
          next => simp [first, hrest]
      | plus => simp [skipExponent, first, hrest]
      | minus => simp [skipExponent, first, hrest]

theorem exponent_of_skipExponent? (h : skipExponent? s = .ok r) : Exponent s r := by
  cases s with
  | nil => cases h; exact .none
  | cons c s =>
      rw [skipExponent?] at h
      split at h
      next letter =>
        obtain ⟨s', sign, digits⟩ := sign_of_skipExponent h
        exact .power letter sign digits
      · cases h; exact .none

theorem Exponent.skipExponent?_eq (exponent : Exponent s r) (stops : Stops goesOn r) :
    skipExponent? s = .ok r := by
  cases exponent with
  | none =>
      cases s with
      | nil => rfl
      | cons c s =>
          rw [skipExponent?, if_neg]
          have := stops c rfl
          rintro (rfl | rfl) <;> cases this
  | power letter sign digits =>
      rw [skipExponent?, if_pos letter]
      exact sign.skipExponent_eq digits (stops_digit_of_goesOn stops)

/-- An exponent does not go on the digits in front of it. -/
theorem Exponent.stops (exponent : Exponent s r) (stops : Stops goesOn r) : Stops isDigit s := by
  cases exponent with
  | none => exact stops_digit_of_goesOn stops
  | power letter sign digits =>
      apply stops_cons
      rcases letter with rfl | rfl <;> decide

theorem fraction_of_skipFraction? (h : skipFraction? s = .ok r) :
    ∃ s', Fraction s s' ∧ Exponent s' r := by
  unfold skipFraction? at h
  split at h
  · split at h
    · cases h
    split at h
    next digit =>
      exact ⟨_, .point (.mk digit (span_dropWhile _)), exponent_of_skipExponent? h⟩
    · cases h
  · exact ⟨_, .none, exponent_of_skipExponent? h⟩

theorem Fraction.skipFraction?_eq (fraction : Fraction s s') (exponent : Exponent s' r)
    (stops : Stops goesOn r) : skipFraction? s = .ok r := by
  cases fraction with
  | none =>
      unfold skipFraction?
      split
      next =>
        -- A point in front of an exponent would go on the number.
        cases exponent with
        | none => cases stops '.' rfl
        | power letter sign digits => simp at letter
      next => exact exponent.skipExponent?_eq stops
  | point digits =>
      cases digits with
      | mk first rest =>
          rw [skipFraction?, if_pos first, skipDigits, rest.dropWhile_eq (exponent.stops stops)]
          exact exponent.skipExponent?_eq stops

theorem Fraction.stops (fraction : Fraction s s') (stops : Stops isDigit s') : Stops isDigit s := by
  cases fraction with
  | none => exact stops
  | point digits => exact stops_cons (by decide)

theorem unsigned_of_skipNumber (h : skipNumber s = .ok r) : Unsigned s r := by
  unfold skipNumber at h
  split at h
  · cases h
  · split at h
    · cases h
    · obtain ⟨s', fraction, exponent⟩ := fraction_of_skipFraction? h
      exact .mk .zero fraction exponent
  next noZero =>
    split at h
    next digit =>
      obtain ⟨s', fraction, exponent⟩ := fraction_of_skipFraction? h
      exact .mk (.digits noZero (.mk digit (span_dropWhile _))) fraction exponent
    · cases h

theorem Unsigned.skipNumber_eq (number : Unsigned s r) (stops : Stops goesOn r) :
    skipNumber s = .ok r := by
  cases number with
  | mk whole fraction exponent =>
      have hstops := fraction.stops (exponent.stops stops)
      cases whole with
      | zero =>
          rw [skipNumber, if_neg]
          · exact fraction.skipFraction?_eq exponent stops
          · intro h
            obtain ⟨c, hc, digit⟩ := (Option.any_eq_true _ _).1 h
            rw [hstops c hc] at digit
            cases digit
      | digits noZero digits =>
          cases digits with
          | mk first rest =>
              rw [skipNumber, if_pos first, skipDigits, rest.dropWhile_eq hstops]
              · exact fraction.skipFraction?_eq exponent stops
              · exact noZero

theorem Unsigned.head (number : Unsigned s r) : ∃ c t, s = c :: t ∧ isDigit c = true := by
  cases number with
  | mk whole fraction exponent =>
      cases whole with
      | zero => exact ⟨_, _, rfl, by decide⟩
      | digits noZero digits =>
          cases digits with
          | mk first rest => exact ⟨_, _, rfl, first⟩

/-! ### Values -/

/-- The reader of a part. -/
def Part.skip : Part → Nat → List Char → Except Fault (List Char)
  | .value => skipAny
  | .elements => skipElements
  | .members => skipMembers

theorem skipBlank_skipBlank (s : List Char) : skipBlank (skipBlank s) = skipBlank s :=
  List.dropWhile_idempotent isBlank s

/-! ### What is skipped -/

/-- With this fuel the readers skip nothing but what is well-formed. -/
def Sound (fuel : Nat) : Prop :=
  ∀ {part : Part} {s r : List Char}, part.skip fuel s = .ok r → WellFormed part (skipBlank s) r

theorem Sound.array {fuel : Nat} (sound : Sound fuel)
    (h : skipElements fuel (skipBlank s) = .ok r) : WellFormed .value ('[' :: s) r := by
  have elements : WellFormed .elements (skipBlank (skipBlank s)) r := sound h
  rw [skipBlank_skipBlank] at elements
  exact .array (blanks_skipBlank s) elements

theorem Sound.object {fuel : Nat} (sound : Sound fuel)
    (h : skipMembers fuel (skipBlank s) = .ok r) : WellFormed .value ('{' :: s) r := by
  have members : WellFormed .members (skipBlank (skipBlank s)) r := sound h
  rw [skipBlank_skipBlank] at members
  exact .object (blanks_skipBlank s) members

theorem Sound.value {fuel : Nat} (sound : Sound fuel) (h : skipAny (fuel + 1) s = .ok r) :
    WellFormed .value (skipBlank s) r := by
  rw [skipAny] at h
  generalize skipBlank s = t at h ⊢
  split at h
  · cases h
  next => rw [readWord_eq_ok_iff.1 h]; exact .nullWord
  next => rw [readWord_eq_ok_iff.1 h]; exact .trueWord
  next => rw [readWord_eq_ok_iff.1 h]; exact .falseWord
  next => exact .number (.negative (unsigned_of_skipNumber h))
  next => exact .string (skipString_eq_ok_iff.1 h)
  next =>
    split at h
    · cases h
    next hs => cases h; exact .emptyArray (blanks_of_skipBlank hs)
    next => exact sound.array h
  next =>
    split at h
    · cases h
    next hs => cases h; exact .emptyObject (blanks_of_skipBlank hs)
    next => exact sound.object h
  next =>
    split at h
    · exact .number (.positive (unsigned_of_skipNumber h))
    · cases h

theorem Sound.elements {fuel : Nat} (sound : Sound fuel) (h : skipElements (fuel + 1) s = .ok r) :
    WellFormed .elements (skipBlank s) r := by
  rw [skipElements] at h
  obtain ⟨s₁, h₁, h⟩ := bind_eq_ok_iff.1 h
  have value : WellFormed .value (skipBlank s) s₁ := sound h₁
  split at h
  · cases h
  next s₂ hs =>
    exact .element value (blanks_of_skipBlank hs) (blanks_skipBlank s₂) (sound h)
  next hs => cases h; exact .lastElement value (blanks_of_skipBlank hs)
  · cases h

theorem Sound.members {fuel : Nat} (sound : Sound fuel) (h : skipMembers (fuel + 1) s = .ok r) :
    WellFormed .members (skipBlank s) r := by
  rw [skipMembers] at h
  obtain ⟨s₁, h₁, h⟩ := bind_eq_ok_iff.1 h
  obtain ⟨s₂, h₂, h⟩ := bind_eq_ok_iff.1 h
  have key := skipKey_eq_ok_iff.1 h₁
  have value : WellFormed .value (skipBlank s₁) s₂ := sound h₂
  split at h
  · cases h
  next s₃ hs =>
    exact .member key (blanks_skipBlank s₁) value (blanks_of_skipBlank hs) (blanks_skipBlank s₃)
      (sound h)
  next hs =>
    cases h
    exact .lastMember key (blanks_skipBlank s₁) value (blanks_of_skipBlank hs)
  · cases h

theorem sound (fuel : Nat) : Sound fuel := by
  induction fuel with
  | zero =>
      intro part s r h
      cases part <;> cases h
  | succ fuel ih =>
      intro part s r h
      cases part with
      | value => exact ih.value h
      | elements => exact ih.elements h
      | members => exact ih.members h

theorem wellFormed_of_skipValue (h : skipValue s = .ok r) : WellFormed .value (skipBlank s) r := by
  exact sound (2 * s.length + 2) h

/-! ### How a value begins -/

theorem isBlank_of_isDigit (digit : isDigit c = true) : isBlank c = false := by
  simp only [isDigit, Bool.and_eq_true, decide_eq_true_eq] at digit
  simp only [isBlank, Bool.or_eq_false_iff, decide_eq_false_iff_not]
  refine ⟨⟨⟨?_, ?_⟩, ?_⟩, ?_⟩ <;> (rintro rfl; revert digit; decide)

/-- How a part begins: not with a blank, and not with a bracket that would end it at once. -/
theorem WellFormed.head {part : Part} (form : WellFormed part s r) :
    ∃ c t, s = c :: t ∧ isBlank c = false ∧ c ≠ ']' ∧ c ≠ '}' := by
  induction form with
  | number number =>
      cases number with
      | positive number =>
          obtain ⟨c, t, rfl, digit⟩ := number.head
          refine ⟨c, t, rfl, isBlank_of_isDigit digit, ?_, ?_⟩ <;> rintro rfl <;>
            exact absurd digit (by decide)
      | negative number => exact ⟨_, _, rfl, by decide⟩
  | lastElement value close ih => exact ih
  | element value comma blanks rest ih _ => exact ih
  | lastMember key => cases key; exact ⟨_, _, rfl, by decide⟩
  | member key => cases key; exact ⟨_, _, rfl, by decide⟩
  | _ => exact ⟨_, _, rfl, by decide⟩

theorem WellFormed.skipBlank_eq {part : Part} (form : WellFormed part s r)
    (blanks : Blanks s' s) : skipBlank s' = s := by
  obtain ⟨c, t, rfl, notBlank, -⟩ := form.head
  exact blanks.skipBlank_eq notBlank

theorem skipAny_of_digit {fuel : Nat} (hs : skipBlank s = c :: s') (digit : isDigit c = true) :
    skipAny (fuel + 1) s = skipNumber (c :: s') := by
  rw [skipAny, hs]
  split
  case h_9 heq => cases heq; exact if_pos digit
  all_goals
    next heq => cases heq <;> exact absurd digit (by decide)

/-! ### Lengths -/

theorem Digits.length_lt (digits : Digits s r) : r.length < s.length := by
  cases digits with
  | mk first rest => exact Nat.lt_succ_of_le rest.length_le

theorem Whole.length_lt (whole : Whole s r) : r.length < s.length := by
  cases whole with
  | zero => exact Nat.lt_succ_self _
  | digits noZero digits => exact digits.length_lt

theorem Fraction.length_le (fraction : Fraction s r) : r.length ≤ s.length := by
  cases fraction with
  | none => exact Nat.le_refl _
  | point digits => exact Nat.le_succ_of_le digits.length_lt.le

theorem Sign.length_le (sign : Sign s r) : r.length ≤ s.length := by
  cases sign with
  | none => exact Nat.le_refl _
  | plus | minus => exact Nat.le_succ _

theorem Exponent.length_le (exponent : Exponent s r) : r.length ≤ s.length := by
  cases exponent with
  | none => exact Nat.le_refl _
  | power letter sign digits =>
      exact Nat.le_succ_of_le (digits.length_lt.le.trans sign.length_le)

theorem NumberForm.length_lt (number : NumberForm s r) : r.length < s.length := by
  have unsigned {s : List Char} (number : Unsigned s r) : r.length < s.length := by
    cases number with
    | mk whole fraction exponent =>
        exact (exponent.length_le.trans fraction.length_le).trans_lt whole.length_lt
  cases number with
  | positive number => exact unsigned number
  | negative number => exact Nat.lt_succ_of_lt (unsigned number)

theorem WellFormed.length_le {part : Part} (form : WellFormed part s r) :
    r.length ≤ s.length := by
  induction form with
  | nullWord | trueWord | falseWord => simp only [List.length_cons]; omega
  | number number => exact number.length_lt.le
  | string string => exact Nat.le_succ_of_le string.length_lt.le
  | emptyArray close | emptyObject close =>
      exact Nat.le_succ_of_le (Nat.le_of_succ_le close.length_le)
  | array blanks _ ih | object blanks _ ih =>
      exact Nat.le_succ_of_le (ih.trans blanks.length_le)
  | lastElement value close ih => exact (Nat.le_of_succ_le close.length_le).trans ih
  | element value comma blanks rest ih ih' =>
      exact (ih'.trans blanks.length_le).trans ((Nat.le_of_succ_le comma.length_le).trans ih)
  | lastMember key blanks value close ih =>
      exact (Nat.le_of_succ_le close.length_le).trans
        (ih.trans (blanks.length_le.trans (key.length_le RawChars.length_lt)))
  | member key blanks value comma blanks' rest ih ih' =>
      exact (ih'.trans blanks'.length_le).trans ((Nat.le_of_succ_le comma.length_le).trans
        (ih.trans (blanks.length_le.trans (key.length_le RawChars.length_lt))))

/-! ### What is well-formed is skipped -/

theorem goesOn_of_isBlank (h : isBlank c = true) : goesOn c = false := by
  simp only [isBlank, Bool.or_eq_true, decide_eq_true_eq] at h
  rcases h with ((rfl | rfl) | rfl) | rfl <;> decide

theorem Blanks.stops_goesOn (blanks : Blanks s (c :: r)) (h : goesOn c = false) :
    Stops goesOn s :=
  Span.stops blanks (fun _ => goesOn_of_isBlank) (stops_cons h)

/-- Fuel that is enough for a part. A bracket takes one unit and the part behind it another, and
each part begins with a character of its own. -/
def Part.fuel (s : List Char) : Part → Nat
  | .value => 2 * s.length + 1
  | .elements | .members => 2 * s.length + 2

/-- The reader of a part takes it, with any fuel that is enough. -/
def Part.Skips (part : Part) (s r : List Char) : Prop :=
  ∀ {s' : List Char} {fuel : Nat}, skipBlank s' = s → part.fuel s ≤ fuel →
    part.skip fuel s' = .ok r

theorem Part.skips_of_succ {part : Part}
    (h : ∀ {s' : List Char} {fuel : Nat}, skipBlank s' = s → part.fuel s ≤ fuel + 1 →
      part.skip (fuel + 1) s' = .ok r) : part.Skips s r := by
  intro s' fuel hs hfuel
  cases fuel with
  | zero => cases part <;> cases hfuel
  | succ fuel => exact h hs hfuel

theorem NumberForm.skips (number : NumberForm s r) (ends : Stops goesOn r) :
    Part.value.Skips s r := by
  apply Part.skips_of_succ
  intro s' fuel hs h
  show skipAny (fuel + 1) s' = .ok r
  cases number with
  | positive number =>
      obtain ⟨c, t, rfl, digit⟩ := number.head
      rw [skipAny_of_digit hs digit]
      exact number.skipNumber_eq ends
  | negative number =>
      simp only [skipAny, hs]
      exact number.skipNumber_eq ends

theorem skips_array (blanks : Blanks s s') (elements : WellFormed .elements s' r)
    (skips : Part.elements.Skips s' r) : Part.value.Skips ('[' :: s) r := by
  apply Part.skips_of_succ
  intro t fuel ht h
  have inner : skipElements fuel s' = .ok r := by
    apply skips (elements.skipBlank_eq .nil)
    have := blanks.length_le
    simp only [Part.fuel, List.length_cons] at *
    omega
  have hs := elements.skipBlank_eq blanks
  obtain ⟨c, t', rfl, -, notClose, -⟩ := elements.head
  simp only [Part.skip, skipAny, ht, hs]
  split
  next heq => cases heq
  next heq => cases heq; exact absurd rfl notClose
  next => exact inner

theorem skips_object (blanks : Blanks s s') (members : WellFormed .members s' r)
    (skips : Part.members.Skips s' r) : Part.value.Skips ('{' :: s) r := by
  apply Part.skips_of_succ
  intro t fuel ht h
  have inner : skipMembers fuel s' = .ok r := by
    apply skips (members.skipBlank_eq .nil)
    have := blanks.length_le
    simp only [Part.fuel, List.length_cons] at *
    omega
  have hs := members.skipBlank_eq blanks
  obtain ⟨c, t', rfl, -, -, notClose⟩ := members.head
  simp only [Part.skip, skipAny, ht, hs]
  split
  next heq => cases heq
  next heq => cases heq; exact absurd rfl notClose
  next => exact inner

theorem skips_lastElement (skips : Part.value.Skips s s') (close : Blanks s' (']' :: r)) :
    Part.elements.Skips s r := by
  apply Part.skips_of_succ
  intro t fuel ht h
  simp only [Part.skip, skipElements]
  apply bind_eq_ok_iff.2
  refine ⟨s', skips ht (Nat.le_of_succ_le_succ h), ?_⟩
  rw [close.skipBlank_eq (by decide)]
  rfl

theorem skips_element {s₁ s₂ s₃ : List Char} (value : WellFormed .value s s₁)
    (skips : Part.value.Skips s s₁) (comma : Blanks s₁ (',' :: s₂)) (blanks : Blanks s₂ s₃)
    (rest : WellFormed .elements s₃ r) (skipsRest : Part.elements.Skips s₃ r) :
    Part.elements.Skips s r := by
  apply Part.skips_of_succ
  intro t fuel ht h
  simp only [Part.skip, skipElements]
  apply bind_eq_ok_iff.2
  refine ⟨s₁, skips ht (Nat.le_of_succ_le_succ h), ?_⟩
  rw [comma.skipBlank_eq (by decide)]
  apply skipsRest (rest.skipBlank_eq blanks)
  have := value.length_le
  have := comma.length_le
  have := blanks.length_le
  simp only [Part.fuel, List.length_cons] at *
  omega

/-- A key and the value behind it leave fuel for the other members. -/
theorem skips_keyed {s₁ s₂ s₃ : List Char} (key : Key RawChars s s₁) (blanks : Blanks s₁ s₂)
    (value : WellFormed .value s₂ s₃) (skips : Part.value.Skips s₂ s₃) {fuel : Nat}
    (hs : skipBlank s' = s) (h : Part.members.fuel s ≤ fuel + 1) :
    skipKey s' = .ok s₁ ∧ skipAny fuel s₁ = .ok s₃ ∧ 2 * s₃.length + 1 ≤ fuel := by
  have := key.length_le RawChars.length_lt
  have := blanks.length_le
  have := value.length_le
  simp only [Part.fuel] at h
  refine ⟨skipKey_eq_ok_iff.2 (hs ▸ key), skips (value.skipBlank_eq blanks) ?_, by omega⟩
  simp only [Part.fuel]
  omega

theorem skips_lastMember {s₁ s₂ s₃ : List Char} (key : Key RawChars s s₁) (blanks : Blanks s₁ s₂)
    (value : WellFormed .value s₂ s₃) (skips : Part.value.Skips s₂ s₃)
    (close : Blanks s₃ ('}' :: r)) : Part.members.Skips s r := by
  apply Part.skips_of_succ
  intro t fuel ht h
  obtain ⟨hkey, hvalue, -⟩ := skips_keyed key blanks value skips ht h
  simp only [Part.skip, skipMembers]
  apply bind_eq_ok_iff.2
  refine ⟨s₁, hkey, ?_⟩
  apply bind_eq_ok_iff.2
  refine ⟨s₃, hvalue, ?_⟩
  rw [close.skipBlank_eq (by decide)]
  rfl

theorem skips_member {s₁ s₂ s₃ s₄ s₅ : List Char} (key : Key RawChars s s₁)
    (blanks : Blanks s₁ s₂) (value : WellFormed .value s₂ s₃) (skips : Part.value.Skips s₂ s₃)
    (comma : Blanks s₃ (',' :: s₄)) (blanks' : Blanks s₄ s₅) (rest : WellFormed .members s₅ r)
    (skipsRest : Part.members.Skips s₅ r) : Part.members.Skips s r := by
  apply Part.skips_of_succ
  intro t fuel ht h
  obtain ⟨hkey, hvalue, hfuel⟩ := skips_keyed key blanks value skips ht h
  simp only [Part.skip, skipMembers]
  apply bind_eq_ok_iff.2
  refine ⟨s₁, hkey, ?_⟩
  apply bind_eq_ok_iff.2
  refine ⟨s₃, hvalue, ?_⟩
  rw [comma.skipBlank_eq (by decide)]
  apply skipsRest (rest.skipBlank_eq blanks')
  have := comma.length_le
  have := blanks'.length_le
  simp only [Part.fuel, List.length_cons] at *
  omega

/-- Only a value needs to know what stands behind it, as it may be a number. -/
theorem WellFormed.skips {part : Part} (form : WellFormed part s r)
    (ends : part = .value → Stops goesOn r) : part.Skips s r := by
  induction form with
  | nullWord | trueWord | falseWord =>
      apply Part.skips_of_succ
      intro s' fuel hs h
      simp only [Part.skip, skipAny, hs]
      rfl
  | number number => exact number.skips (ends rfl)
  | string string =>
      apply Part.skips_of_succ
      intro s' fuel hs h
      simp only [Part.skip, skipAny, hs]
      exact skipString_eq_ok_iff.2 string
  | emptyArray close | emptyObject close =>
      apply Part.skips_of_succ
      intro s' fuel hs h
      simp only [Part.skip, skipAny, hs, close.skipBlank_eq (by decide)]
  | array blanks elements ih => exact skips_array blanks elements (ih (by intro h; cases h))
  | object blanks members ih => exact skips_object blanks members (ih (by intro h; cases h))
  | lastElement value close ih =>
      exact skips_lastElement (ih fun _ => close.stops_goesOn (by decide)) close
  | element value comma blanks rest ih ih' =>
      exact skips_element value (ih fun _ => comma.stops_goesOn (by decide)) comma blanks rest
        (ih' (by intro h; cases h))
  | lastMember key blanks value close ih =>
      exact skips_lastMember key blanks value (ih fun _ => close.stops_goesOn (by decide)) close
  | member key blanks value comma blanks' rest ih ih' =>
      exact skips_member key blanks value (ih fun _ => comma.stops_goesOn (by decide)) comma
        blanks' rest (ih' (by intro h; cases h))

theorem WellFormed.skipValue_eq (form : WellFormed .value s r) (ends : Stops goesOn r)
    (blanks : Blanks s' s) : skipValue s' = .ok r := by
  apply form.skips (fun _ => ends) (form.skipBlank_eq blanks)
  have := blanks.length_le
  simp only [Part.fuel]
  omega

end TimedCondvar.Json
