import TimedCondvar.Proofs.Grammar

/-!
The readers of tokens follow the grammar. What a reader of strings takes is a string, and every
string is read whatever stands behind it, as its end is marked. A run of blanks or digits has no
mark, so the reader takes as many as there are, and a form takes as many if none stands behind it.
-/

namespace TimedCondvar.Json

variable {p q : Char → Bool} {c d : Char} {n m : Nat} {s s' r : List Char} {cs : List Char}

/-! ### Results -/

theorem bind_eq_ok_iff {ε α β : Type} {x : Except ε α} {f : α → Except ε β} {b : β} :
    x.bind f = .ok b ↔ ∃ a, x = .ok a ∧ f a = .ok b := by
  cases x with
  | error e => simp [Except.bind]
  | ok a => simp [Except.bind]

theorem map_eq_ok_iff {ε α β : Type} {x : Except ε α} {f : α → β} {b : β} :
    x.map f = .ok b ↔ ∃ a, x = .ok a ∧ f a = b := by
  cases x with
  | error e => simp [Except.map]
  | ok a => simp [Except.map]

/-! ### Runs of characters -/

/-- A text that does not begin with a character of `p`. -/
def Stops (p : Char → Bool) (s : List Char) : Prop := ∀ c ∈ s.head?, p c = false

theorem stops_cons (h : p c = false) : Stops p (c :: r) := by
  intro d hd
  cases hd
  exact h

theorem Stops.mono (stops : Stops q s) (h : ∀ c, p c = true → q c = true) : Stops p s := by
  intro c hc
  have := stops c hc
  cases hp : p c with
  | false => rfl
  | true => rw [h c hp] at this; cases this

theorem Span.length_le (span : Span p s r) : r.length ≤ s.length := by
  induction span with
  | nil => exact Nat.le_refl _
  | cons head rest ih => exact Nat.le_succ_of_le ih

theorem Span.stops (span : Span p s r) (h : ∀ c, p c = true → q c = false) (stops : Stops q r) :
    Stops q s := by
  cases span with
  | nil => exact stops
  | cons head rest => exact stops_cons (h _ head)

theorem span_dropWhile (s : List Char) : Span p s (s.dropWhile p) := by
  induction s with
  | nil => exact .nil
  | cons c s ih =>
      rw [List.dropWhile_cons]
      split
      next h => exact .cons h ih
      next h => exact .nil

theorem Span.dropWhile_eq (span : Span p s r) (stops : Stops p r) : s.dropWhile p = r := by
  induction span with
  | @nil r =>
      cases r with
      | nil => rfl
      | cons c r => rw [List.dropWhile_cons_of_neg]; simp [stops c rfl]
  | cons head rest ih => rw [List.dropWhile_cons_of_pos head]; exact ih stops

theorem blanks_skipBlank (s : List Char) : Blanks s (skipBlank s) := span_dropWhile s

theorem blanks_of_skipBlank (h : skipBlank s = r) : Blanks s r := by
  rw [← h]
  exact blanks_skipBlank s

/-- All blanks in front of a token are skipped. -/
theorem Blanks.skipBlank_eq (blanks : Blanks s (c :: r)) (hc : isBlank c = false) :
    skipBlank s = c :: r :=
  blanks.dropWhile_eq (stops_cons hc)

theorem skipBlank_eq_cons_iff (hc : isBlank c = false) :
    skipBlank s = c :: r ↔ Blanks s (c :: r) :=
  ⟨blanks_of_skipBlank, fun blanks => blanks.skipBlank_eq hc⟩

theorem skipBlank_eq_nil_iff : skipBlank s = [] ↔ Blanks s [] := by
  refine ⟨blanks_of_skipBlank, fun blanks => blanks.dropWhile_eq ?_⟩
  intro c hc
  cases hc

theorem readWord_eq_ok_iff {w : List Char} : readWord w s = .ok r ↔ s = w ++ r := by
  induction w generalizing s with
  | nil => simp [readWord]
  | cons c w ih =>
      cases s with
      | nil => simp [readWord]
      | cons d s =>
          rw [readWord, List.cons_append, List.cons.injEq]
          split
          next h => rw [ih]; simp [h]
          next h => simp [h]

/-! ### Hexadecimal digits -/

theorem hexDigit?_lt (h : hexDigit? c = some n) : n < 16 := by
  simp only [hexDigit?, Char.le_def, UInt32.le_iff_toNat_le, Char.toNat_val,
    Char.reduceToNat] at h
  split at h
  next hc => cases h; omega
  split at h
  next hc => cases h; omega
  split at h
  next hc => cases h; omega
  cases h

theorem Hex4.lt (digits : Hex4 n s r) : n < 0x10000 := by
  cases digits with
  | mk first second third fourth =>
      have := hexDigit?_lt first
      have := hexDigit?_lt second
      have := hexDigit?_lt third
      have := hexDigit?_lt fourth
      omega

theorem length_le_byteLength (s : List Char) : s.length ≤ byteLength s := by
  induction s with
  | nil => exact Nat.zero_le _
  | cons c s ih =>
      have := c.utf8Size_pos
      simp only [byteLength, List.foldr_cons, List.length_cons] at ih ⊢
      omega

theorem readHex4_eq_ok_iff : readHex4 s = .ok (n, r) ↔ Hex4 n s r := by
  constructor
  · intro h
    unfold readHex4 at h
    split at h
    · cases h
    split at h
    · split at h
      next ha hb hc hd => cases h; exact .mk ha hb hc hd
      · cases h
    · cases h
  · intro h
    cases h with
    | @mk a b c d _ _ _ _ _ first second third fourth =>
        rw [readHex4, if_neg]
        · simp only [first, second, third, fourth]
        · exact Nat.not_lt.2 (length_le_byteLength [a, b, c, d])

/-! ### Surrogates -/

theorem isHighSurrogate_iff : isHighSurrogate n = true ↔ 0xD800 ≤ n ∧ n ≤ 0xDBFF := by
  simp [isHighSurrogate]

theorem isLowSurrogate_iff : isLowSurrogate n = true ↔ 0xDC00 ≤ n ∧ n ≤ 0xDFFF := by
  simp [isLowSurrogate]

theorem toNat_ofNat_of_valid (h : n.isValidChar) : (Char.ofNat n).toNat = n := by
  rw [Char.ofNat, dif_pos h]
  rfl

/-- A number of four digits that is no surrogate is that of a character. -/
theorem toNat_ofNat_of_lt (h : n < 0x10000) (notLow : ¬ isLowSurrogate n = true)
    (notHigh : ¬ isHighSurrogate n = true) : (Char.ofNat n).toNat = n := by
  apply toNat_ofNat_of_valid
  rw [isLowSurrogate_iff] at notLow
  rw [isHighSurrogate_iff] at notHigh
  rw [Nat.isValidChar]
  omega

/-- No character is a surrogate. -/
theorem not_surrogate (d : Char) :
    ¬ isLowSurrogate d.toNat = true ∧ ¬ isHighSurrogate d.toNat = true := by
  have valid : d.toNat < 0xD800 ∨ 0xDFFF < d.toNat ∧ d.toNat < 0x110000 := d.valid
  rw [isLowSurrogate_iff, isHighSurrogate_iff]
  omega

/-- A pair of surrogates is read as the character that is written with it. -/
theorem ofSurrogates_spec (high : isHighSurrogate n = true) (low : isLowSurrogate m = true) :
    0x10000 ≤ (ofSurrogates n m).toNat ∧ highHalf (ofSurrogates n m) = n ∧
      lowHalf (ofSurrogates n m) = m := by
  rw [isHighSurrogate_iff] at high
  rw [isLowSurrogate_iff] at low
  have h : (ofSurrogates n m).toNat = 0x10000 + (n - 0xD800) * 0x400 + (m - 0xDC00) := by
    apply toNat_ofNat_of_valid
    rw [Nat.isValidChar]
    omega
  rw [highHalf, lowHalf, h]
  omega

theorem isHighSurrogate_highHalf (d : Char) : isHighSurrogate (highHalf d) = true := by
  have valid : d.toNat < 0xD800 ∨ 0xDFFF < d.toNat ∧ d.toNat < 0x110000 := d.valid
  rw [isHighSurrogate_iff, highHalf]
  omega

theorem isLowSurrogate_lowHalf (d : Char) : isLowSurrogate (lowHalf d) = true := by
  rw [isLowSurrogate_iff, lowHalf]
  omega

theorem ofSurrogates_halves (beyond : 0x10000 ≤ d.toNat) :
    ofSurrogates (highHalf d) (lowHalf d) = d := by
  have h : 0x10000 + (highHalf d - 0xD800) * 0x400 + (lowHalf d - 0xDC00) = d.toNat := by
    rw [highHalf, lowHalf]
    omega
  rw [ofSurrogates, h, Char.ofNat_toNat]

/-! ### Escapes -/

theorem escape_of_readUnicode (h : readUnicode s = .ok (d, r)) : Escape d ('u' :: s) r := by
  obtain ⟨⟨n, s'⟩, h₁, h⟩ := bind_eq_ok_iff.1 h
  have first := readHex4_eq_ok_iff.1 h₁
  dsimp only at h
  split at h
  · cases h
  next notLow =>
    split at h
    next high =>
      split at h
      · cases h
      · cases h
      · obtain ⟨⟨m, s''⟩, h₂, h⟩ := bind_eq_ok_iff.1 h
        dsimp only at h
        split at h
        next low =>
          obtain ⟨rfl, rfl⟩ := Prod.mk.inj (Except.ok.inj h)
          obtain ⟨beyond, hn, hm⟩ := ofSurrogates_spec high low
          apply Escape.pair beyond
          · rw [hn]
            exact first
          · rw [hm]
            exact readHex4_eq_ok_iff.1 h₂
        · cases h
      · cases h
      · cases h
    next notHigh =>
      cases h
      apply Escape.unicode
      rw [toNat_ofNat_of_lt first.lt notLow notHigh]
      exact first

theorem Escape.readUnicode_eq (escape : Escape d ('u' :: s) r) : readUnicode s = .ok (d, r) := by
  cases escape with
  | letter h => cases h
  | unicode digits =>
      obtain ⟨notLow, notHigh⟩ := not_surrogate d
      apply bind_eq_ok_iff.2
      refine ⟨_, readHex4_eq_ok_iff.2 digits, ?_⟩
      dsimp only
      rw [if_neg notLow, if_neg notHigh, Char.ofNat_toNat]
  | pair beyond high low =>
      have notLow : ¬ isLowSurrogate (highHalf d) = true := by
        have := isHighSurrogate_highHalf d
        rw [isHighSurrogate_iff] at this
        rw [isLowSurrogate_iff]
        omega
      apply bind_eq_ok_iff.2
      refine ⟨_, readHex4_eq_ok_iff.2 high, ?_⟩
      dsimp only
      rw [if_neg notLow, if_pos (isHighSurrogate_highHalf d)]
      apply bind_eq_ok_iff.2
      refine ⟨_, readHex4_eq_ok_iff.2 low, ?_⟩
      dsimp only
      rw [if_pos (isLowSurrogate_lowHalf d), ofSurrogates_halves beyond]

theorem readEscape_eq_ok_iff : readEscape s = .ok (d, r) ↔ Escape d s r := by
  constructor
  · intro h
    unfold readEscape at h
    split at h
    · cases h
    · exact escape_of_readUnicode h
    · split at h
      next letter => cases h; exact .letter letter
      · cases h
  · intro h
    unfold readEscape
    split
    · cases h
    · exact h.readUnicode_eq
    next c s notU =>
      cases h with
      | letter letter => rw [letter]
      | unicode digits => exact absurd rfl notU
      | pair beyond high low => exact absurd rfl notU

theorem skipEscape_eq_ok_iff : skipEscape s = .ok r ↔ RawEscape s r := by
  constructor
  · intro h
    unfold skipEscape at h
    split at h
    · cases h
    · obtain ⟨⟨n, s'⟩, digits, rfl⟩ := map_eq_ok_iff.1 h
      exact .unicode (readHex4_eq_ok_iff.1 digits)
    · split at h
      next letter => cases h; exact .letter letter
      · cases h
  · intro h
    unfold skipEscape
    split
    · cases h
    · cases h with
      | letter letter => cases letter
      | unicode digits => exact map_eq_ok_iff.2 ⟨_, readHex4_eq_ok_iff.2 digits, rfl⟩
    next c s notU =>
      cases h with
      | letter letter => rw [letter]
      | unicode digits => exact absurd rfl notU

/-! ### Lengths -/

theorem Hex4.length_lt (digits : Hex4 n s r) : r.length < s.length := by
  cases digits
  simp only [List.length_cons]
  omega

theorem Escape.length_lt (escape : Escape d s r) : r.length < s.length := by
  cases escape with
  | letter letter => exact Nat.lt_succ_self _
  | unicode digits => exact Nat.lt_succ_of_lt digits.length_lt
  | pair beyond high low =>
      have := high.length_lt
      have := low.length_lt
      simp only [List.length_cons] at *
      omega

theorem RawEscape.length_lt (escape : RawEscape s r) : r.length < s.length := by
  cases escape with
  | letter letter => exact Nat.lt_succ_self _
  | unicode digits => exact Nat.lt_succ_of_lt digits.length_lt

theorem Chars.length_lt (chars : Chars cs s r) : r.length < s.length := by
  induction chars with
  | quote => exact Nat.lt_succ_self _
  | plain notQuote notBackslash visible rest ih => exact Nat.lt_succ_of_lt ih
  | escape escape rest ih => exact Nat.lt_succ_of_lt (Nat.lt_trans ih escape.length_lt)

theorem RawChars.length_lt (chars : RawChars s r) : r.length < s.length := by
  induction chars with
  | quote => exact Nat.lt_succ_self _
  | plain notQuote notBackslash visible rest ih => exact Nat.lt_succ_of_lt ih
  | escape escape rest ih => exact Nat.lt_succ_of_lt (Nat.lt_trans ih escape.length_lt)

theorem Key.length_le {form : List Char → List Char → Prop} (key : Key form s r)
    (h : ∀ {s r : List Char}, form s r → r.length < s.length) : r.length ≤ s.length := by
  cases key with
  | mk string colon =>
      have := h string
      have := colon.length_le
      simp only [List.length_cons] at *
      omega

/-! ### Strings -/

theorem chars_of_readChars {fuel : Nat} (h : readChars fuel s = .ok (cs, r)) : Chars cs s r := by
  induction fuel generalizing s cs with
  | zero => cases h
  | succ fuel ih =>
      cases s with
      | nil => cases h
      | cons c s =>
          rw [readChars] at h
          split at h
          next hc => cases h; subst hc; exact .quote
          next notQuote =>
          split at h
          next hc =>
            obtain ⟨⟨d, s'⟩, h₁, h⟩ := bind_eq_ok_iff.1 h
            obtain ⟨⟨ds, s''⟩, h₂, h⟩ := bind_eq_ok_iff.1 h
            cases h
            subst hc
            exact .escape (readEscape_eq_ok_iff.1 h₁) (ih h₂)
          next notBackslash =>
          split at h
          · cases h
          next visible =>
            obtain ⟨⟨ds, s'⟩, h₁, h⟩ := bind_eq_ok_iff.1 h
            cases h
            exact .plain notQuote notBackslash (eq_false_of_ne_true visible) (ih h₁)

/-- Any fuel will do that is more than the text is long. -/
theorem Chars.readChars_eq (chars : Chars cs s r) {fuel : Nat} (h : s.length < fuel) :
    readChars fuel s = .ok (cs, r) := by
  induction chars generalizing fuel with
  | quote =>
      cases fuel with
      | zero => cases h
      | succ fuel => rfl
  | plain notQuote notBackslash visible rest ih =>
      cases fuel with
      | zero => cases h
      | succ fuel =>
          rw [readChars, if_neg notQuote, if_neg notBackslash, visible, if_neg Bool.false_ne_true]
          exact bind_eq_ok_iff.2 ⟨_, ih (Nat.lt_of_succ_lt_succ h), rfl⟩
  | escape escape rest ih =>
      cases fuel with
      | zero => cases h
      | succ fuel =>
          have := escape.length_lt
          rw [List.length_cons] at h
          rw [readChars, if_neg (by decide), if_pos rfl]
          apply bind_eq_ok_iff.2
          refine ⟨_, readEscape_eq_ok_iff.2 escape, ?_⟩
          exact bind_eq_ok_iff.2 ⟨_, ih (by omega), rfl⟩

theorem readString_eq_ok_iff {text : String} :
    readString s = .ok (text, r) ↔ Chars text.toList s r := by
  constructor
  · intro h
    obtain ⟨⟨cs, r⟩, h, heq⟩ := map_eq_ok_iff.1 h
    cases heq
    rw [String.toList_ofList]
    exact chars_of_readChars h
  · intro chars
    apply map_eq_ok_iff.2
    refine ⟨_, chars.readChars_eq (Nat.lt_succ_self _), ?_⟩
    dsimp only
    rw [String.ofList_toList]

theorem rawChars_of_skipChars {fuel : Nat} (h : skipChars fuel s = .ok r) : RawChars s r := by
  induction fuel generalizing s with
  | zero => cases h
  | succ fuel ih =>
      cases s with
      | nil => cases h
      | cons c s =>
          rw [skipChars] at h
          split at h
          next hc => cases h; subst hc; exact .quote
          next notQuote =>
          split at h
          next hc =>
            obtain ⟨s', h₁, h⟩ := bind_eq_ok_iff.1 h
            subst hc
            exact .escape (skipEscape_eq_ok_iff.1 h₁) (ih h)
          next notBackslash =>
          split at h
          · cases h
          next visible =>
            exact .plain notQuote notBackslash (eq_false_of_ne_true visible) (ih h)

theorem RawChars.skipChars_eq (chars : RawChars s r) {fuel : Nat} (h : s.length < fuel) :
    skipChars fuel s = .ok r := by
  induction chars generalizing fuel with
  | quote =>
      cases fuel with
      | zero => cases h
      | succ fuel => rfl
  | plain notQuote notBackslash visible rest ih =>
      cases fuel with
      | zero => cases h
      | succ fuel =>
          rw [skipChars, if_neg notQuote, if_neg notBackslash, visible, if_neg Bool.false_ne_true]
          exact ih (Nat.lt_of_succ_lt_succ h)
  | escape escape rest ih =>
      cases fuel with
      | zero => cases h
      | succ fuel =>
          have := escape.length_lt
          rw [List.length_cons] at h
          rw [skipChars, if_neg (by decide), if_pos rfl]
          exact bind_eq_ok_iff.2 ⟨_, skipEscape_eq_ok_iff.2 escape, ih (by omega)⟩

theorem skipString_eq_ok_iff : skipString s = .ok r ↔ RawChars s r := by
  constructor
  · intro h
    exact rawChars_of_skipChars h
  · intro chars
    exact chars.skipChars_eq (Nat.lt_succ_self _)

/-! ### Keys -/

theorem readColon_eq_ok_iff : readColon s = .ok r ↔ Blanks s (':' :: r) := by
  rw [← skipBlank_eq_cons_iff (by decide), readColon]
  split
  next h => simp [h]
  next h => simp [h]
  next notNil notColon =>
    constructor
    · intro h
      cases h
    · exact fun h => absurd h (notColon r)

theorem skipKey_eq_ok_iff : skipKey s = .ok r ↔ Key RawChars (skipBlank s) r := by
  constructor
  · intro h
    rw [skipKey] at h
    split at h
    · cases h
    next s' heq =>
      obtain ⟨s'', h₁, h⟩ := bind_eq_ok_iff.1 h
      rw [heq]
      apply Key.mk (skipString_eq_ok_iff.1 h₁)
      split at h
      · cases h
      next hs => cases h; exact blanks_of_skipBlank hs
      · cases h
    · cases h
  · intro h
    rw [skipKey]
    generalize skipBlank s = s' at h
    cases h with
    | mk string colon =>
        apply bind_eq_ok_iff.2
        refine ⟨_, skipString_eq_ok_iff.2 string, ?_⟩
        rw [colon.skipBlank_eq (by decide)]
        rfl

end TimedCondvar.Json
