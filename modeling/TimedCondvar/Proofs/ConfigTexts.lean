import TimedCondvar.Proofs.Skipping

/-!
A text is read as a configuration just when it is one by the grammar. What a configuration comes
to depends on the clocks it names alone, however their names are spelt and whatever other members
stand around them: none gives the default, one that is known is taken, and all else is refused.
-/

namespace TimedCondvar

namespace Json

variable {s s' s'' r : List Char} {cs name : List Char} {names : List (List Char)} {c : Clock}
  {clock clock' : Option Clock}

theorem toOption_bind {ε α β : Type} (x : Except ε α) (f : α → Except ε β) :
    (x >>= f).toOption = x.toOption.bind fun a => (f a).toOption := by
  cases x <;> rfl

theorem toOption_eq_some_iff {ε α : Type} {x : Except ε α} {a : α} :
    x.toOption = some a ↔ x = .ok a := by
  cases x <;> simp [Except.toOption]

theorem readEnd_eq_ok_iff {α : Type} {value value' : α} :
    readEnd value s = .ok value' ↔ value = value' ∧ Blanks s [] := by
  rw [← skipBlank_eq_nil_iff, readEnd]
  split
  next h => simp [h]
  next h => simpa using fun _ => h

theorem readArrayEnd_eq_ok_iff : readArrayEnd s = .ok r ↔ Blanks s (']' :: r) := by
  rw [← skipBlank_eq_cons_iff (by decide), readArrayEnd]
  split
  next h => simp [h]
  next h => simp [h]
  next h =>
    rw [h]
    split <;> simp
  next notNil notClose notComma => simpa using notClose r

theorem readNull_eq_ok_iff : readNull s = .ok r ↔ Blanks s ('n' :: 'u' :: 'l' :: 'l' :: r) := by
  rw [← skipBlank_eq_cons_iff (by decide), readNull]
  split
  next h => simp [h]
  next h => rw [readWord_eq_ok_iff, h]; simp
  next notNil notN => simpa using notN _

/-! ### Clocks -/

theorem clockOfKey_toOption (text : String) :
    (clockOfKey text s).toOption = (Clock.ofKey? text).map fun c => (c, s) := by
  rw [clockOfKey]
  cases Clock.ofKey? text <;> rfl

theorem clockOfKey_eq_ok {text : String} (h : clockOfKey text s = .ok (c, r)) :
    text = c.key ∧ s = r := by
  rw [clockOfKey] at h
  split at h
  next h' => cases h; exact ⟨Clock.key_of_ofKey? h', rfl⟩
  · cases h

theorem nameForm_of_readClock (h : readClock s = .ok (c, r)) :
    NameForm c.key.toList (skipBlank s) r := by
  rw [readClock] at h
  split at h
  · cases h
  next hs =>
    obtain ⟨⟨text, s₁⟩, h₁, h⟩ := bind_eq_ok_iff.1 h
    obtain ⟨rfl, rfl⟩ := clockOfKey_eq_ok h
    rw [hs]
    exact .string (readString_eq_ok_iff.1 h₁)
  next hs =>
    rw [hs]
    split at h
    · cases h
    next hkey =>
      obtain ⟨⟨text, s₁⟩, h₁, h⟩ := bind_eq_ok_iff.1 h
      obtain ⟨⟨c', s₂⟩, h₂, h⟩ := bind_eq_ok_iff.1 h
      obtain ⟨s₃, h₃, h⟩ := bind_eq_ok_iff.1 h
      obtain ⟨s₄, h₄, hlast⟩ := bind_eq_ok_iff.1 h
      obtain ⟨rfl, rfl⟩ := clockOfKey_eq_ok h₂
      split at hlast
      · cases hlast
      next hclose =>
        cases hlast
        exact .object (blanks_of_skipBlank hkey)
          (.mk (readString_eq_ok_iff.1 h₁) (readColon_eq_ok_iff.1 h₃)) (readNull_eq_ok_iff.1 h₄)
          (blanks_of_skipBlank hclose)
      · cases hlast
    · cases h
  · cases h

theorem NameForm.head (form : NameForm name s r) : ∃ c t, s = c :: t ∧ (c = '"' ∨ c = '{') := by
  cases form with
  | string string => exact ⟨_, _, rfl, .inl rfl⟩
  | object blanks key null close => exact ⟨_, _, rfl, .inr rfl⟩

theorem Chars.readString_eq (chars : Chars cs s r) : readString s = .ok (String.ofList cs, r) := by
  rw [readString_eq_ok_iff, String.toList_ofList]
  exact chars

/-- A clock is read by its name, and refused if no clock has that name. -/
theorem NameForm.readClock_toOption (form : NameForm name s r) (blanks : Blanks s' s) :
    (readClock s').toOption = (Clock.ofKey? (String.ofList name)).map fun c => (c, r) := by
  cases form with
  | string string =>
      simp only [readClock, blanks.skipBlank_eq (by decide), string.readString_eq]
      exact clockOfKey_toOption _
  | object blanks' key null close =>
      cases key with
      | mk string colon =>
          simp only [readClock, blanks.skipBlank_eq (by decide),
            blanks'.skipBlank_eq (by decide), string.readString_eq]
          cases hc : Clock.ofKey? (String.ofList name) with
          | none =>
              simp only [clockOfKey, hc, bind, Except.bind]
              rfl
          | some c =>
              simp only [clockOfKey, hc, readColon_eq_ok_iff.2 colon, readNull_eq_ok_iff.2 null,
                bind, Except.bind, close.skipBlank_eq (by decide)]
              rfl

/-! ### Members -/

/-- The clock read so far as a name. -/
def keys (clock : Option Clock) : List (List Char) := clock.toList.map (·.key.toList)

theorem ofKey?_ofList_key (c : Clock) : Clock.ofKey? (String.ofList c.key.toList) = some c := by
  rw [String.ofList_toList]
  exact c.ofKey?_key

theorem named?_keys (clock : Option Clock) : named? (keys clock) = some clock := by
  cases clock with
  | none => rfl
  | some c => exact congrArg (Option.map some) (ofKey?_ofList_key c)

theorem keys_of_named? (h : named? names = some clock) : keys clock = names := by
  cases names with
  | nil => cases h; rfl
  | cons name names =>
      cases names with
      | nil =>
          obtain ⟨c, hc, rfl⟩ := Option.map_eq_some_iff.1 h
          have := Clock.key_of_ofKey? hc
          rw [keys, Option.toList_some, List.map_singleton, ← this, String.toList_ofList]
      | cons => cases h

theorem named?_append_of_none (h : named? names = none) (names' : List (List Char)) :
    named? (names ++ names') = none := by
  cases names with
  | nil => cases h
  | cons name names =>
      cases names with
      | nil =>
          cases names' with
          | nil => exact h
          | cons => rfl
      | cons => rfl

/-- What is read on behind some names comes to these names and those that follow. -/
theorem readOn_toOption {names' : List (List Char)}
    {x : Except Fault (Option Clock × List Char)}
    {f : Option Clock × List Char → Except Fault (Option Clock × List Char)}
    (hx : x.toOption = (named? names).map fun clock => (clock, s))
    (hf : ∀ clock, (f (clock, s)).toOption =
      (named? (keys clock ++ names')).map fun clock => (clock, r)) :
    (x >>= f).toOption = (named? (names ++ names')).map fun clock => (clock, r) := by
  rw [toOption_bind, hx]
  cases h : named? names with
  | none =>
      rw [named?_append_of_none h]
      rfl
  | some clock =>
      rw [← keys_of_named? h]
      exact hf clock

theorem field_of_readMember {t : List Char} {label : String}
    (string : readString t = .ok (label, s)) (h : readMember label clock s = .ok (clock', r)) :
    ∃ name, Field name ('"' :: t) r ∧ keys clock' = keys clock ++ name.toList := by
  have key {s' : List Char} (colon : readColon s = .ok s') :
      Key (Chars label.toList) ('"' :: t) s' :=
    .mk (readString_eq_ok_iff.1 string) (readColon_eq_ok_iff.1 colon)
  rw [readMember] at h
  split at h
  next hlabel =>
    subst hlabel
    split at h
    · cases h
    next hclock =>
      obtain ⟨s₁, colon, h⟩ := bind_eq_ok_iff.1 h
      obtain ⟨⟨c, s₂⟩, hc, h⟩ := bind_eq_ok_iff.1 h
      cases h
      refine ⟨_, .clock (key colon) (blanks_skipBlank s₁) (nameForm_of_readClock hc), ?_⟩
      rw [Option.not_isSome_iff_eq_none.1 hclock]
      rfl
  next hlabel =>
    obtain ⟨s₁, colon, h⟩ := bind_eq_ok_iff.1 h
    obtain ⟨s₂, hvalue, h⟩ := bind_eq_ok_iff.1 h
    cases h
    refine ⟨none, .other ?_ (key colon) (blanks_skipBlank s₁) (wellFormed_of_skipValue hvalue), ?_⟩
    · exact fun heq => hlabel (String.toList_injective heq)
    · exact (List.append_nil _).symm

/-- What a member adds to the names before it. -/
theorem Field.readMember_toOption {name : Option (List Char)} (field : Field name s r)
    (ends : Stops goesOn r) (clock : Option Clock) :
    ∃ t label s', s = '"' :: t ∧ readString t = .ok (label, s') ∧
      (readMember label clock s').toOption =
        (named? (keys clock ++ name.toList)).map fun clock => (clock, r) := by
  cases field with
  | @clock name _ _ _ _ key blanks value =>
      cases key with
      | @mk t s' _ string colon =>
          refine ⟨t, _, s', rfl, string.readString_eq, ?_⟩
          rw [readMember, String.ofList_toList, if_pos rfl]
          cases clock with
          | none =>
              have hc := value.readClock_toOption blanks
              rw [if_neg (by decide), readColon_eq_ok_iff.2 colon]
              show (readClock _ >>= _).toOption = _
              rw [toOption_bind, hc]
              show _ = ((Clock.ofKey? _).map _).map _
              cases Clock.ofKey? (String.ofList name) <;> rfl
          | some c => rfl
  | other other key blanks value =>
      cases key with
      | @mk t s' _ string colon =>
          refine ⟨t, _, s', rfl, string.readString_eq, ?_⟩
          rw [readMember, if_neg, readColon_eq_ok_iff.2 colon]
          · show (skipValue _ >>= _).toOption = _
            rw [value.skipValue_eq ends blanks, Option.toList_none, List.append_nil, named?_keys]
            rfl
          · intro h
            apply other
            rw [← h, String.toList_ofList]

theorem fields_of_readMembers {fuel : Nat} (h : readMembers fuel clock s = .ok (clock', r)) :
    ∃ names, Fields names s r ∧ keys clock' = keys clock ++ names := by
  induction fuel generalizing clock s with
  | zero => cases h
  | succ fuel ih =>
      rw [readMembers] at h
      split at h
      · cases h
      next hs =>
        cases h
        exact ⟨[], .close (blanks_of_skipBlank hs), (List.append_nil _).symm⟩
      next s₁ hs =>
        split at h
        · cases h
        next hs₁ =>
          obtain ⟨⟨label, s₂⟩, string, h⟩ := bind_eq_ok_iff.1 h
          obtain ⟨⟨clock₁, s₃⟩, hmember, h⟩ := bind_eq_ok_iff.1 h
          obtain ⟨name, field, hname⟩ := field_of_readMember string hmember
          obtain ⟨names, rest, hnames⟩ := ih h
          refine ⟨_, .member (blanks_of_skipBlank hs)
            (blanks_of_skipBlank hs₁) field rest, ?_⟩
          rw [hnames, hname, List.append_assoc]
        · cases h
        · cases h
      · cases h

theorem NameForm.length_le (form : NameForm name s r) : r.length ≤ s.length := by
  cases form with
  | string string => exact Nat.le_succ_of_le string.length_lt.le
  | object blanks key null close =>
      have := blanks.length_le
      have := key.length_le Chars.length_lt
      have := null.length_le
      have := close.length_le
      simp only [List.length_cons] at *
      omega

theorem Field.length_le {name : Option (List Char)} (field : Field name s r) :
    r.length ≤ s.length := by
  cases field with
  | clock key blanks value =>
      exact value.length_le.trans (blanks.length_le.trans (key.length_le Chars.length_lt))
  | other other key blanks value =>
      exact value.length_le.trans (blanks.length_le.trans (key.length_le Chars.length_lt))

theorem Fields.stops (fields : Fields names s r) : Stops goesOn s := by
  cases fields with
  | close close => exact close.stops_goesOn (by decide)
  | member comma blanks field rest => exact comma.stops_goesOn (by decide)

/-- Reading members adds the names in them to the names before. -/
theorem Fields.readMembers_toOption (fields : Fields names s r) {fuel : Nat}
    (h : s.length < fuel) :
    (readMembers fuel clock s).toOption =
      (named? (keys clock ++ names)).map fun clock => (clock, r) := by
  induction fields generalizing fuel clock with
  | close close =>
      cases fuel with
      | zero => cases h
      | succ fuel =>
          simp only [readMembers, close.skipBlank_eq (by decide)]
          rw [List.append_nil, named?_keys]
          rfl
  | @member name names s s₁ s₂ s₃ r comma blanks field rest ih =>
      cases fuel with
      | zero => cases h
      | succ fuel =>
          have hlength : s₃.length < fuel := by
            have := comma.length_le
            have := blanks.length_le
            have := field.length_le
            simp only [List.length_cons] at *
            omega
          obtain ⟨t, label, s', rfl, string, hmember⟩ :=
            field.readMember_toOption rest.stops clock
          simp only [readMembers, comma.skipBlank_eq (by decide),
            blanks.skipBlank_eq (by decide), string]
          rw [← List.append_assoc]
          exact readOn_toOption hmember fun clock => ih hlength

/-! ### Configurations -/

theorem readObject_toOption (form : ConfigForm names ('{' :: s) r) :
    (readObject s).toOption = (named? names).map fun clock => (clock, r) := by
  cases form with
  | emptyObject close =>
      simp only [readObject, close.skipBlank_eq (by decide)]
      rfl
  | @object name names _ s₁ s₂ _ blanks field rest =>
      obtain ⟨t, label, s', rfl, string, hmember⟩ := field.readMember_toOption rest.stops none
      simp only [readObject, blanks.skipBlank_eq (by decide), string]
      exact readOn_toOption hmember fun clock => rest.readMembers_toOption (Nat.lt_succ_self _)

theorem readArray_toOption (form : ConfigForm names ('[' :: s) r) :
    (readArray s).toOption = (named? names).map fun clock => (clock, r) := by
  cases form with
  | emptyArray close =>
      simp only [readArray, close.skipBlank_eq (by decide)]
      rfl
  | @array name _ s₁ s₂ _ blanks clock close =>
      obtain ⟨c, t, rfl, hc⟩ := clock.head
      have hs : skipBlank s = c :: t := by
        apply blanks.skipBlank_eq
        rcases hc with rfl | rfl <;> decide
      unfold readArray
      rw [hs]
      split
      next heq => cases heq
      next heq =>
        cases heq
        rcases hc with hc | hc <;> exact absurd hc (by decide)
      next =>
        rw [toOption_bind, clock.readClock_toOption .nil]
        show _ = ((Clock.ofKey? _).map _).map _
        cases Clock.ofKey? (String.ofList name) with
        | none => rfl
        | some c =>
            show (readArrayEnd s₂ >>= _).toOption = _
            rw [readArrayEnd_eq_ok_iff.2 close]
            rfl

theorem configForm_of_readObject (h : readObject s = .ok (clock, r)) :
    ConfigForm (keys clock) ('{' :: s) r := by
  rw [readObject] at h
  split at h
  · cases h
  next hs => cases h; exact .emptyObject (blanks_of_skipBlank hs)
  next hs =>
    obtain ⟨⟨label, s₁⟩, string, h⟩ := bind_eq_ok_iff.1 h
    obtain ⟨⟨clock₁, s₂⟩, hmember, h⟩ := bind_eq_ok_iff.1 h
    obtain ⟨name, field, hname⟩ := field_of_readMember string hmember
    obtain ⟨names, rest, hnames⟩ := fields_of_readMembers h
    have object := ConfigForm.object (blanks_of_skipBlank hs) field rest
    rw [hnames, hname]
    exact object
  · cases h

theorem configForm_of_readArray (h : readArray s = .ok (clock, r)) :
    ConfigForm (keys clock) ('[' :: s) r := by
  unfold readArray at h
  split at h
  · cases h
  next hs => cases h; exact .emptyArray (blanks_of_skipBlank hs)
  next =>
    obtain ⟨⟨c, s₁⟩, hc, h⟩ := bind_eq_ok_iff.1 h
    obtain ⟨s₂, close, h⟩ := bind_eq_ok_iff.1 h
    cases h
    have form := nameForm_of_readClock hc
    rw [skipBlank_skipBlank] at form
    exact .array (blanks_skipBlank s) form (readArrayEnd_eq_ok_iff.1 close)

end Json

open Json

theorem Config.configText_of_ofJson {text : String} {config : Config}
    (h : Config.ofJson text = .ok config) :
    ∃ clock, ConfigText (keys clock) text.toList ∧ config = ⟨clock.getD default⟩ := by
  rw [Config.ofJson] at h
  split at h
  · cases h
  next hs =>
    obtain ⟨⟨clock, s⟩, hread, h⟩ := bind_eq_ok_iff.1 h
    obtain ⟨rfl, after⟩ := readEnd_eq_ok_iff.1 h
    refine ⟨clock, .mk (blanks_skipBlank _) ?_ after, rfl⟩
    rw [hs]
    exact configForm_of_readObject hread
  next hs =>
    obtain ⟨⟨clock, s⟩, hread, h⟩ := bind_eq_ok_iff.1 h
    obtain ⟨rfl, after⟩ := readEnd_eq_ok_iff.1 h
    refine ⟨clock, .mk (blanks_skipBlank _) ?_ after, rfl⟩
    rw [hs]
    exact configForm_of_readArray hread
  · cases h

theorem Json.ConfigForm.head {names : List (List Char)} {s r : List Char}
    (form : ConfigForm names s r) : ∃ t, s = '{' :: t ∨ s = '[' :: t := by
  cases form with
  | emptyObject | object => exact ⟨_, .inl rfl⟩
  | emptyArray | array => exact ⟨_, .inr rfl⟩

/-- A configuration comes to the clock it names. -/
theorem Json.ConfigText.ofJson_toOption {names : List (List Char)} {text : String}
    (config : ConfigText names text.toList) :
    (Config.ofJson text).toOption = (named? names).map fun clock => ⟨clock.getD default⟩ := by
  cases config with
  | @mk s r before form after =>
      have hend (clock : Option Clock) :
          (readEnd (Config.mk (clock.getD default)) r).toOption = some ⟨clock.getD default⟩ :=
        toOption_eq_some_iff.2 (readEnd_eq_ok_iff.2 ⟨rfl, after⟩)
      obtain ⟨t, rfl | rfl⟩ := form.head
      · simp only [Config.ofJson, before.skipBlank_eq (by decide)]
        rw [toOption_bind, readObject_toOption form]
        cases named? names with
        | none => rfl
        | some clock => exact hend clock
      · simp only [Config.ofJson, before.skipBlank_eq (by decide)]
        rw [toOption_bind, readArray_toOption form]
        cases named? names with
        | none => rfl
        | some clock => exact hend clock

/-- A text is read as a configuration with clock `c` if it is one that names `c`, or one that names
no clock and `c` is the default. What it names settles the result: other members and the spelling
of strings have no part in it. -/
theorem Config.reads_its_grammar (text : String) :
    (∀ c, Config.ofJson text = .ok ⟨c⟩ ↔
        (c = .monotonic ∧ ConfigText [] text.toList) ∨ ConfigText [c.key.toList] text.toList) ∧
      ∀ names, ConfigText names text.toList →
        (Config.ofJson text).toOption = (named? names).map fun clock => ⟨clock.getD default⟩ := by
  refine ⟨fun c => ⟨fun h => ?_, fun h => ?_⟩, fun names config => config.ofJson_toOption⟩
  · obtain ⟨clock, config, hclock⟩ := Config.configText_of_ofJson h
    cases clock with
    | none => cases hclock; exact .inl ⟨rfl, config⟩
    | some c' => cases hclock; exact .inr config
  · apply toOption_eq_some_iff.1
    rcases h with ⟨rfl, config⟩ | config
    · exact config.ofJson_toOption
    · rw [config.ofJson_toOption]
      show (named? (keys (some c))).map _ = _
      rw [named?_keys]
      rfl

/-- A key that is spelt with an escape, behind a member that is passed over. -/
theorem Config.reads_its_grammar_of_escaped_key :
    ConfigText [Clock.boottime.key.toList]
        "\x7b\"x\":[],\"\\u0063lock\" : \"boottime\"\x7d".toList ∧
      (Config.ofJson "\x7b\"x\":[],\"\\u0063lock\" : \"boottime\"\x7d").toOption =
        some ⟨.boottime⟩ := by
  have reads := Config.reads_its_grammar "\x7b\"x\":[],\"\\u0063lock\" : \"boottime\"\x7d"
  have accepted : Config.ofJson "\x7b\"x\":[],\"\\u0063lock\" : \"boottime\"\x7d" =
      .ok ⟨.boottime⟩ :=
    toOption_eq_some_iff.1 (by decide +kernel)
  rcases (reads.1 .boottime).1 accepted with ⟨h, -⟩ | config
  · cases h
  · refine ⟨config, ?_⟩
    rw [reads.2 _ config]
    exact congrArg (Option.map _) (named?_keys (some .boottime))

end TimedCondvar
