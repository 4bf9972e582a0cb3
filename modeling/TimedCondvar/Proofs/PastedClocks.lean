import TimedCondvar.Proofs.BurstRuns
import TimedCondvar.Proofs.ConfigTexts

/-!
The clock that the demonstration is given. Its name is set between two quotes in the text of a
configuration, as it comes. The string that begins there ends at the first quote that is not part of
an escape: at the second of the two, or before it. In the first case the value spells the name of a
clock. In the second one it begins with such a spelling and a quote, and goes on with members, the
last of which has the quote that was to end the name.
-/

namespace TimedCondvar

namespace Json

variable {n : Nat} {d : Char} {s r r' cs cs' v w : List Char} {names : List (List Char)} {c : Clock}

/-! ### Spellings -/

/-- Between two quotes the text `w` is the string of the characters `cs`. -/
def Spells (cs w : List Char) : Prop := ∀ r, Chars cs (w ++ '"' :: r) r

theorem Hex4.exists_front (digits : Hex4 n s r) : ∃ w, s = w ++ r ∧ ∀ r, Hex4 n (w ++ r) r := by
  cases digits with
  | @mk a b c d _ _ _ _ _ first second third fourth =>
      exact ⟨[a, b, c, d], rfl, fun _ => .mk first second third fourth⟩

theorem Escape.exists_front (escape : Escape d s r) :
    ∃ w, s = w ++ r ∧ ∀ r, Escape d (w ++ r) r := by
  cases escape with
  | @letter c d r letter => exact ⟨[c], rfl, fun _ => .letter letter⟩
  | unicode digits =>
      obtain ⟨w, rfl, hw⟩ := digits.exists_front
      exact ⟨'u' :: w, rfl, fun r => .unicode (hw r)⟩
  | pair beyond high low =>
      obtain ⟨w, rfl, hw⟩ := high.exists_front
      obtain ⟨w', rfl, hw'⟩ := low.exists_front
      refine ⟨'u' :: (w ++ '\\' :: 'u' :: w'), by simp, fun r => ?_⟩
      have high := hw ('\\' :: 'u' :: (w' ++ r))
      rw [List.cons_append, List.append_assoc]
      exact .pair beyond high (hw' r)

/-- What stands in front of the quote that ends a string spells it, and plain characters spell
themselves. -/
theorem Chars.exists_spelling (chars : Chars cs s r) :
    ∃ w, s = w ++ '"' :: r ∧ Spells cs w ∧ ('\\' ∉ w → w = cs) := by
  induction chars with
  | quote => exact ⟨[], rfl, fun _ => .quote, fun _ => rfl⟩
  | @plain c cs s r notQuote notBackslash visible rest ih =>
      obtain ⟨w, rfl, hw, hplain⟩ := ih
      refine ⟨c :: w, rfl, fun r => .plain notQuote notBackslash visible (hw r), fun hnot => ?_⟩
      rw [hplain fun hmem => hnot (List.mem_cons_of_mem _ hmem)]
  | @escape d cs s s' r escape rest ih =>
      obtain ⟨w, rfl, hw, -⟩ := ih
      obtain ⟨w', rfl, hw'⟩ := escape.exists_front
      refine ⟨'\\' :: (w' ++ w), by simp, fun r => ?_, fun hnot => absurd List.mem_cons_self hnot⟩
      rw [List.cons_append, List.append_assoc]
      exact .escape (hw' _) (hw r)

theorem Spells.eq_of_plain (h : Spells cs w) (hplain : '\\' ∉ w) : w = cs := by
  obtain ⟨w', heq, -, hw'⟩ := (h []).exists_spelling
  obtain rfl := List.append_cancel_right heq
  exact hw' hplain

/-- Whether a character stands for itself in a string. -/
def isPlain (c : Char) : Bool := c != '"' && c != '\\' && !isControl c

theorem spells_self (h : cs.all isPlain = true) : Spells cs cs := by
  induction cs with
  | nil => exact fun _ => .quote
  | cons c cs ih =>
      rw [List.all_cons, Bool.and_eq_true] at h
      obtain ⟨hplain, hrest⟩ := h
      simp only [isPlain, Bool.and_eq_true, bne_iff_ne, Bool.not_eq_true'] at hplain
      obtain ⟨⟨notQuote, notBackslash⟩, visible⟩ := hplain
      exact fun r => .plain notQuote notBackslash visible (ih hrest r)

theorem spells_key (c : Clock) : Spells c.key.toList c.key.toList := by
  apply spells_self
  cases c <;> rfl

/-- Strings are read in one way. -/
theorem Chars.unique (chars : Chars cs s r) (chars' : Chars cs' s r') : cs = cs' ∧ r = r' := by
  have heq := chars.readString_eq.symm.trans chars'.readString_eq
  rw [Except.ok.injEq, Prod.mk.injEq] at heq
  exact ⟨by rw [← String.toList_ofList (l := cs), heq.1, String.toList_ofList], heq.2⟩

/-! ### Texts around a name -/

/-- What stands behind the name. -/
def closing : List Char := ['"', ' ', '}']

/-- Members that name the clocks `names`, and the brace behind them that ends the text. -/
def EndsObject (names : List (List Char)) (s : List Char) : Prop :=
  ∃ r, Fields names s r ∧ Blanks r []

/-- The name of clock `c`, or the name with its quote and further members, the last one up to its
last quote. None of them is a clock. -/
def Pastes (c : Clock) (v : List Char) : Prop :=
  Spells c.key.toList v ∨
    ∃ w rest, v = w ++ '"' :: rest ∧ Spells c.key.toList w ∧ EndsObject [] (rest ++ closing)

theorem endsObject_brace : EndsObject [] [' ', '}'] :=
  ⟨[], .close (.cons rfl .nil), .nil⟩

/-- The quote that ends the name is the one behind `v`, or one in `v`. -/
theorem chars_pasted_iff : Chars cs (v ++ closing) r ↔
    Spells cs v ∧ r = [' ', '}'] ∨
      ∃ w rest, v = w ++ '"' :: rest ∧ Spells cs w ∧ r = rest ++ closing := by
  refine ⟨fun chars => ?_, ?_⟩
  · obtain ⟨w, hw, spells, -⟩ := chars.exists_spelling
    rcases List.append_eq_append_iff.1 hw with ⟨extra, rfl, hextra⟩ | ⟨extra, rfl, hextra⟩
    · -- no other quote stands behind `v`
      cases extra with
      | nil =>
          cases hextra
          exact .inl ⟨by simpa using spells, rfl⟩
      | cons c extra =>
          have hrest : [' ', '}'] = extra ++ '"' :: r := (List.cons.inj hextra).2
          have hquote : '"' ∈ [' ', '}'] := by simp [hrest]
          exact absurd hquote (by decide)
    · cases extra with
      | nil =>
          cases hextra
          exact .inl ⟨by simpa using spells, rfl⟩
      | cons c extra =>
          cases hextra
          exact .inr ⟨w, extra, rfl, spells, rfl⟩
  · rintro (⟨spells, rfl⟩ | ⟨w, rest, rfl, spells, rfl⟩)
    · exact spells _
    · rw [List.append_assoc]
      exact spells _

theorem pastes_iff : Pastes c v ↔ ∃ r, Chars c.key.toList (v ++ closing) r ∧ EndsObject [] r := by
  simp only [chars_pasted_iff]
  refine ⟨?_, ?_⟩
  · rintro (spells | ⟨w, rest, rfl, spells, hends⟩)
    · exact ⟨_, .inl ⟨spells, rfl⟩, endsObject_brace⟩
    · exact ⟨_, .inr ⟨w, rest, rfl, spells, rfl⟩, hends⟩
  · rintro ⟨r, ⟨spells, rfl⟩ | ⟨w, rest, rfl, spells, rfl⟩, hends⟩
    · exact .inl spells
    · exact .inr ⟨w, rest, rfl, spells, hends⟩

theorem pastes_key (c : Clock) : Pastes c c.key.toList := .inl (spells_key c)

/-- A value cannot paste two clocks. -/
theorem Pastes.unique {c' : Clock} (h : Pastes c v) (h' : Pastes c' v) : c = c' := by
  obtain ⟨r, chars, -⟩ := pastes_iff.1 h
  obtain ⟨r', chars', -⟩ := pastes_iff.1 h'
  have hkey : c.key = c'.key := String.toList_injective (chars.unique chars').1
  have hread := c.ofKey?_key
  rw [hkey, c'.ofKey?_key] at hread
  exact (Option.some.inj hread).symm

/-- Without quotes and backslashes only the name itself will do. -/
theorem Pastes.eq_key (h : Pastes c v) (hquote : '"' ∉ v) (hbackslash : '\\' ∉ v) :
    v = c.key.toList := by
  rcases h with spells | ⟨w, rest, rfl, -⟩
  · exact spells.eq_of_plain hbackslash
  · exact absurd (by simp) hquote

/-! ### The configuration as a whole -/

/-- The text from its key on. -/
def labelled (v : List Char) : List Char :=
  '"' :: ("clock".toList ++ '"' :: ':' :: ' ' :: '"' :: (v ++ closing))

theorem spells_label : Spells "clock".toList "clock".toList := by
  apply spells_self
  rfl

theorem key_of_labelled (v : List Char) :
    Key (Chars "clock".toList) (labelled v) (' ' :: '"' :: (v ++ closing)) :=
  .mk (spells_label _) .nil

theorem Key.eq_of_labelled {label : List Char} (key : Key (Chars label) (labelled v) r) :
    label = "clock".toList ∧ r = ' ' :: '"' :: (v ++ closing) := by
  generalize hs : labelled v = s at key
  cases key with
  | @mk s s' r string colon =>
      obtain rfl := (List.cons.inj hs).2
      obtain ⟨rfl, rfl⟩ := string.unique (spells_label _)
      exact ⟨rfl, (List.cons.inj (colon.skipBlank_eq (by decide))).2.symm⟩

theorem Blanks.eq_of_brace {t : List Char} (before : Blanks ('{' :: s) t)
    (form : ConfigForm names t r) : t = '{' :: s := by
  obtain ⟨t, rfl | rfl⟩ := form.head
  · exact (before.skipBlank_eq (by decide)).symm
  · cases before.skipBlank_eq (by decide)

theorem Key.eq_labelled {form : List Char → List Char → Prop} (key : Key form s r)
    (blanks : Blanks (' ' :: labelled v) s) : s = labelled v := by
  cases key with
  | mk string colon => exact (blanks.skipBlank_eq (by decide)).symm

/-- The first member names the clock between the quotes. -/
theorem Field.eq_of_labelled {named : Option (List Char)} (field : Field named s r)
    (blanks : Blanks (' ' :: labelled v) s) :
    ∃ name, named = some name ∧ Chars name (v ++ closing) r := by
  cases field with
  | @clock name _ _ _ _ key blanks' value =>
      obtain rfl := key.eq_labelled blanks
      obtain ⟨-, rfl⟩ := key.eq_of_labelled
      refine ⟨name, rfl, ?_⟩
      cases value with
      | string string =>
          cases blanks'.skipBlank_eq (by decide)
          exact string
      | object blanks key null close => cases blanks'.skipBlank_eq (by decide)
  | other other key blanks' value =>
      obtain rfl := key.eq_labelled blanks
      exact absurd key.eq_of_labelled.1 other

/-- What a text around `v` names is what is between the quotes, and what the members behind name. -/
theorem configText_iff : ConfigText names ('{' :: ' ' :: labelled v) ↔
    ∃ name names', names = name :: names' ∧
      ∃ r, Chars name (v ++ closing) r ∧ EndsObject names' r := by
  refine ⟨fun config => ?_, ?_⟩
  · cases config with
    | @mk s r before form after =>
        obtain rfl := before.eq_of_brace form
        cases form with
        | emptyObject close => cases close.skipBlank_eq (by decide)
        | object blanks field rest =>
            obtain ⟨name, rfl, chars⟩ := field.eq_of_labelled blanks
            exact ⟨name, _, rfl, _, chars, r, rest, after⟩
  · rintro ⟨name, names, rfl, r, chars, r', fields, after⟩
    have field : Field (some name) (labelled v) r :=
      .clock (key_of_labelled v) (.cons rfl .nil) (.string chars)
    exact .mk .nil (.object (.cons rfl .nil) field fields) after

end Json

namespace Demo

open Json Machine

variable {s : Settings} {m : ProgramMachine} {c : Clock} {v : String} {env : Environment}
  {delay spacing events bursts : Nat}

/-! ### The clock of an environment -/

theorem toList_configText (v : String) :
    (configText v).toList = '{' :: ' ' :: labelled v.toList := by
  rw [configText, String.toList_append, String.toList_append]
  rfl

theorem ofJson_configText_iff : Config.ofJson (configText v) = .ok ⟨c⟩ ↔ Pastes c v.toList := by
  rw [pastes_iff]
  refine ⟨fun h => ?_, fun ⟨r, chars, hends⟩ => ?_⟩
  · obtain ⟨clock, config, hclock⟩ := Config.configText_of_ofJson h
    rw [toList_configText, configText_iff] at config
    obtain ⟨name, names, hnames, r, chars, hends⟩ := config
    cases clock with
    | none => cases hnames
    | some c =>
        cases hclock
        cases hnames
        exact ⟨r, chars, hends⟩
  · have config : ConfigText (keys (some c)) (configText v).toList := by
      rw [toList_configText, configText_iff]
      exact ⟨_, [], rfl, r, chars, hends⟩
    apply toOption_eq_some_iff.1
    rw [config.ofJson_toOption, named?_keys]
    rfl

example : (Config.ofJson (configText "\\u006donotonic")).toOption = some ⟨.monotonic⟩ := by
  decide +kernel

theorem clock_eq_ok_iff (hv : env.text? "MONOSYNC_DEMO_CLOCK" = some v) :
    env.clock "MONOSYNC_DEMO_CLOCK" = .ok c ↔ Pastes c v.toList := by
  rw [← ofJson_configText_iff, Environment.clock, hv]
  dsimp only
  cases Config.ofJson (configText v) with
  | error f => simp
  | ok config =>
      obtain ⟨clock⟩ := config
      simp

theorem clock_eq_error (hv : env.text? "MONOSYNC_DEMO_CLOCK" = some v)
    (hnone : ∀ c, ¬Pastes c v.toList) : ∃ f, Config.ofJson (configText v) = .error f ∧
      env.clock "MONOSYNC_DEMO_CLOCK" =
        .error ⟨"Unknown clock " ++ v, [f.message (configText v).toList]⟩ := by
  cases h : Config.ofJson (configText v) with
  | error f =>
      refine ⟨f, rfl, ?_⟩
      rw [Environment.clock, hv]
      dsimp only
      rw [h]
  | ok config => exact absurd (ofJson_configText_iff.1 h) (hnone config.clock)

/-! ### The clock of a run -/

theorem bind_of_now (thread : Option ThreadId) (notes : List (Note Event)) {now : Time}
    (hnow : m.clocks.now m.mono c = .ok now) :
    ∃ m', (m.write thread notes).bind thread c = (m', .ok m.condvars.length) ∧
      ⟨m.mono, thread, .record (.bound c now)⟩ ∈ m'.log := by
  rw [Machine.bind]
  dsimp only [write]
  rw [hnow]
  exact ⟨_, rfl, List.mem_cons_self⟩

/-- The program tells what it binds, and what the clock reads then. -/
theorem bound_mem_start {now : Time} (hnow : m.clocks.now m.mono s.clock = .ok now) :
    ⟨m.mono, some mainThread, .record (.bound s.clock now)⟩ ∈ (start s m).log := by
  obtain ⟨m', hbind, hmem⟩ := bind_of_now mainThread
    (if s.delay ≤ s.spacing then [.event (.wideSpacing s.spacing s.delay)] else []) hnow
  obtain ⟨last, rfl, hstart⟩ := start_of_bind hbind
  rw [hstart]
  exact List.mem_reverse.2 (mem_log_runThreads (List.mem_cons_of_mem _ hmem))

/-- The numbers of an environment are in order. -/
structure Environment.Numbers (env : Environment) (delay spacing events bursts : Nat) : Prop where
  delay : env.number "MONOSYNC_DEMO_DELAY_MS" (defaultDelay.totalNanos / nanosPerMilli) = .ok delay
  spacing : env.number "MONOSYNC_DEMO_SPACING_MS" (defaultSpacing.totalNanos / nanosPerMilli) =
    .ok spacing
  events : env.number "MONOSYNC_DEMO_EVENTS" defaultEvents = .ok events
  bursts : env.number "MONOSYNC_DEMO_BURSTS" defaultBursts = .ok bursts

theorem Environment.Numbers.settings (numbers : env.Numbers delay spacing events bursts) :
    Settings.ofEnvironment env = (env.clock "MONOSYNC_DEMO_CLOCK").map fun c =>
      ⟨.ofMillis delay, .ofMillis spacing, events, bursts, c⟩ := by
  rw [Settings.ofEnvironment, numbers.delay, numbers.spacing, numbers.events, numbers.bursts]
  cases env.clock "MONOSYNC_DEMO_CLOCK" <;> rfl

theorem now_machine (c : Clock) : machine.clocks.now machine.mono c = .ok (Time.new 1000 0) := by
  cases c <;> rfl

/-- The program takes clock `c` for a value if it is the name of `c`, however spelt, or if the name,
a quote and further members stand in it. It binds that clock then. Any other value is unknown, and
the program fails with it before anything is bound. The names themselves are taken, and nothing else
is unless it has a quote or a backslash. -/
theorem takes_what_pastes (hv : env.text? "MONOSYNC_DEMO_CLOCK" = some v)
    (numbers : env.Numbers delay spacing events bursts) :
    (∀ c, env.clock "MONOSYNC_DEMO_CLOCK" = .ok c ↔ Pastes c v.toList) ∧
    (∀ c, Pastes c v.toList →
      run env = start ⟨.ofMillis delay, .ofMillis spacing, events, bursts, c⟩
        (machine.write mainThread [.event (.logging (Logging.ofEnvironment env).json)]) ∧
      ⟨origin, some mainThread, .record (.bound c (Time.new 1000 0))⟩ ∈ (run env).log) ∧
    ((∀ c, ¬Pastes c v.toList) → ∃ f, Config.ofJson (configText v) = .error f ∧
      run env = ⟨[⟨origin, some mainThread, .event (.logging (Logging.ofEnvironment env).json)⟩],
        some ⟨"Unknown clock " ++ v, [f.message (configText v).toList]⟩⟩) ∧
    (∀ c, v = c.key → Pastes c v.toList) ∧
    ('"' ∉ v.toList → '\\' ∉ v.toList → ∀ c, Pastes c v.toList → v = c.key) := by
  refine ⟨fun c => clock_eq_ok_iff hv, fun c hpastes => ?_, fun hnone => ?_, ?_, ?_⟩
  · have hrun : run env = start ⟨.ofMillis delay, .ofMillis spacing, events, bursts, c⟩
        (machine.write mainThread [.event (.logging (Logging.ofEnvironment env).json)]) := by
      rw [run, numbers.settings, (clock_eq_ok_iff hv).2 hpastes]
      rfl
    rw [hrun]
    exact ⟨rfl, bound_mem_start (now_machine c)⟩
  · obtain ⟨f, hread, hclock⟩ := clock_eq_error hv hnone
    refine ⟨f, hread, ?_⟩
    rw [run, numbers.settings, hclock]
    rfl
  · rintro c rfl
    exact pastes_key c
  · exact fun hquote hbackslash c hpastes =>
      String.toList_injective (hpastes.eq_key hquote hbackslash)

/-- A name with a quote and another member behind it, which is no name of a clock. -/
def twoMembers : String := "boottime\", \"x\": \"y"

theorem takes_two_members : ∃ env : Environment,
    env.text? "MONOSYNC_DEMO_CLOCK" = some twoMembers ∧ env.Numbers 50 5 20 3 ∧
    (∀ c : Clock, twoMembers ≠ c.key) ∧ env.clock "MONOSYNC_DEMO_CLOCK" = .ok .boottime ∧
    ⟨origin, some mainThread, .record (.bound .boottime (Time.new 1000 0))⟩ ∈ (run env).log := by
  let env : Environment := fun name =>
    if name = "MONOSYNC_DEMO_CLOCK" then some (.text twoMembers) else none
  have numbers : env.Numbers 50 5 20 3 := ⟨rfl, rfl, rfl, rfl⟩
  have accepted : Config.ofJson (configText twoMembers) = .ok ⟨.boottime⟩ :=
    toOption_eq_some_iff.1 (by decide +kernel)
  have pastes := ofJson_configText_iff.1 accepted
  have hv : env.text? "MONOSYNC_DEMO_CLOCK" = some twoMembers := rfl
  have hother (c : Clock) : twoMembers ≠ c.key := by cases c <;> decide
  obtain ⟨htakes, hbinds, -⟩ := takes_what_pastes hv numbers
  exact ⟨env, hv, numbers, hother, (htakes .boottime).2 pastes, (hbinds .boottime pastes).2⟩

end Demo

end TimedCondvar
