import Mathlib.Data.List.Nodup
import TimedCondvar.Proofs.Numerals
import TimedCondvar.Wait.Outcome

/-!
Texts of errors. The text of an error is that of no other error, be it of a reading or of a wait.
The kinds of errors are told apart by their openings, none of which begins another one. Within a
kind, a part that may vary is followed by a mark with a character that is not in it, or by the end
of the text. So names of clocks end before a blank or a colon, and addresses and counts before a
blank.
-/

namespace TimedCondvar

variable {x : Char} {mark front front' text : String}

/-! ### Openings and marks -/

/-- What the texts of each kind of errors begin with. The third one is how all names of clocks
begin. -/
def openings : List String :=
  ["Clock ", "Failed to read ", "CLOCK_", "Condition variable initialization failed: ",
    "Condition variable wait failed reading the clock: ", "Condition variable is bound to mutex "]

def Opens (front text : String) : Prop :=
  front ∈ openings ∧ ∃ rest, text = front ++ rest

/-- No opening begins another one. -/
theorem eq_of_prefix_openings : ∀ s ∈ openings, ∀ t ∈ openings, s.toList <+: t.toList → s = t := by
  decide

theorem Opens.unique (h : Opens front text) (h' : Opens front' text) : front = front' := by
  obtain ⟨hmem, rest, rfl⟩ := h
  obtain ⟨hmem', rest', heq⟩ := h'
  have hfront : front.toList <+: (front ++ rest).toList := by simp
  have hfront' : front'.toList <+: (front ++ rest).toList := by simp [heq]
  rcases List.prefix_or_prefix_of_prefix hfront hfront' with hprefix | hprefix
  · exact eq_of_prefix_openings _ hmem _ hmem' hprefix
  · exact (eq_of_prefix_openings _ hmem' _ hmem hprefix).symm

/-- The first `x` of a text ends the part in front of it. -/
theorem append_cons_inj {s s' r r' : List Char} (hs : x ∉ s) (hs' : x ∉ s') :
    s ++ x :: r = s' ++ x :: r' ↔ s = s' ∧ r = r' := by
  constructor
  · intro h
    rcases List.append_eq_append_iff.mp h with ⟨more, rfl, hmore⟩ | ⟨more, rfl, hmore⟩
    · cases more with
      | nil => simpa using hmore
      | cons y more => simp [(List.cons.inj hmore).1] at hs'
    · cases more with
      | nil => simpa using hmore.symm
      | cons y more => simp [(List.cons.inj hmore).1] at hs
  · rintro ⟨rfl, rfl⟩
    rfl

theorem append_mark_inj {s s' r r' : String} (hmark : mark.toList.head? = some x)
    (hs : x ∉ s.toList) (hs' : x ∉ s'.toList) :
    s ++ (mark ++ r) = s' ++ (mark ++ r') ↔ s = s' ∧ r = r' := by
  obtain ⟨more, hmore⟩ := List.head?_eq_some_iff.mp hmark
  simp only [← String.toList_inj, String.toList_append, hmore, List.cons_append,
    append_cons_inj hs hs', List.append_cancel_left_eq]

/-! ### Names of clocks and of faults -/

namespace Clock

variable {c c' : Clock}

theorem name_injective : Function.Injective name := by
  intro c c' h
  cases c <;> cases c' <;> simp_all [name]

theorem exists_name_eq (c : Clock) : ∃ stem, c.name = "CLOCK_" ++ stem := by
  cases c with
  | monotonic => exact ⟨"MONOTONIC", rfl⟩
  | monotonicRaw => exact ⟨"MONOTONIC_RAW", rfl⟩
  | boottime => exact ⟨"BOOTTIME", rfl⟩

/-- Where a longer name goes on, the shorter one has its mark. -/
theorem name_append_inj {r r' : String}
    (hmark : mark.toList.head? = some ' ' ∨ mark.toList.head? = some ':') :
    c.name ++ (mark ++ r) = c'.name ++ (mark ++ r') ↔ c = c' ∧ r = r' := by
  have hblank (c : Clock) : ' ' ∉ c.name.toList := by cases c <;> decide
  have hcolon (c : Clock) : ':' ∉ c.name.toList := by cases c <;> decide
  rw [← name_injective.eq_iff]
  rcases hmark with hmark | hmark
  · exact append_mark_inj hmark (hblank c) (hblank c')
  · exact append_mark_inj hmark (hcolon c) (hcolon c')

end Clock

namespace Errno

def all : List Errno :=
  [.perm, .noEntry, .interrupted, .io, .badFile, .again, .noMemory, .access, .fault, .busy,
    .noDevice, .invalid, .notTty, .range, .noSystemCall, .overflow, .notSupported, .timedOut,
    .unknown]

theorem mem_all (e : Errno) : e ∈ all := by
  cases e <;> decide

theorem nodup_messages : (all.map message).Nodup := by
  decide

theorem message_injective : Function.Injective message := fun e e' h =>
  List.inj_on_of_nodup_map nodup_messages e.mem_all e'.mem_all h

end Errno

/-! ### Errors of readings -/

namespace ClockError

def opening : ClockError → String
  | .unsupported _ => "Clock "
  | .read _ _ => "Failed to read "
  | .outOfRange _ _ => "CLOCK_"

theorem message_unsupported (c : Clock) :
    message (.unsupported c) = "Clock " ++ (c.name ++ " is not supported on this platform") := by
  rw [← String.append_assoc]
  rfl

theorem message_read (c : Clock) (errno : Errno) :
    message (.read c errno) = "Failed to read " ++ (c.name ++ (": " ++ errno.message)) := by
  simp only [← String.append_assoc]
  rfl

theorem message_outOfRange (c : Clock) (nanos : Int) :
    message (.outOfRange c nanos) =
      c.name ++ (" returned out-of-range nanoseconds: " ++ Numeral.signed nanos) := by
  rw [← String.append_assoc]
  rfl

theorem opens (e : ClockError) : Opens e.opening e.message := by
  refine ⟨by cases e <;> simp [opening, openings], ?_⟩
  cases e with
  | unsupported c => exact ⟨_, message_unsupported c⟩
  | read c errno => exact ⟨_, message_read c errno⟩
  | outOfRange c nanos =>
      obtain ⟨stem, hstem⟩ := c.exists_name_eq
      rw [message_outOfRange, hstem, String.append_assoc]
      exact ⟨_, rfl⟩

theorem message_injective : Function.Injective message := by
  intro e e' h
  have hopening : e.opening = e'.opening := e.opens.unique (h ▸ e'.opens)
  cases e with
  | unsupported c =>
      cases e' with
      | unsupported c' =>
          rw [message_unsupported, message_unsupported, String.append_right_inj,
            String.append_left_inj] at h
          rw [Clock.name_injective h]
      | read | outOfRange => simp [opening] at hopening
  | read c errno =>
      cases e' with
      | read c' errno' =>
          rw [message_read, message_read, String.append_right_inj,
            Clock.name_append_inj (.inr (by decide))] at h
          rw [h.1, Errno.message_injective h.2]
      | unsupported | outOfRange => simp [opening] at hopening
  | outOfRange c nanos =>
      cases e' with
      | outOfRange c' nanos' =>
          rw [message_outOfRange, message_outOfRange,
            Clock.name_append_inj (.inl (by decide))] at h
          rw [h.1, Numeral.signed_injective h.2]
      | unsupported | read => simp [opening] at hopening

end ClockError

/-! ### Errors of waits -/

namespace SyncError

variable {mutex : MutexId → String}

def opening : SyncError → String
  | .init _ => "Condition variable initialization failed: "
  | .clock _ => "Condition variable wait failed reading the clock: "
  | .mutexMismatch _ _ _ => "Condition variable is bound to mutex "

theorem describe_init (mutex : MutexId → String) (e : ClockError) :
    describe mutex (.init e) = "Condition variable initialization failed: " ++ e.message := rfl

theorem describe_clock (mutex : MutexId → String) (e : ClockError) :
    describe mutex (.clock e) = "Condition variable wait failed reading the clock: " ++ e.message :=
  rfl

theorem describe_mutexMismatch (mutex : MutexId → String) (bound offered : MutexId) (waiters : Nat) :
    describe mutex (.mutexMismatch bound offered waiters) =
      "Condition variable is bound to mutex " ++ (mutex bound ++ (" by " ++
        (Numeral.decimal waiters ++ (" waiter(s); wait offered mutex " ++ mutex offered)))) := by
  simp only [← String.append_assoc]
  rfl

theorem opens (mutex : MutexId → String) (e : SyncError) :
    Opens e.opening (e.describe mutex) := by
  refine ⟨by cases e <;> simp [opening, openings], ?_⟩
  cases e with
  | init e => exact ⟨_, describe_init mutex e⟩
  | clock e => exact ⟨_, describe_clock mutex e⟩
  | mutexMismatch bound offered waiters =>
      exact ⟨_, describe_mutexMismatch mutex bound offered waiters⟩

/-- Mutexes may be written in any way that tells them apart without a blank. -/
theorem describe_injective (hmutex : Function.Injective mutex)
    (hblank : ∀ id, ' ' ∉ (mutex id).toList) : Function.Injective (describe mutex) := by
  intro e e' h
  have hopening : e.opening = e'.opening := (e.opens mutex).unique (h ▸ e'.opens mutex)
  cases e with
  | init e =>
      cases e' with
      | init e' =>
          rw [describe_init, describe_init, String.append_right_inj] at h
          rw [ClockError.message_injective h]
      | clock | mutexMismatch => simp [opening] at hopening
  | clock e =>
      cases e' with
      | clock e' =>
          rw [describe_clock, describe_clock, String.append_right_inj] at h
          rw [ClockError.message_injective h]
      | init | mutexMismatch => simp [opening] at hopening
  | mutexMismatch bound offered waiters =>
      cases e' with
      | mutexMismatch bound' offered' waiters' =>
          rw [describe_mutexMismatch, describe_mutexMismatch, String.append_right_inj,
            append_mark_inj (by decide) (hblank _) (hblank _),
            append_mark_inj (by decide) (Numeral.blank_not_mem_decimal _)
              (Numeral.blank_not_mem_decimal _)] at h
          obtain ⟨hbound, hwaiters, hoffered⟩ := h
          rw [hmutex hbound, hmutex hoffered, Numeral.decimal_injective hwaiters]
      | init | clock => simp [opening] at hopening

theorem message_injective : Function.Injective message :=
  describe_injective Numeral.hex_injective Numeral.blank_not_mem_hex

theorem message_ne_clockError (e : ClockError) (e' : SyncError) : e.message ≠ e'.message := by
  intro h
  have hopening : e.opening = e'.opening := e.opens.unique (h ▸ e'.opens Numeral.hex)
  cases e <;> cases e' <;> simp [ClockError.opening, opening] at hopening

/-- The text ends with that of error `cause`, and no other error is named as its cause. -/
def Carries (e : SyncError) (cause : ClockError) : Prop :=
  (∃ front, e.message = front ++ cause.message) ∧ e.causes = [cause.message]

end SyncError

/-- Errors of readings are told apart by their texts, and so are errors of waits. No text is that of
one of each. A wait that failed because of a reading carries the text of that error, and names it as
its only cause. -/
theorem SyncError.told_apart_by_texts :
    (∀ e e' : ClockError, e = e' ↔ e.message = e'.message) ∧
    (∀ e e' : SyncError, e = e' ↔ e.message = e'.message) ∧
    (∀ (e : ClockError) (e' : SyncError), e.message ≠ e'.message) ∧
    ∀ cause : ClockError,
      (SyncError.init cause).Carries cause ∧ (SyncError.clock cause).Carries cause := by
  refine ⟨fun e e' => ClockError.message_injective.eq_iff.symm,
    fun e e' => message_injective.eq_iff.symm, message_ne_clockError, fun cause => ?_⟩
  exact ⟨⟨⟨_, rfl⟩, rfl⟩, ⟨⟨_, rfl⟩, rfl⟩⟩

end TimedCondvar
