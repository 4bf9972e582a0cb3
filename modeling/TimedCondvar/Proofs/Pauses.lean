import TimedCondvar.Proofs.PredicateWaits

/-!
What a predicate wait does between two looks at its condition, in any run: clocks may jump, stand
still or fail, parks may end late, and anybody may be notified. A wait that returns as signaled has
parked, be it that it was notified or that its budget is spent, since the budget is only spent by
parks. So the condition is not evaluated twice without a park, but for the one time that follows a
time-out, and that is the last.
-/

namespace TimedCondvar

namespace Machine

variable {σ κ ε : Type} {code : κ → Command σ κ ε} {m m' m'' : Machine σ κ ε} {t : ThreadId}
  {c : Cause} {hs hs' : List (Machine σ κ ε × Cause)}

/-- Moves of any kind one after the other, each with the machine before it. -/
inductive Chronicle (code : κ → Command σ κ ε) (m : Machine σ κ ε) :
    List (Machine σ κ ε × Cause) → Machine σ κ ε → Prop
  | nil : Chronicle code m [] m
  | snoc {hs : List (Machine σ κ ε × Cause)} {c : Cause} {m' m'' : Machine σ κ ε}
      (chronicle : Chronicle code m hs m') (move : Caused code m' c m'') :
      Chronicle code m (hs ++ [(m', c)]) m''

theorem History.chronicle (history : History code m hs m') : Chronicle code m hs m' := by
  induction history with
  | nil => exact .nil
  | snoc history move ih => exact ih.snoc move.caused

theorem Chronicle.run (chronicle : Chronicle code m hs m') :
    Run (Next code) m (events code hs) m' := by
  induction chronicle with
  | nil => exact .nil
  | snoc chronicle move ih =>
      rw [events, List.map_append]
      exact ih.snoc move.next

/-- Every run can be told as a chronicle. -/
theorem Run.exists_chronicle {es : List Event} (run : Run (Next code) m es m') :
    ∃ hs, Chronicle code m hs m' ∧ events code hs = es := by
  induction run with
  | nil => exact ⟨[], .nil, rfl⟩
  | snoc run move ih =>
      obtain ⟨hs, chronicle, rfl⟩ := ih
      obtain ⟨c, rfl, hcaused⟩ := exists_caused_of_next move
      exact ⟨_, chronicle.snoc hcaused, List.map_append⟩

/-! ### Deeds -/

/-- What thread `t` does that tells how a predicate wait takes its turns. -/
inductive Deed
  | evaluated
  | parked
  /-- A wait returned as it was timed out. -/
  | ranOut
  deriving DecidableEq

/-- What a wait of thread `t` shows of it. -/
def Event.deed? (t : ThreadId) : Event → Option Deed
  | .parked u => if u = t then some .parked else none
  | .returned u _ (.timedOut _ _) => if u = t then some .ranOut else none
  | _ => none

/-- What thread `t` does in a move. In a predicate wait, to work on the state is to evaluate the
condition. -/
def deed? (code : κ → Command σ κ ε) (t : ThreadId) (x : Machine σ κ ε × Cause) : Option Deed :=
  match command? code t x with
  | some (.access _) => some .evaluated
  | some _ => none
  | none => (x.2.shown code x.1).deed? t

def deeds (code : κ → Command σ κ ε) (t : ThreadId) (hs : List (Machine σ κ ε × Cause)) :
    List Deed :=
  hs.filterMap (deed? code t)

theorem deeds_concat (hs : List (Machine σ κ ε × Cause)) (m : Machine σ κ ε) (c : Cause) :
    deeds code t (hs ++ [(m, c)]) = deeds code t hs ++ (deed? code t (m, c)).toList := by
  rw [deeds, List.filterMap_append, deeds]
  cases h : deed? code t (m, c) with
  | none => simp [h]
  | some d => simp [h]

theorem deed?_eq_none_of_actor {e : Event} (h : e.actor ≠ some t) : e.deed? t = none := by
  cases e with
  | parked u =>
      apply if_neg
      intro hu
      exact h (congrArg some hu)
  | returned u condvar how =>
      cases how with
      | timedOut deadline now =>
          apply if_neg
          intro hu
          exact h (congrArg some hu)
      | _ => rfl
  | _ => rfl

theorem deed?_of_not_concerns {e : Event} (h : ¬e.Concerns t) : e.deed? t = none := by
  apply deed?_eq_none_of_actor
  intro hactor
  cases e with
  | read u r => exact h (Option.some.inj hactor)
  | parked u => exact h (Option.some.inj hactor)
  | returned u condvar how => exact h (Option.some.inj hactor)
  | _ => cases hactor

/-- Between any two evaluations there is a park. -/
def Spaced (ds : List Deed) : Prop :=
  ∀ before between after, ds = before ++ .evaluated :: between ++ .evaluated :: after →
    .parked ∈ between

/-- Since any evaluation there was a park. -/
def Rested (ds : List Deed) : Prop :=
  ∀ before after, ds = before ++ .evaluated :: after → .parked ∈ after

/-- The deeds of a predicate wait that has its result: only a look after a time-out, the last one,
has no park before it. -/
def Paused (ds : List Deed) : Prop :=
  Spaced ds ∨ ∃ earlier, ds = earlier ++ [.ranOut, .evaluated] ∧ Spaced earlier

section

variable {ds : List Deed} {d : Deed}

theorem spaced_nil : Spaced [] := by
  intro before between after h
  simp at h

theorem rested_nil : Rested [] := by
  intro before after h
  simp at h

/-- Where an evaluation stands in a list that has grown by one deed. -/
theorem split_concat {before after : List Deed}
    (h : ds ++ [d] = before ++ .evaluated :: after) :
    ds = before ∧ d = .evaluated ∨
      ∃ after', after = after' ++ [d] ∧ ds = before ++ .evaluated :: after' := by
  rcases List.eq_nil_or_concat' after with rfl | ⟨after, d', rfl⟩
  · exact .inl (List.append_singleton_inj.mp h)
  · rw [← List.cons_append, ← List.append_assoc] at h
    obtain ⟨hds, rfl⟩ := List.append_singleton_inj.mp h
    exact .inr ⟨after, rfl, hds⟩

theorem rested_concat_parked (ds : List Deed) : Rested (ds ++ [.parked]) := by
  intro before after h
  rcases split_concat h with ⟨-, hd⟩ | ⟨after, rfl, -⟩
  · cases hd
  · simp

theorem Spaced.concat (h : Spaced ds) (hd : d ≠ .evaluated) : Spaced (ds ++ [d]) := by
  intro before between after heq
  rcases split_concat heq with ⟨-, hd'⟩ | ⟨after, -, hds⟩
  · exact absurd hd' hd
  · exact h before between after hds

/-- Once it has parked, a predicate wait may evaluate its condition again. -/
theorem Spaced.concat_evaluated (h : Spaced ds) (hrested : Rested ds) :
    Spaced (ds ++ [.evaluated]) := by
  intro before between after heq
  rcases split_concat heq with ⟨hds, -⟩ | ⟨after, -, hds⟩
  · exact hrested before between hds
  · exact h before between after hds

end

end Machine

variable {σ κ ε μ : Type} {code : κ → Command σ κ ε} {m m' : Machine σ κ ε} {t : ThreadId}
  {mutex : MutexId} {c : Cause} {hs : List (Machine σ κ ε × Cause)}

open Machine

/-! ### Stages and policies

A timer that has counted a retry has parked, so at each stage it is known whether the wait has. -/

/-- Whether a wait at this stage has parked, unless it is about to end otherwise than signaled. -/
def Stage.HasParked : Stage → Prop
  | .reading timer | .parking (some (timer, _)) => 0 < timer.retries
  | .queued _ | .woken _ _ => True
  | .leaving how => how.result = .ok .signaled
  | _ => False

/-- A reading does not make up for a park: only a spent budget ends a wait as signaled. -/
theorem Stage.HasParked.of_pass {timer : Timer} {r : Except ClockError Time}
    (h : Stage.HasParked (.ofPass timer (timer.pass r))) : 0 < timer.retries := by
  cases r with
  | error e => cases h
  | ok now =>
      rw [Timer.pass] at h
      split at h
      · cases h
      · split at h
        · rename_i hspent
          exact Nat.lt_of_le_of_lt (Nat.zero_le _) hspent
        · exact h

/-- A timeout is counted at the start. From there on the policy is another one. -/
def Policy.isWithin : Policy → Bool
  | .within _ => true
  | _ => false

namespace PredicateWait

/-! ### Turns of the loop -/

/-- What a move of any kind does to a predicate wait, with what it shows of the wait. -/
inductive Turns (w : PredicateWait code μ) (t : ThreadId) :
    Option Deed → Phase μ → Phase μ → Prop
  | stay (phase : Phase μ) : Turns w t none phase phase
  | check (policy : Policy) (memory memory' : μ) (holds : Bool) :
      Turns w t (some .evaluated) (.running (.check policy) memory)
        (.running (policy.checked holds) memory')
  | recheck (memory memory' : μ) (holds : Bool) :
      Turns w t (some .evaluated) (.running .recheck memory)
        (.running (.done (.ok holds)) memory')
  | arm (policy : Policy) (interval : Duration) (reading : Except SyncError Time) (memory : μ) :
      Turns w t none (.running (.arm policy interval) memory)
        (.running (policy.armed interval reading) memory)
  | block (policy : Policy) (deadline : Option Time) (memory : μ) :
      Turns w t none (.running (.block policy deadline) memory)
        (.waiting policy deadline .entering memory)
  | register (policy : Policy) (deadline : Option Time) (memory : μ) (clock : Clock) :
      Turns w t none (.waiting policy deadline .entering memory)
        (.waiting policy deadline (.registered clock deadline) memory)
  | turnedAway (policy : Policy) (deadline : Option Time) (memory : μ) (e : SyncError) :
      Turns w t none (.waiting policy deadline .entering memory)
        (.running (policy.returned (.error e)) memory)
  | moved (policy : Policy) (deadline : Option Time) (memory : μ) {e : Event}
      {stage stage' : Stage} (h : Moved t w.condvar e stage stage') :
      Turns w t (e.deed? t) (.waiting policy deadline stage memory)
        (.waiting policy deadline stage' memory)
  | returned (policy : Policy) (deadline : Option Time) (memory : μ) (how : WaitEnd) :
      Turns w t ((Event.returned t w.condvar how).deed? t)
        (.waiting policy deadline (.leaving how) memory)
        (.running (policy.returned how.result) memory)

variable {w : PredicateWait code μ} {phase phase' : Phase μ} {memory : μ} {d : Option Deed}

theorem deed?_of_ne (hm : Caused code m c m') (hc : c ≠ .thread t) :
    deed? code t (m, c) = none := by
  rw [deed?, command?_of_ne hc]
  apply deed?_eq_none_of_actor
  intro hactor
  exact hc (hm.cause_eq hactor)

section

variable (h : Sound m) (hm : Caused code m c m')

include h hm

theorem turns_running {state : Policy.State} (hstands : w.Stands t mutex m (.running state memory))
    (hdone : (Phase.running state memory).done = false) :
    ∃ phase', w.Stands t mutex m' phase' ∧
      w.Turns t (deed? code t (m, c)) (.running state memory) phase' := by
  obtain ⟨place, ht, hcode⟩ := hstands.exists_place
  rcases h.parking.own_or_same hm ht rfl with ⟨rfl, hs⟩ | ⟨hc, hsame⟩
  · have hdoes : command? code t (m, .thread t) = some (state.command w.condvar (w.eval memory)
        memory w.goOn (w.finish memory)) := hcode ▸ command?_of_running ht
    have hself := getElem?_set_self_of_getElem? ht
    have hcommand := hs.command
    rw [hcode] at hcommand
    rw [deed?, hdoes]
    cases state with
    | check policy =>
        obtain ⟨mutex', x, hg, hx, rfl⟩ := hcommand
        exact ⟨_, w.stands_goOn (hself _), .check policy memory _ _⟩
    | arm policy interval =>
        obtain ⟨notes, control, line, hcalm, rfl⟩ := hcommand
        cases hcalm with
        | read hcv => exact ⟨_, w.stands_goOn (hself _), .arm policy interval _ memory⟩
    | block policy deadline =>
        obtain ⟨notes, control, line, hcalm, rfl⟩ := hcommand
        cases hcalm
        exact ⟨.waiting policy deadline .entering memory, hself _, .block policy deadline memory⟩
    | recheck =>
        obtain ⟨mutex', x, hg, hx, rfl⟩ := hcommand
        exact ⟨_, w.stands_goOn (hself _), .recheck memory _ _⟩
    | done result => cases hdone
  · rw [deed?_of_ne hm hc]
    exact ⟨_, hstands.congr (hsame.trans ht.symm), .stay _⟩

theorem turns_entering {policy : Policy} {deadline : Option Time}
    (hstands : w.Stands t mutex m (.waiting policy deadline .entering memory)) :
    ∃ phase', w.Stands t mutex m' phase' ∧
      w.Turns t (deed? code t (m, c)) (.waiting policy deadline .entering memory) phase' := by
  have ht : m.threads[t]? = some ((w.call mutex policy deadline memory).thread .entering) := hstands
  rcases h.parking.own_or_same hm ht rfl with ⟨rfl, hs⟩ | ⟨hc, hsame⟩
  · have hself := getElem?_set_self_of_getElem? ht
    have hshown : deed? code t (m, .thread t) = none := by
      rw [deed?, command?_of_waiting ht]
      dsimp only [Cause.shown]
      rw [shown_waiting ht rfl]
      rfl
    rw [hshown]
    cases hs with
    | register hc hg hcv hno =>
        cases hc
        exact ⟨.waiting policy deadline _ memory, hself _, .register policy deadline memory _⟩
    | reject hc hg hcv hconflict =>
        cases hc
        exact ⟨_, w.stands_goOn (hself _), .turnedAway policy deadline memory _⟩
    | calm line hc hcalm => cases hc
    | _ hc => cases hc
  · rw [deed?_of_ne hm hc]
    exact ⟨_, hstands.congr (hsame.trans ht.symm), .stay _⟩

/-- A predicate wait without its result takes its turns, whatever moves. -/
theorem Stands.turns (hstands : w.Stands t mutex m phase) (hdone : phase.done = false) :
    ∃ phase', w.Stands t mutex m' phase' ∧ w.Turns t (deed? code t (m, c)) phase phase' := by
  cases phase with
  | running state memory => exact turns_running h hm hstands hdone
  | waiting policy deadline stage memory =>
      by_cases hreg : stage = .entering
      · subst hreg
        exact turns_entering h hm hstands
      · have ht : m.threads[t]? = some ((w.call mutex policy deadline memory).thread stage) :=
          hstands
        rw [deed?, command?_of_waiting ht]
        rcases h.moved hm.next ht hreg with ⟨stage', ht', hmoved⟩ | ⟨how, rfl, he, ht'⟩
        · exact ⟨.waiting policy deadline stage' memory, ht', .moved policy deadline memory hmoved⟩
        · dsimp only
          rw [he]
          exact ⟨_, w.stands_goOn ht', .returned policy deadline memory how⟩

end

/-! ### Pauses -/

/-- What a predicate wait has done, by its phase. -/
def Pausing (ds : List Deed) : Phase μ → Prop
  | .running (.check policy) _ => policy.isWithin = false ∧ Spaced ds ∧ Rested ds
  | .running (.arm policy _) _ =>
    policy.isWithin = true ∧ ds = [] ∨ policy.isWithin = false ∧ Spaced ds
  | .running (.block policy _) _ => policy.isWithin = false ∧ Spaced ds
  | .running .recheck _ => ∃ earlier, ds = earlier ++ [.ranOut] ∧ Spaced earlier
  | .running (.done _) _ => Paused ds
  | .waiting policy _ stage _ =>
    policy.isWithin = false ∧ Spaced ds ∧ (stage.HasParked → Rested ds)

variable {ds : List Deed} {policy : Policy} {deadline : Option Time} {stage stage' : Stage}

theorem Pausing.start (policy : Policy) (memory : μ) :
    Pausing [] (.running policy.start memory) := by
  cases policy with
  | within timeout => exact .inl ⟨rfl, rfl⟩
  | _ => exact ⟨rfl, spaced_nil, rested_nil⟩

/-- As long as there is no result, there is a park between any two evaluations. -/
theorem Pausing.spaced (h : Pausing ds phase) (hdone : phase.done = false) : Spaced ds := by
  cases phase with
  | running state memory =>
      cases state with
      | check policy => exact h.2.1
      | arm policy interval =>
          rcases h with ⟨-, rfl⟩ | ⟨-, h⟩
          · exact spaced_nil
          · exact h
      | block policy deadline => exact h.2
      | recheck =>
          obtain ⟨earlier, rfl, hearlier⟩ := h
          exact hearlier.concat nofun
      | done result => cases hdone
  | waiting policy deadline stage memory => exact h.2.1

/-- Past a successful evaluation there is the result, and past any other one a wait. -/
theorem Pausing.checked (holds : Bool) (memory : μ) (hpolicy : policy.isWithin = false)
    (h : Spaced ds) : Pausing ds (.running (policy.checked holds) memory) := by
  cases holds with
  | true => exact .inl h
  | false =>
      cases policy with
      | within timeout => cases hpolicy
      | quiet delay => exact .inr ⟨rfl, h⟩
      | _ => exact ⟨rfl, h⟩

theorem Pausing.armed {interval : Duration} (reading : Except SyncError Time)
    (h : Pausing ds (.running (.arm policy interval) memory)) :
    Pausing ds (.running (policy.armed interval reading) memory) := by
  have hspaced := h.spaced rfl
  cases reading with
  | error e => exact .inl hspaced
  | ok now =>
      cases policy with
      | within timeout =>
          rcases h with ⟨-, rfl⟩ | ⟨hpolicy, -⟩
          · exact ⟨rfl, spaced_nil, rested_nil⟩
          · cases hpolicy
      | _ => exact ⟨rfl, hspaced⟩

theorem Pausing.moved {e : Event} {condvar : CondvarId} (hm : Moved t condvar e stage stage')
    (h : Pausing ds (.waiting policy deadline stage memory)) :
    Pausing (ds ++ (e.deed? t).toList) (.waiting policy deadline stage' memory) := by
  obtain ⟨hpolicy, hspaced, hrested⟩ := h
  cases hm with
  | stay he =>
      rw [deed?_of_not_concerns he, Option.toList_none, List.append_nil]
      exact ⟨hpolicy, hspaced, hrested⟩
  | park timed =>
      have hdeed : (Event.parked t).deed? t = some .parked := if_pos rfl
      rw [hdeed]
      exact ⟨hpolicy, hspaced.concat nofun, fun _ => rested_concat_parked ds⟩
  | read timer r =>
      show Pausing (ds ++ []) _
      rw [List.append_nil]
      exact ⟨hpolicy, hspaced, fun hparked => hrested hparked.of_pass⟩
  | notified timed result ht =>
      show Pausing (ds ++ []) _
      rw [List.append_nil]
      exact ⟨hpolicy, hspaced, fun _ => hrested trivial⟩
  | expired timed =>
      show Pausing (ds ++ []) _
      rw [List.append_nil]
      exact ⟨hpolicy, hspaced, fun _ => hrested trivial⟩
  | retake notified timed =>
      show Pausing (ds ++ []) _
      rw [List.append_nil]
      exact ⟨hpolicy, hspaced, fun _ => hrested trivial⟩

theorem Pausing.returned {condvar : CondvarId} {how : WaitEnd}
    (h : Pausing ds (.waiting policy deadline (.leaving how) memory)) :
    Pausing (ds ++ ((Event.returned t condvar how).deed? t).toList)
      (.running (policy.returned how.result) memory) := by
  obtain ⟨hpolicy, hspaced, hrested⟩ := h
  cases how with
  | notified =>
      show Pausing (ds ++ []) _
      rw [List.append_nil]
      exact ⟨hpolicy, hspaced, hrested rfl⟩
  | skewed clock d now =>
      show Pausing (ds ++ []) _
      rw [List.append_nil]
      exact ⟨hpolicy, hspaced, hrested rfl⟩
  | failed e =>
      show Pausing (ds ++ []) _
      rw [List.append_nil]
      exact .inl hspaced
  | timedOut d now =>
      have hdeed : (Event.returned t condvar (.timedOut d now)).deed? t = some .ranOut := if_pos rfl
      rw [hdeed]
      -- a quiet period is over then, and any other wait looks once more
      cases policy with
      | quiet delay => exact .inl (hspaced.concat nofun)
      | _ => exact ⟨ds, rfl, hspaced⟩

/-- A turn keeps to the pauses. -/
theorem Pausing.turn {d : Option Deed} (h : Pausing ds phase) (hturn : w.Turns t d phase phase') :
    Pausing (ds ++ d.toList) phase' := by
  cases hturn with
  | stay =>
      rw [Option.toList_none, List.append_nil]
      exact h
  | check policy memory memory' holds =>
      obtain ⟨hpolicy, hspaced, hrested⟩ := h
      exact .checked holds memory' hpolicy (hspaced.concat_evaluated hrested)
  | recheck memory memory' holds =>
      obtain ⟨earlier, rfl, hearlier⟩ := h
      exact .inr ⟨earlier, by simp, hearlier⟩
  | arm policy interval reading memory =>
      rw [Option.toList_none, List.append_nil]
      exact h.armed reading
  | block policy deadline memory =>
      rw [Option.toList_none, List.append_nil]
      exact ⟨h.1, h.2, False.elim⟩
  | register policy deadline memory clock =>
      rw [Option.toList_none, List.append_nil]
      refine ⟨h.1, h.2.1, fun hparked => ?_⟩
      cases deadline with
      | none => cases hparked
      | some deadline => exact absurd hparked (Nat.lt_irrefl 0)
  | turnedAway policy deadline memory e =>
      rw [Option.toList_none, List.append_nil]
      exact .inl h.2.1
  | moved policy deadline memory hmoved => exact h.moved hmoved
  | returned policy deadline memory how => exact h.returned

/-- A predicate wait keeps to the pauses until it has its result, and up to there. -/
theorem Pausing.follow (hsound : Sound m)
    (hstands : w.Stands t mutex m (.running policy.start memory))
    (chronicle : Chronicle code m hs m') :
    (∃ phase, w.Stands t mutex m' phase ∧ phase.done = false ∧
      Pausing (deeds code t hs) phase) ∨
    ∃ before after m₁ result memory', hs = before ++ after ∧ Chronicle code m before m₁ ∧
      w.Stands t mutex m₁ (.running (.done result) memory') ∧ Paused (deeds code t before) := by
  induction chronicle with
  | nil => exact .inl ⟨_, hstands, by cases policy <;> rfl, .start policy memory⟩
  | @snoc hs c m₁ m₂ chronicle move ih =>
      rcases ih with ⟨phase, hstands₁, hdone, hpausing⟩ |
        ⟨before, after, m₀, result, memory', rfl, hbefore, hstands₀, hpaused⟩
      · have hsound₁ := chronicle.run.invariant Sound.next hsound
        obtain ⟨phase', hstands₂, hturn⟩ := hstands₁.turns hsound₁ move hdone
        have hpausing' := hpausing.turn hturn
        rw [← deeds_concat] at hpausing'
        cases hdone' : phase'.done with
        | false => exact .inl ⟨phase', hstands₂, hdone', hpausing'⟩
        | true =>
            obtain ⟨result, memory', rfl⟩ := Phase.eq_done hdone'
            exact .inr ⟨_, [], m₂, result, memory', (List.append_nil _).symm,
              chronicle.snoc move, hstands₂, hpausing'⟩
      · exact .inr ⟨before, after ++ [(m₁, c)], m₀, result, memory', by simp, hbefore, hstands₀,
          hpaused⟩

end PredicateWait

end TimedCondvar
