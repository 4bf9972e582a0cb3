import TimedCondvar.Proofs.WideSpacing

/-!
The warning about wide spacing. It says that every event will be a batch of its own, and comes
whenever the spacing is not below the delay. That holds if the spacing is above the delay. If both
are the same then the next event comes first, as the producer has slept for longer than the consumer
has waited, so that a burst is still one batch; and if both are zero all the bursts are.
-/

namespace TimedCondvar.Demo

open Machine

variable {s s' : Settings} {cs : Clocks} {offset mono : Int} {k r e : Nat}
  {log₀ log : List (Entry Event)} {m : ProgramMachine} {box : Inbox} {consumer : Thread Place}

/-! ### All at once -/

/-- Bursts without events and without pauses. -/
theorem plays_empty_bursts {parked : List Parked} (hzero : s.events = 0)
    (hgap : s.gap.totalNanos = 0) (r : Nat) :
    Plays s r
      (scene s cs mono box none taken consumer (running (.burst r)) parked [producerThread]
        log)
      (scene s cs mono box none taken consumer (running (.burst 0)) parked [producerThread]
        log) := by
  induction r with
  | zero => exact fun _ => rfl
  | succ r ih =>
      have hcode : s.code (.burst (r + 1)) = .sleep s.gap (.burst r) := by
        rw [Settings.code, hzero, Settings.nextEvent]
      exact (plays_no_sleep hcode hgap).trans ih

/-- All events that are left come before the consumer has its mutex back. -/
theorem plays_bursts_at_once (cs : Clocks) (mono : Int) (consumer : Thread Place)
    (hevents : 0 < s.events) (hspacing : s.spacing.totalNanos = 0) (hgap : s.gap.totalNanos = 0)
    (r e : Nat) (box : Inbox) (hpending : box.pending ≠ []) (hopen : box.shutdown = false)
    (told : Told s' log₀ k log) :
    ∃ box' log', Plays s (6 * e + 1 + r * (6 * s.events + 1))
        (scene s cs mono box none taken consumer (running (.event r e)) []
          [producerThread, mainThread] log)
        (scene s cs mono box' none taken consumer (running (.burst 0)) []
          [producerThread, mainThread] log') ∧
      box'.pending.length = box.pending.length + (e + r * s.events) ∧ box'.pending ≠ [] ∧
      Told s' log₀ k log' := by
  induction r generalizing e box log with
  | zero =>
      obtain ⟨box', log', hall, hlength, hsome, -, told'⟩ := plays_events_at_once cs mono consumer 0
        hspacing e box hpending hopen told
      refine ⟨box', log', ?_, by omega, hsome, told'⟩
      rw [Nat.zero_mul, Nat.add_zero, Nat.add_comm]
      exact hall.trans (plays_no_sleep rfl hgap)
  | succ r ih =>
      -- the rest of this burst, the pause that takes no time, one event of the next burst
      obtain ⟨box₁, log₁, hall, hlength₁, hsome₁, hopen₁, told₁⟩ := plays_events_at_once cs mono
        consumer (r + 1) hspacing e box hpending hopen told
      obtain ⟨e', he'⟩ := Nat.exists_eq_add_one.mpr hevents
      have hcode : s.code (.burst (r + 1)) = .lock inbox (.stamping r e') := by
        rw [Settings.code, he', Settings.nextEvent]
      have hevent : Plays s 5 (scene s cs mono box₁ none taken consumer (running (.burst (r + 1)))
        [] [producerThread, mainThread] log₁) _ := plays_event_unheard hcode
      obtain ⟨box₂, log₂, hrest, hlength₂, hsome₂, told₂⟩ := ih e'
        { box₁ with pending := box₁.pending ++ [stampAt cs mono] } (by simp) hopen₁
        (told₁.record mono producerThread (.signaled false))
      have hplays := (hall.trans (plays_no_sleep rfl hgap)).trans
        ((hevent.trans (plays_no_sleep rfl hspacing)).trans hrest)
      have hturns : 6 * e' + 1 + r * (6 * s.events + 1) + (1 + 5) + (1 + 6 * e) =
          6 * e + 1 + (r + 1) * (6 * s.events + 1) := by
        rw [Nat.succ_mul r]
        omega
      rw [hturns] at hplays
      refine ⟨box₂, log₂, hplays, ?_, hsome₂, told₂⟩
      rw [hlength₂, List.length_append, List.length_singleton, hlength₁, Nat.succ_mul r]
      omega

/-- The producer sets the flag and ends before the consumer has its mutex back. The consumer does
not wait then. It handles what is pending as one batch, and all is over. -/
theorem plays_end_at_once {count : Count} (hpending : box.pending ≠ [])
    (hall : count.handled + box.pending.length = s.events * s.bursts) :
    ∃ e, Plays s 22
      (scene s cs mono box none taken (awaiting count (.woken true none)) (running (.burst 0)) []
        [producerThread, mainThread] log)
      (scene s cs mono { shutdown := true } none {} ⟨.ended, none⟩ ⟨.ended, none⟩ [] []
        (⟨mono, some mainThread,
            .event (.finished (count.batches + 1) (count.handled + box.pending.length))⟩ ::
          ⟨mono, some mainThread, .event (.batch (count.batches + 1) box.pending)⟩ ::
          ⟨mono, some mainThread, .spanEnded e⟩ :: ⟨mono, some mainThread, .spanOpened s.span⟩ ::
          ⟨mono, some producerThread, .record (.signaled false)⟩ :: log)) := by
  obtain ⟨pending, shutdown⟩ := box
  have hcloses : Plays s 5
      (scene s cs mono ⟨pending, shutdown⟩ none taken (awaiting count (.woken true none))
        (running (.burst 0)) [] [producerThread, mainThread] log)
      (scene s cs mono ⟨pending, true⟩ none taken (awaiting count (.woken true none))
        ⟨.ended, none⟩ [] [mainThread]
        (⟨mono, some producerThread, .record (.signaled false)⟩ :: log)) := fun _ => rfl
  have hfound := hcloses.trans (plays_found hpending)
  have hbatch := hfound.trans (k := 9) fun _ => rfl
  exact ⟨s.span.finish mono mono true, hbatch.trans (plays_tell hall)⟩

/-! ### The end of a run -/

/-- The settings as they come to a consumer that handles all events together. -/
def Settings.atOnce (s : Settings) : Settings :=
  { s with events := s.events * s.bursts, bursts := 1 }

/-- The log of a run that is over tells of the batches of all bursts, and last of how many they
were. -/
def Concludes (s : Settings) (log₀ log : List (Entry Event)) : Prop :=
  Told s log₀ s.bursts log ∧ ∃ mono log', log = ⟨mono, some mainThread,
    .event (.finished (countOf s s.bursts).batches (countOf s s.bursts).handled)⟩ :: log'

/-- Nothing is left to happen, and no park is due. -/
structure Over (s : Settings) (log₀ : List (Entry Event)) (c : Nat) (m : ProgramMachine) :
    Prop where
  parked : m.parked = []
  line : m.line = []
  due : c = 0
  concludes : Concludes s log₀ m.log

theorem Over.turn_eq_none {c : Nat} (h : Over s' log₀ c m) : m.turn s.code = none := by
  rw [turn, h.line]
  rfl

theorem Over.next {horizon : Int} {c : Nat} (h : Over s' log₀ c m) :
    firstExpiry m.parked = none ∧ c = 0 ∨
      ∃ u t j c', NextRest s (Over s' log₀) horizon c m u t j c' := by
  refine .inl ⟨?_, h.due⟩
  rw [h.parked]
  rfl

theorem over_of_told {batches handled : Nat} (told : Told s' log₀ s'.bursts log)
    (hcount : ⟨batches, handled⟩ = countOf s' s'.bursts) :
    Over s' log₀ 0 (scene s cs mono { shutdown := true } none {} ⟨.ended, none⟩ ⟨.ended, none⟩ [] []
      (⟨mono, some mainThread, .event (.finished batches handled)⟩ :: log)) := by
  refine ⟨rfl, rfl, rfl, ⟨told.batches, told.failure⟩, mono, log, ?_⟩
  rw [← hcount]
  rfl

/-- There are no events, and so no batches. -/
theorem comes_to_nothing (hgap : s.gap.totalNanos = 0) (hnone : s.events * s.bursts = 0)
    (told : Told s.atOnce log₀ 0 log) :
    ComesToRest s (Over s.atOnce log₀) (13 + s.bursts) 0 (scene s cs mono {} none taken
      (awaiting (countOf s.atOnce 0) (.queued none)) (running (.burst s.bursts))
      [⟨mainThread, some signalled, none⟩] [producerThread] log) := by
  have hbursts : Plays s s.bursts (scene s cs mono {} none taken
      (awaiting (countOf s.atOnce 0) (.queued none)) (running (.burst s.bursts))
      [⟨mainThread, some signalled, none⟩] [producerThread] log)
      (scene s cs mono {} none taken (awaiting (countOf s.atOnce 0) (.queued none))
        (running (.burst 0)) [⟨mainThread, some signalled, none⟩] [producerThread] log) := by
    rcases Nat.mul_eq_zero.mp hnone with hevents | hbursts
    · exact plays_empty_bursts hevents hgap s.bursts
    · rw [hbursts]
      exact fun _ => rfl
  have hall : (countOf s.atOnce 0).handled = s.events * s.bursts := by
    rw [countOf_zero, hnone]
  exact ⟨_, hbursts.trans (plays_end hall),
    over_of_told ((told.record _ _ _).skip hnone) (countOf_skip hnone).symm, rfl⟩

/-- All events come before the consumer wakes up, and are one batch. -/
theorem comes_to_one_batch (hspacing : s.spacing.totalNanos = 0) (hgap : s.gap.totalNanos = 0)
    (hsome : 0 < s.events * s.bursts) (told : Told s.atOnce log₀ 0 log) :
    ∃ j ≤ legWork s, ComesToRest s (Over s.atOnce log₀) j 0 (scene s cs mono {} none taken
      (awaiting (countOf s.atOnce 0) (.queued none)) (running (.burst s.bursts))
      [⟨mainThread, some signalled, none⟩] [producerThread] log) := by
  obtain ⟨hevents, hbursts⟩ := Nat.mul_ne_zero_iff.mp (Nat.ne_of_gt hsome)
  obtain ⟨e, he⟩ := Nat.exists_eq_add_one_of_ne_zero hevents
  obtain ⟨r, hr⟩ := Nat.exists_eq_add_one_of_ne_zero hbursts
  have hcode : s.code (.burst s.bursts) = .lock inbox (.stamping r e) := by
    rw [hr, Settings.code, he, Settings.nextEvent]
  have hevent : Plays s 5 (scene s cs mono {} none taken
    (awaiting (countOf s.atOnce 0) (.queued none)) (running (.burst s.bursts))
    [⟨mainThread, some signalled, none⟩] [producerThread] log) _ := plays_event hcode
  obtain ⟨box, log', hplays, hlength, hpending, told'⟩ := plays_bursts_at_once cs mono
    (awaiting (countOf s.atOnce 0) (.woken true none)) (Nat.pos_of_ne_zero hevents) hspacing hgap
    r e { pending := [stampAt cs mono] } (List.cons_ne_nil _ _) rfl
    (told.record mono producerThread (.signaled true))
  have hall : s.atOnce.events = 1 + (e + r * s.events) := by
    have hsplit : s.atOnce.events = s.events * (r + 1) := congrArg _ hr
    rw [hsplit, Nat.mul_succ, Nat.mul_comm r]
    omega
  have hlength : box.pending.length = s.atOnce.events := hlength.trans hall.symm
  have hhandled : (countOf s.atOnce 0).handled + box.pending.length = s.events * s.bursts := by
    rw [hlength, countOf_zero]
    exact Nat.zero_add _
  obtain ⟨e', hend⟩ := plays_end_at_once hpending hhandled
  have hbatch : Told s.atOnce log₀ 0 (⟨mono, some mainThread, .spanEnded e'⟩ ::
      ⟨mono, some mainThread, .spanOpened s.span⟩ ::
      ⟨mono, some producerThread, .record (.signaled false)⟩ :: log') :=
    ⟨told'.batches, told'.failure⟩
  refine ⟨_, ?_, _, ((hevent.trans (plays_no_sleep rfl hspacing)).trans hplays).trans hend,
    over_of_told (hbatch.batch hlength hsome) ?_, rfl⟩
  · rw [legWork, hr, Nat.succ_mul r, he]
    omega
  · rw [hlength]
    exact countOf_batch hsome

theorem Fits.ended_at_once (h : Fits s offset m) (hspacing : s.spacing.totalNanos = 0)
    (hdelay : s.delay.totalNanos = 0) :
    ∃ last : ProgramMachine, start s m = ⟨last.log.reverse, failureOf last.log⟩ ∧
      Concludes s.atOnce m.log last.log := by
  have hgap := gap_eq_zero hdelay
  obtain ⟨now, last, hlast, hstart⟩ := h.start_eq
  have told : Told s.atOnce m.log 0 (opening s m.mono now m.log) :=
    told_opening s s.atOnce m.mono now m.log
  obtain ⟨j, hj, hrest⟩ : ∃ j ≤ legWork s, ComesToRest s (Over s.atOnce m.log) j 0
      (scene s m.clocks m.mono {} none taken (awaiting (countOf s.atOnce 0) (.queued none))
        (running (.burst s.bursts)) [⟨mainThread, some signalled, none⟩] [producerThread]
        (opening s m.mono now m.log)) := by
    rcases Nat.eq_zero_or_pos (s.events * s.bursts) with hnone | hsome
    · refine ⟨_, ?_, comes_to_nothing hgap hnone told⟩
      rw [legWork, Nat.mul_succ]
      omega
    · exact comes_to_one_batch hspacing hgap hsome told
  rw [countOf_zero] at hrest
  have hover := runThreads_of_next rfl Over.turn_eq_none (fun _ h => h.next) hj
    (Nat.zero_le 1) hrest
  rw [← hlast] at hover
  exact ⟨last, hstart, hover.concludes⟩

/-! ### What the consumer hears -/

/-- The settings as they come to the consumer: how many bursts it hears of how many events. -/
def Settings.heard (s : Settings) : Settings :=
  if s.delay < s.spacing then s.singly else if s.delay = .zero then s.atOnce else s

theorem Lull.concludes {horizon : Int} (h : Lull s cs offset horizon log₀ 0 m) :
    Concludes s.singly log₀ m.log := by
  cases h with
  | ended told => exact ⟨⟨told.batches, told.failure⟩, _, _, rfl⟩

/-- Whatever its settings are, the program handles the bursts that the consumer hears. -/
theorem Fits.concludes (h : Fits s offset m) :
    ∃ last : ProgramMachine, start s m = ⟨last.log.reverse, failureOf last.log⟩ ∧
      Concludes s.heard m.log last.log := by
  rw [Settings.heard]
  split
  · rename_i hlt
    obtain ⟨last, hstart, lull⟩ := h.ended_of_lt hlt
    exact ⟨last, hstart, lull.concludes⟩
  rename_i hnlt
  have hle : s.spacing.totalNanos ≤ s.delay.totalNanos := Nat.le_of_not_lt hnlt
  split
  · rename_i hzero
    have hdelay : s.delay.totalNanos = 0 := by
      rw [hzero]
      rfl
    exact h.ended_at_once (by omega) hdelay
  · rename_i hne
    have hdelay : s.delay.totalNanos ≠ 0 := fun hzero => hne (Duration.totalNanos_injective hzero)
    obtain ⟨last, hstart, rest⟩ := h.ended_of_le fun _ => ⟨Nat.pos_of_ne_zero hdelay, hle⟩
    exact ⟨last, hstart, rest.ended_of_zero⟩

theorem batches_countOf (s : Settings) : (countOf s s.bursts).batches = (allBatches s).length := by
  rw [countOf, allBatches]
  split
  · rfl
  · rw [List.length_map, List.length_range]

theorem handled_heard (s : Settings) :
    (countOf s.heard s.heard.bursts).handled = s.events * s.bursts := by
  rw [Settings.heard]
  split
  · exact Nat.mul_one _
  · split
    · exact Nat.one_mul _
    · exact Nat.mul_comm ..

/-- Each of `n` events a batch of its own. -/
def ownBatches (n : Nat) : List (Nat × Nat) := (List.range n).map fun event => (event + 1, 1)

theorem allBatches_singly (s : Settings) : allBatches s.singly = ownBatches (s.events * s.bursts) :=
  rfl

/-- Bursts are batches of one event only if there is one event in each, or none at all. -/
theorem allBatches_eq_ownBatches_iff (s : Settings) :
    allBatches s = ownBatches (s.events * s.bursts) ↔ s.events ≤ 1 ∨ s.bursts = 0 := by
  rw [allBatches]
  rcases Nat.lt_or_ge 1 s.events with hmany | hfew
  · rw [if_neg (by omega)]
    cases s.bursts with
    | zero => simp [ownBatches]
    | succ r =>
        have hsome : s.events * (r + 1) = s.events * r + s.events - 1 + 1 := by
          rw [Nat.mul_succ]
          omega
        rw [hsome, ownBatches, List.range_succ_eq_map, List.range_succ_eq_map]
        simp
        omega
  · rcases Nat.le_one_iff_eq_zero_or_eq_one.mp hfew with hzero | hone
    · simp [hzero, ownBatches]
    · simp [hone, ownBatches]

theorem allBatches_heard_iff (s : Settings) :
    allBatches s.heard = ownBatches (s.events * s.bursts) ↔
      s.delay < s.spacing ∨ s.events * s.bursts ≤ 1 ∨ s.delay ≠ .zero ∧ s.events ≤ 1 := by
  rw [Settings.heard]
  split
  · rename_i hlt
    simp [allBatches_singly, hlt]
  rename_i hnlt
  split
  · rename_i hzero
    have honce : allBatches s.atOnce = ownBatches (s.events * s.bursts * 1) ↔
        s.events * s.bursts ≤ 1 ∨ 1 = 0 := allBatches_eq_ownBatches_iff s.atOnce
    rw [Nat.mul_one] at honce
    rw [hzero] at hnlt ⊢
    simp [honce, hnlt]
  · rename_i hne
    have hfew : s.events ≤ 1 ∨ s.bursts = 0 ↔ s.events * s.bursts ≤ 1 ∨ s.events ≤ 1 := by
      refine ⟨fun h => h.symm.imp_left fun hzero => by simp [hzero], ?_⟩
      rintro (hle | hle)
      · refine (Nat.eq_zero_or_pos s.bursts).symm.imp_left fun hpos => ?_
        exact Nat.le_trans (Nat.le_mul_of_pos_right _ hpos) hle
      · exact .inl hle
    simp [allBatches_eq_ownBatches_iff, hfew, hnlt, hne]

/-- The warning stays in the log. -/
theorem Fits.warned (h : Fits s offset m) (hwide : s.delay ≤ s.spacing) :
    ⟨m.mono, some mainThread, .event (.wideSpacing s.spacing s.delay)⟩ ∈ (start s m).log := by
  obtain ⟨now, last, rfl, hstart⟩ := h.start_eq
  have hopening : ⟨m.mono, some mainThread, .event (.wideSpacing s.spacing s.delay)⟩ ∈
      opening s m.mono now m.log := by
    rw [opening, if_pos hwide]
    exact List.mem_cons_of_mem _ (List.mem_cons_of_mem _ List.mem_cons_self)
  rw [hstart]
  exact List.mem_reverse.2 (mem_log_runThreads hopening)

/-- On a clock that goes along with the park clock the program ends without a failure, and what it
handles is settled by what the consumer hears: each event by itself if the spacing is above the
delay, everything as one batch if there is neither spacing nor delay, and otherwise one batch for
each burst. The warning that each event is a batch of its own is in the log whenever the spacing is
not below the delay. It holds if the spacing is above the delay, if there is one event at most, or
if there is a delay and no burst has several events. Where the two are the same it fails but for
these cases. -/
theorem own_batches_iff (h : Fits s offset m) :
    batchesIn (start s m).log = batchesIn m.log.reverse ++ allBatches s.heard ∧
    (start s m).failure = failureOf m.log ∧
    (∃ mono, (start s m).log.getLast? = some ⟨mono, some mainThread,
      .event (.finished (allBatches s.heard).length (s.events * s.bursts))⟩) ∧
    (s.delay ≤ s.spacing →
      ⟨m.mono, some mainThread, .event (.wideSpacing s.spacing s.delay)⟩ ∈ (start s m).log) ∧
    (batchesIn (start s m).log = batchesIn m.log.reverse ++ ownBatches (s.events * s.bursts) ↔
      s.delay < s.spacing ∨ s.events * s.bursts ≤ 1 ∨ s.delay ≠ .zero ∧ s.events ≤ 1) := by
  obtain ⟨last, hstart, told, mono, log, hlog⟩ := h.concludes
  have hbatches : batchesIn (start s m).log = batchesIn m.log.reverse ++ allBatches s.heard := by
    rw [hstart]
    exact told.reverse
  refine ⟨hbatches, ?_, ⟨mono, ?_⟩, h.warned, ?_⟩
  · rw [hstart]
    exact told.failure
  · rw [hstart]
    dsimp only
    rw [hlog, List.getLast?_reverse, batches_countOf, handled_heard]
    rfl
  · rw [hbatches, List.append_cancel_left_eq]
    exact allBatches_heard_iff s

/-- Two events in a burst, as far apart as the delay is long. -/
def tied : Settings :=
  { delay := .ofMillis 50, spacing := .ofMillis 50, events := 2, bursts := 1 }

/-- The program warns, and handles them as one batch. -/
theorem own_batches_fail_for_tied : Fits tied 0 machine ∧
    ⟨origin, some mainThread, .event (.wideSpacing tied.spacing tied.delay)⟩ ∈
      (start tied machine).log ∧
    batchesIn (start tied machine).log = [(1, 2)] ∧ ownBatches 2 = [(1, 1), (2, 1)] := by
  have hfits : Fits tied 0 machine := fits_machine [] (by decide)
  obtain ⟨hbatches, -, -, hwarned, -⟩ := own_batches_iff hfits
  have hheard : allBatches tied.heard = [(1, 2)] := by decide
  rw [hheard] at hbatches
  exact ⟨hfits, hwarned (by decide), hbatches, rfl⟩

end TimedCondvar.Demo
