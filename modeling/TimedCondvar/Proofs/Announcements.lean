import TimedCondvar.Proofs.Demonstration

/-!
The demonstration does not hang. The consumer waits without a deadline only after it has found the
inbox empty and the flag not set, and it has the mutex from then on until it is queued. So what the
producer does to the inbox is done before the consumer looks, or after it is queued; in the second
case the notification is still to come, and it finds the consumer in the queue.
-/

namespace TimedCondvar.Demo

open Machine

/-- The producer has something to tell of: events, or its flag. -/
structure Owing (e : Emitting) (box : Inbox) : Prop where
  events : box.pending ≠ [] → ∃ left, e = .owing left
  flag : box.shutdown = true → e = .closing

/-- What the consumer can rely on while it is about to wait, or waits. -/
structure Awaited (v : View) : Prop where
  decided : ∀ {count : Count}, v.consumer = .decided count → ¬v.inbox.Stirs
  queued : ∀ {count : Count}, v.consumer = .queued count → Owing v.producer v.inbox
  flag : v.producer = .closing ∨ v.producer = .done → v.inbox.shutdown = true

variable {s : Settings} {m₀ m m' : ProgramMachine} {v v' : View} {deed : Deed} {c : Collecting}
  {e : Emitting} {box : Inbox} {es : List Machine.Event} {shown : Machine.Event}

theorem owing_of_not_stirs (h : ¬box.Stirs) (e : Emitting) : Owing e box where
  events hpending := absurd (.inl hpending) h
  flag hshut := absurd (.inr hshut) h

theorem awaited_start (s : Settings) : Awaited (.start s) where
  decided h := nomatch h
  queued h := nomatch h
  flag h := by rcases h with h | h <;> cases h

theorem Awaited.collect (h : Awaited v) (hcollects : Collects v.consumer v.inbox deed c box) :
    Awaited ⟨c, v.producer, box⟩ := by
  obtain ⟨consumer, producer, inbox⟩ := v
  cases hcollects with
  | stay => exact h
  | unmet hquiet => exact ⟨fun _ => hquiet, nofun, h.flag⟩
  | park => exact ⟨nofun, fun _ => owing_of_not_stirs (h.decided rfl) producer, h.flag⟩
  | _ => exact ⟨nofun, nofun, h.flag⟩

/-- A consumer that is woken waits no longer. -/
theorem Awaited.woken (h : Awaited v) : Awaited { v with consumer := v.consumer.woken } := by
  obtain ⟨consumer, producer, inbox⟩ := v
  cases consumer with
  | queued count => exact ⟨nofun, nofun, h.flag⟩
  | _ => exact h

theorem Collecting.woken_ne_queued (c : Collecting) (count : Count) :
    c.woken ≠ .queued count := by
  cases c <;> exact nofun

theorem Collecting.decided_of_after {count : Count} (h : c.after deed = .decided count) :
    c = .decided count := by
  cases deed with
  | announce =>
      cases c with
      | queued count => cases h
      | _ => exact h
  | _ => exact h

theorem Awaited.emit (h : Awaited v) (hemits : Emits v.producer v.inbox deed e box)
    (hfree : box = v.inbox ∨ ∀ count, v.consumer ≠ .decided count) :
    Awaited ⟨v.consumer.after deed, e, box⟩ := by
  obtain ⟨consumer, producer, inbox⟩ := v
  have hdecided {count : Count} (hafter : consumer.after deed = .decided count) : ¬box.Stirs := by
    have hc := Collecting.decided_of_after hafter
    rcases hfree with rfl | hundecided
    · exact h.decided hc
    · exact absurd hc (hundecided count)
  cases hemits with
  | stay => exact h
  | push left stamp =>
      refine ⟨hdecided, fun hqueued => ⟨fun _ => ⟨left, rfl⟩, fun hshut => ?_⟩, nofun⟩
      cases (h.queued hqueued).flag hshut
  | announce left =>
      -- the notification finds the consumer if it is queued
      exact ⟨hdecided, fun hqueued => absurd hqueued (consumer.woken_ne_queued _), nofun⟩
  | close =>
      refine ⟨hdecided, fun hqueued => ⟨fun hpending => ?_, fun _ => rfl⟩, fun _ => rfl⟩
      obtain ⟨left, hleft⟩ := (h.queued hqueued).events hpending
      cases hleft
  | call =>
      exact ⟨hdecided, fun hqueued => absurd hqueued (consumer.woken_ne_queued _),
        fun _ => h.flag (.inl rfl)⟩

theorem Awaited.step (h : Awaited v) (step : Step v deed v') : Awaited v' := by
  cases step with
  | collect hcollects => exact h.collect hcollects
  | emit hemits hfree => exact h.emit hemits hfree
  | wake => exact h.woken

/-- A move of the program's own, seen from the view. -/
theorem Shows.own (h : Shows s v m) (move : Own s.code m shown m') :
    ∃ deed v', Step v deed v' ∧ Shows s v' m' := by
  cases move with
  | step hs =>
      obtain ⟨deed, v', seen⟩ := h.stepped hs
      exact ⟨deed, v', seen.step, seen.shows⟩
  | expire instant hp hu hle =>
      obtain ⟨v', step, hshows⟩ := h.expire hp hu hle
      exact ⟨.nothing, v', step, hshows⟩
  | tick instant => exact ⟨.nothing, v, .collect (.stay _ _), h.congr rfl rfl rfl⟩
  | clocks clocks => exact ⟨.nothing, v, .collect (.stay _ _), h.congr rfl rfl rfl⟩

theorem Begun.awaited (hbegun : Begun s m₀) (run : Run (Own s.code) m₀ es m) :
    ∃ v, Shows s v m ∧ Awaited v := by
  induction run with
  | nil => exact ⟨.start s, hbegun.shows, awaited_start s⟩
  | snoc _ move ih =>
      obtain ⟨v, hshows, hawaited⟩ := ih
      obtain ⟨deed, v', step, hshows'⟩ := hshows.own move
      exact ⟨v', hshows', hawaited.step step⟩

/-- The only wait without a deadline that the consumer is queued in. -/
theorem Consumer.queued_of_control {th : Thread Place} (h : Consumer c th)
    {timed : Option (Timer × Park)} {next : Except SyncError WaitStatus → Place}
    (hc : th.control = .waiting signalled none (.queued timed) next) :
    ∃ count, c = .queued count := by
  cases h with
  | idling hstage =>
      cases hstage with
      | queued => exact ⟨_, rfl⟩
      | _ => cases hc
  | _ => cases hc

theorem Producer.done_of_ended {th : Thread Place} (h : Producer s e th)
    (hc : th.control = .ended) : e = .done := by
  cases h with
  | ended => rfl
  | _ => cases hc

/-- In every run of the program, for all settings: as long as the consumer is queued without a
deadline and there are events in the inbox, the producer has just pushed one and has not yet told of
it; and if the flag is set, the producer has just set it and has not yet told of it. So the producer
has not ended as long as the consumer is queued so. -/
theorem announcement_to_come (hbegun : Begun s m₀) (run : Run (Own s.code) m₀ es m)
    {timed : Option (Timer × Park)} {next : Except SyncError WaitStatus → Place}
    (hqueued : m.control? mainThread = some (.waiting signalled none (.queued timed) next)) :
    ∃ box control, m.state? inbox = some box ∧ m.control? producerThread = some control ∧
      (box.pending ≠ [] → ∃ bursts events, control = .running (.pushed bursts events) ∨
        control = .running (.announcing bursts events)) ∧
      (box.shutdown = true → control = .running .closed ∨ control = .running .calling) ∧
      control ≠ .ended := by
  obtain ⟨v, hshows, hawaited⟩ := hbegun.awaited run
  obtain ⟨th, hth, hconsumer⟩ := hshows.consumer
  obtain ⟨producer, hproducer, hshape⟩ := hshows.producer
  have hc : th.control = .waiting signalled none (.queued timed) next := by
    simpa [control?, hth] using hqueued
  obtain ⟨count, hv⟩ := hconsumer.queued_of_control hc
  have howing := hawaited.queued hv
  refine ⟨v.inbox, producer.control, hshows.state, by rw [control?, hproducer]; rfl, ?_, ?_, ?_⟩
  · intro hpending
    obtain ⟨left, hleft⟩ := howing.events hpending
    rw [hleft] at hshape
    cases hshape with
    | pushed bursts events => exact ⟨bursts, events, .inl rfl⟩
    | announcing bursts events => exact ⟨bursts, events, .inr rfl⟩
  · intro hshut
    rw [howing.flag hshut] at hshape
    cases hshape with
    | closed => exact .inl rfl
    | calling => exact .inr rfl
  · intro hended
    have hdone := hshape.done_of_ended hended
    have hclosing := howing.flag (hawaited.flag (.inr hdone))
    rw [hdone] at hclosing
    cases hclosing

/-- The consumer is queued, and the producer has pushed an event and given the mutex up. -/
theorem announcement_to_come_of_push : ∃ es m, Begun hasty hastyStart ∧
    Run (Own hasty.code) hastyStart es m ∧ m.queue signalled = [mainThread] ∧
    m.state? inbox = some { pending := [0] } ∧
    (∃ bursts events, m.control? producerThread = some (.running (.pushed bursts events)) ∨
      m.control? producerThread = some (.running (.announcing bursts events))) := by
  obtain ⟨m, es, next, hplay, hqueued, hqueue, hstate⟩ :
      ∃ (m : ProgramMachine) (es : List Machine.Event)
        (next : Except SyncError WaitStatus → Place),
        hastyStart.play hasty.code (List.replicate 5 (.step mainThread) ++
          List.replicate 4 (.step producerThread)) = some (es, m) ∧
        m.control? mainThread = some (.waiting signalled none (.queued none) next) ∧
        m.queue signalled = [mainThread] ∧ m.state? inbox = some { pending := [0] } :=
    ⟨_, _, _, rfl, rfl, rfl, rfl⟩
  have run := Run.of_play _ hplay
  obtain ⟨box, control, hbox, hcontrol, hpending, -, -⟩ :=
    announcement_to_come begun_hastyStart run hqueued
  obtain rfl : box = { pending := [0] } := by simpa [hstate] using hbox.symm
  obtain ⟨bursts, events, h⟩ := hpending (List.cons_ne_nil 0 [])
  refine ⟨es, m, begun_hastyStart, run, hqueue, hstate, bursts, events, ?_⟩
  rcases h with rfl | rfl
  · exact .inl hcontrol
  · exact .inr hcontrol

end TimedCondvar.Demo
