/-
Pace.  A timed run hands over what an immediate one does and only waits in between, unless
it comes to a message that was due before its start.  There it breaks off.
-/
import TextMusic.Proofs.Delivery

namespace TextMusic

namespace Playback

variable {β : Type}

/-- What a listener has become behind messages. -/
def heard (hear : β → Message → β × Bool) (listener : β) (items : List Scheduled) : β :=
  items.foldl (fun listener item => (hear listener item.message).1) listener

/-! ## Waits -/

theorem exists_wait?_timed (clock : Nat → Duration) {start due : Duration} (n : Nat)
    (h : start.total ≤ due.total) :
    ∃ wait, (Pace.timed clock).wait? start n due = some wait := by
  rw [Pace.wait?, Duration.since?, if_pos h]
  exact ⟨_, rfl⟩

theorem wait?_timed_eq_none (clock : Nat → Duration) {start due : Duration} (n : Nat)
    (h : due.total < start.total) : (Pace.timed clock).wait? start n due = none := by
  rw [Pace.wait?, Duration.since?, if_neg (Nat.not_le.mpr h)]
  rfl

/-- In every list, nothing was due before the start or something was first. -/
theorem on_time_or_late (start : Duration) (items : List Scheduled) :
    (∀ item ∈ items, start.total ≤ item.due.total) ∨
      ∃ before late after, items = before ++ late :: after ∧
        (∀ item ∈ before, start.total ≤ item.due.total) ∧
        late.due.total < start.total := by
  cases hfind : items.find? (·.due.total < start.total) with
  | none =>
      refine .inl fun item hitem => ?_
      have hontime := List.find?_eq_none.mp hfind item hitem
      exact Nat.not_lt.mp (mt decide_eq_true hontime)
  | some late =>
      obtain ⟨hlate, before, after, hitems, hbefore⟩ :=
        List.find?_eq_some_iff_append.mp hfind
      refine .inr ⟨before, late, after, hitems, ?_, of_decide_eq_true hlate⟩
      intro item hitem
      have hontime := hbefore item hitem
      rw [Bool.not_eq_true', decide_eq_false_iff_not] at hontime
      exact Nat.not_lt.mp hontime

/-! ## Messages -/

/-- At any pace, a listener hears the messages that are handed over and no others. -/
theorem handOver_heard (hear : β → Message → β × Bool) (pace : Pace) (start : Duration)
    (n : Nat) (paused : Bool) (listener : β) (items : List Scheduled) :
    let delivered := handOver hear pace start n paused listener items
    delivered.listener = heard hear listener (items.take delivered.waits.length) := by
  induction items generalizing n paused listener with
  | nil => rfl
  | cons item rest ih =>
      cases paused with
      | true => rfl
      | false =>
          cases hwait : pace.wait? start n item.due with
          | none =>
              simp only [handOver, hwait]
              rfl
          | some wait =>
              rw [handOver_cons hear hwait]
              exact ih (n + 1) (hear listener item.message).2
                (hear listener item.message).1

/-- As long as nothing was due before the start, a timed run goes as far as an immediate
one, since the listener asks for a pause at the same message. -/
theorem handOver_timed_of_on_time (hear : β → Message → β × Bool) (clock : Nat → Duration)
    (start : Duration) (n : Nat) (paused : Bool) (listener : β) (items : List Scheduled) :
    let immediate := handOver hear .immediate start n paused listener items
    let timed := handOver hear (.timed clock) start n paused listener items
    (∀ item ∈ items.take immediate.waits.length, start.total ≤ item.due.total) →
      timed.failure? = none ∧ timed.paused = immediate.paused ∧
        timed.waits.length = immediate.waits.length := by
  induction items generalizing n paused listener with
  | nil => exact fun _ => ⟨rfl, rfl, rfl⟩
  | cons item rest ih =>
      cases paused with
      | true => exact fun _ => ⟨rfl, rfl, rfl⟩
      | false =>
          intro immediate timed hontime
          obtain ⟨hitem, hrest⟩ := List.forall_mem_cons.mp hontime
          obtain ⟨wait, hwait⟩ := exists_wait?_timed clock n hitem
          obtain ⟨hfailure, hpaused, hlength⟩ :=
            ih (n + 1) (hear listener item.message).2 (hear listener item.message).1 hrest
          dsimp only [timed]
          rw [handOver_cons hear hwait]
          exact ⟨hfailure, hpaused, congrArg (· + 1) hlength⟩

/-- A timed run breaks off at the first message that was due before the start, if an
immediate one comes to it. -/
theorem handOver_timed_of_late (hear : β → Message → β × Bool) (clock : Nat → Duration)
    (start : Duration) (n : Nat) (paused : Bool) (listener : β) (items : List Scheduled)
    {before after : List Scheduled} {late : Scheduled}
    (hontime : ∀ item ∈ before, start.total ≤ item.due.total)
    (hlate : late.due.total < start.total) :
    let immediate := handOver hear .immediate start n paused listener items
    let timed := handOver hear (.timed clock) start n paused listener items
    items.take immediate.waits.length = before ++ late :: after →
      timed.failure? = some .backwards ∧ paused = false ∧ timed.paused = false ∧
        timed.waits.length = before.length := by
  induction items generalizing n paused listener before with
  | nil => exact fun h => absurd (congrArg List.length h) (by simp [handOver])
  | cons item rest ih =>
      cases paused with
      | true => exact fun h => absurd (congrArg List.length h) (by simp [handOver])
      | false =>
          intro immediate timed h
          cases before with
          | nil =>
              obtain ⟨rfl, -⟩ := List.cons.inj h
              have hwait := wait?_timed_eq_none clock n hlate
              dsimp only [timed]
              rw [handOver, hwait]
              exact ⟨rfl, rfl, rfl, rfl⟩
          | cons first before =>
              obtain ⟨rfl, hrest⟩ := List.cons.inj h
              obtain ⟨hitem, hontime⟩ := List.forall_mem_cons.mp hontime
              obtain ⟨wait, hwait⟩ := exists_wait?_timed clock n hitem
              obtain ⟨hfailure, -, hpaused, hlength⟩ :=
                ih (n + 1) (hear listener item.message).2 (hear listener item.message).1
                  hontime hrest
              dsimp only [timed]
              rw [handOver_cons hear hwait]
              exact ⟨hfailure, rfl, hpaused, congrArg (· + 1) hlength⟩

/-! ## Runs -/

section Run

variable (playback : Playback) (hear : β → Message → β × Bool) (listener : β)

theorem listener_run (pace : Pace) :
    let outcome := playback.run hear pace listener
    outcome.listener = heard hear listener (playback.remaining.take outcome.sent) :=
  handOver_heard hear pace playback.start 0 playback.paused listener playback.remaining

/-- The messages that an immediate run hands over. -/
def delivered : List Scheduled :=
  playback.remaining.take (playback.run hear .immediate listener).sent

theorem length_delivered :
    (playback.delivered hear listener).length =
      (playback.run hear .immediate listener).sent := by
  rw [delivered, List.length_take, Nat.min_eq_left]
  exact (handOver_stops hear .immediate playback.start 0 playback.paused listener
    playback.remaining).1

theorem run_timed_of_on_time (clock : Nat → Duration)
    (h : ∀ item ∈ playback.delivered hear listener,
      playback.start.total ≤ item.due.total) :
    let immediate := playback.run hear .immediate listener
    let timed := playback.run hear (.timed clock) listener
    timed.failure? = none ∧ timed.sent = immediate.sent ∧
      timed.listener = immediate.listener ∧ timed.playback = immediate.playback := by
  intro immediate timed
  obtain ⟨hfailure, hpaused, hlength⟩ :=
    handOver_timed_of_on_time hear clock playback.start 0
      playback.paused listener playback.remaining h
  have hsent : timed.sent = immediate.sent := hlength
  refine ⟨hfailure, hsent, ?_, ?_⟩
  · rw [listener_run, listener_run, hsent]
  · simp only [timed, immediate, run, hpaused, hlength]

theorem run_timed_of_late (clock : Nat → Duration) {before after : List Scheduled}
    {late : Scheduled} (h : playback.delivered hear listener = before ++ late :: after)
    (hontime : ∀ item ∈ before, playback.start.total ≤ item.due.total)
    (hlate : late.due.total < playback.start.total) :
    let timed := playback.run hear (.timed clock) listener
    timed.failure? = some .backwards ∧ timed.sent = before.length ∧
      timed.listener = heard hear listener before ∧
      timed.playback =
        { playback with position := playback.position + before.length } := by
  intro timed
  obtain ⟨hfailure, hflag, hpaused, hlength⟩ :=
    handOver_timed_of_late hear clock playback.start 0
      playback.paused listener playback.remaining hontime hlate h
  have hsent : timed.sent = before.length := hlength
  have hbefore : playback.remaining.take before.length = before := by
    have htake := congrArg (List.take before.length) h
    rw [List.take_left, delivered, List.take_take, Nat.min_eq_left] at htake
    · exact htake
    · rw [← length_delivered, h, List.length_append]
      exact Nat.le_add_right _ _
  refine ⟨hfailure, hsent, ?_, ?_⟩
  · rw [listener_run, hsent, hbefore]
  · simp only [timed, run, hpaused, hlength]
    rw [hflag]

end Run

/-- A timed run only adds the waiting.  As long as nothing that an immediate run hands
over was due before the start, whatever the clock reads, it hands over the same messages
and leaves the same playback behind.  Otherwise, and only then, it breaks off, at the
first message that was and behind those before it. -/
theorem run_timed_only_waits (playback : Playback) (hear : β → Message → β × Bool)
    (clock : Nat → Duration) (listener : β) :
    let immediate := playback.run hear .immediate listener
    let timed := playback.run hear (.timed clock) listener
    let delivered := playback.remaining.take immediate.sent
    immediate.failure? = none ∧ immediate.sent = delivered.length ∧
      immediate.listener = heard hear listener delivered ∧
      ((∀ item ∈ delivered, playback.start.total ≤ item.due.total) →
        timed.failure? = none ∧ timed.sent = immediate.sent ∧
          timed.listener = immediate.listener ∧ timed.playback = immediate.playback) ∧
      (∀ before late after, delivered = before ++ late :: after →
        (∀ item ∈ before, playback.start.total ≤ item.due.total) →
        late.due.total < playback.start.total →
        timed.failure? = some .backwards ∧ timed.sent = before.length ∧
          timed.listener = heard hear listener before ∧
          timed.playback =
            { playback with position := playback.position + before.length }) ∧
      (timed.failure? = some .backwards ↔
        ∃ item ∈ delivered, item.due.total < playback.start.total) := by
  intro immediate timed delivered
  refine ⟨failure?_handOver_immediate hear _ _ _ _ _,
    (playback.length_delivered hear listener).symm, playback.listener_run hear listener _,
    playback.run_timed_of_on_time hear listener clock, ?_, ?_⟩
  · intro before late after h hontime hlate
    exact playback.run_timed_of_late hear listener clock h hontime hlate
  · rcases on_time_or_late playback.start delivered with
      hontime | ⟨before, late, after, h, hontime, hlate⟩
    · have hfailure := (playback.run_timed_of_on_time hear listener clock hontime).1
      refine iff_of_false ?_ ?_
      · intro hbackwards
        exact Option.some_ne_none _ (hbackwards.symm.trans hfailure)
      · rintro ⟨item, hitem, hlate⟩
        exact Nat.not_lt.mpr (hontime item hitem) hlate
    · have hbackwards :=
        (playback.run_timed_of_late hear listener clock h hontime hlate).1
      refine iff_of_true hbackwards ⟨late, ?_, hlate⟩
      rw [h]
      exact List.mem_append_right before List.mem_cons_self

/-- At a resolution of no ticks, the first of two events at a tick is due at the end of
time and the second one at its beginning. -/
theorem run_timed_only_waits_backwards :
    let timeline := ((Timeline.startingAt 0).append (.noteOn 0 60 100 8)).append
      (.noteOff 0 60 100 8)
    let hear :=
      fun (kept : List Message) (message : Message) => (kept ++ [message], false)
    ∃ playback, ofTimeline timeline 0 = .ok playback ∧
      (playback.run hear .immediate []).sent = 2 ∧
      let timed := playback.run hear (.timed fun _ => .zero) []
      timed.failure? = some .backwards ∧ timed.sent = 1 ∧
        timed.listener = [.short 0x90 60 100] ∧
        timed.playback = { playback with position := 1 } := by
  intro timeline hear
  let first : Scheduled := ⟨⟨18446744073709551615000000000⟩, 8, .short 0x90 60 100⟩
  let second : Scheduled := ⟨.zero, 8, .short 0x80 60 100⟩
  let playback : Playback := ⟨#[first, second], 0, false⟩
  obtain ⟨-, -, -, -, hlate, -⟩ := run_timed_only_waits playback hear (fun _ => .zero) []
  have hschedule : Schedule.ofTimeline? timeline 0 = some [first, second] := by
    decide +kernel
  refine ⟨playback, ?_, by decide +kernel, ?_⟩
  · rw [ofTimeline, hschedule]
  · exact hlate [first] second [] (by decide +kernel) (by decide +kernel)
      (by decide +kernel)

end Playback

end TextMusic
