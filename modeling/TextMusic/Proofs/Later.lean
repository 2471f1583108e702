/-
Starting later.  A session that opens some ticks later does all that it would have done,
that many ticks later.  Nothing that it decides depends on the time.
-/
import TextMusic.Proofs.Course
import TextMusic.Proofs.Wire

namespace TextMusic

variable {σ : Type}

/-! ## Timelines -/

namespace Event

/-- The same event some ticks later. -/
def later (ticks : Nat) (event : Event) : Event :=
  event.moved (event.tick + ticks)

/-- The wire does not carry ticks. -/
theorem fits_moved (event : Event) (tick : Nat) :
    (event.moved tick).fits = event.fits := by
  cases event <;> rfl

end Event

namespace Timeline

/-- A timeline with all that is in it some ticks later. -/
def later (ticks : Nat) (timeline : Timeline) : Timeline where
  events := timeline.events.map (Event.later ticks)
  cursor := timeline.cursor + ticks
  dropped := timeline.dropped

theorem later_startingAt (tick ticks : Nat) :
    (startingAt tick).later ticks = startingAt (tick + ticks) := by
  rw [later, startingAt, Array.map_empty]
  rfl

theorem append_later (timeline : Timeline) (ticks : Nat) (event : Event) :
    (timeline.later ticks).append (event.later ticks) =
      (timeline.append event).later ticks := by
  have hfits : (event.later ticks).fits = event.fits := event.fits_moved _
  rw [append, append, hfits]
  split_ifs
  · rw [later, later, Array.map_push]
  · rfl

/-- A request is granted at the cursor, wherever that is. -/
theorem grant_later (timeline : Timeline) (ticks : Nat) (request : Request) :
    (timeline.later ticks).grant request = (timeline.grant request).later ticks := by
  cases request with
  | tempo micros =>
      exact timeline.append_later ticks (.tempoChange micros timeline.cursor)
  | program channel instrument =>
      exact timeline.append_later ticks
        (.programChange channel instrument timeline.cursor)
  | note channel pitch velocity =>
      have hstart :=
        timeline.append_later ticks (.noteOn channel pitch velocity timeline.cursor)
      have hend :=
        (timeline.append (.noteOn channel pitch velocity timeline.cursor)).append_later
          ticks (.noteOff channel pitch velocity (timeline.cursor + noteLength))
      have htick :
          timeline.cursor + ticks + noteLength = timeline.cursor + noteLength + ticks :=
        Nat.add_right_comm _ _ _
      rw [← hstart, Event.later, Event.later, Event.tick, Event.tick, ← htick] at hend
      have hsounded := congrArg
        (fun sounded : Timeline =>
          { sounded with cursor := timeline.cursor + ticks + noteLength })
        hend
      exact hsounded.trans (congrArg (Timeline.mk _ · _) htick)

theorem grantAll_later (timeline : Timeline) (ticks : Nat) (requests : List Request) :
    (timeline.later ticks).grantAll requests =
      (timeline.grantAll requests).later ticks := by
  induction requests generalizing timeline with
  | nil => rfl
  | cons request rest ih => rw [grantAll_cons, grant_later, ih, grantAll_cons]

end Timeline

/-! ## Performances -/

namespace Performance

/-- A performance that has come as far, some ticks later. -/
def later (ticks : Nat) (performance : Performance σ) : Performance σ :=
  { performance with timeline := performance.timeline.later ticks }

theorem eq_later {late performance : Performance σ} {ticks : Nat}
    (hvoice : late.voice = performance.voice) (hdice : late.dice = performance.dice)
    (htimeline : late.timeline = performance.timeline.later ticks) :
    late = performance.later ticks := by
  obtain ⟨voice, timeline, dice⟩ := late
  obtain rfl : voice = performance.voice := hvoice
  obtain rfl : dice = performance.dice := hdice
  obtain rfl : timeline = performance.timeline.later ticks := htimeline
  rfl

theorem setInstrument_later (performance : Performance σ) (ticks : Nat)
    (instrument : UInt8) :
    (performance.later ticks).setInstrument instrument =
      (performance.setInstrument instrument).later ticks := by
  have hgrant := performance.timeline.grant_later ticks
    (.program performance.voice.channel instrument)
  exact eq_later rfl rfl hgrant

theorem respond_later [Dice σ] (rules : Rules) (performance : Performance σ) (ticks : Nat)
    (reaction : Reaction) :
    (performance.later ticks).respond rules reaction =
      (performance.respond rules reaction).later ticks := by
  apply eq_later
  · rw [voice_respond, voice_respond]
    rfl
  · rw [dice_respond, dice_respond]
    rfl
  · rw [timeline_respond, timeline_respond]
    exact performance.timeline.grantAll_later ticks _

end Performance

/-! ## Sessions -/

namespace Session

/-- A session that was opened some ticks later, and has come as far. -/
def later (ticks : Nat) (session : Session σ) : Session σ where
  config := { session.config with startTick := session.config.startTick + ticks }
  memory := session.memory
  performance := session.performance.later ticks

theorem start_later (config : Config) (dice : σ) (ticks : Nat) :
    start { config with startTick := config.startTick + ticks } dice =
      (start config dice).later ticks := by
  have hperformance :
      (start { config with startTick := config.startTick + ticks } dice).performance =
        (start config dice).performance.later ticks := by
    apply Performance.eq_later
    · exact (voice_start _ dice).trans (voice_start config dice).symm
    · exact (dice_start _ dice).trans (dice_start config dice).symm
    · have hopened := (Timeline.startingAt config.startTick).grantAll_later ticks
        ((Voice.ofConfig config).tempoRequests ++
          [.program config.channel config.instrument])
      rw [Timeline.later_startingAt, ← timeline_start] at hopened
      exact (timeline_start _ dice).trans hopened
  exact congrArg (Session.mk _ Memory.empty) hperformance

variable [Dice σ]

theorem feed_later (session : Session σ) (ticks : Nat) (c : Char) :
    (session.later ticks).feed c = (session.feed c).later ticks := by
  have hrespond := session.performance.respond_later session.config.rules ticks
    (session.memory.react c)
  exact congrArg (Session.mk _ _) hrespond

theorem performAll_later (session : Session σ) (ticks : Nat)
    (operations : List Operation) :
    (session.later ticks).performAll operations =
      (session.performAll operations).later ticks := by
  apply performAll_twins (R := fun late session => late = session.later ticks)
  · rintro _ session c rfl
    exact session.feed_later ticks c
  · rintro _ session instrument rfl
    have hset := session.performance.setInstrument_later ticks instrument
    exact congrArg (Session.mk _ session.memory) hset
  · rfl

/-- A session that is opened some ticks later takes the same steps and comes to the same
state, wherever its run stops.  Its timeline is the same but for the ticks, which are all
that much later, as is the cursor. -/
theorem start_tick_shifts_timeline (config : Config) (dice : σ) (ticks : Nat)
    (operations : List Operation) :
    let opened := start config dice
    let lateOpened := start { config with startTick := config.startTick + ticks } dice
    let session := opened.performAll operations
    let late := lateOpened.performAll operations
    lateOpened.runSteps operations = opened.runSteps operations ∧
      late.memory = session.memory ∧
      late.voice = session.voice ∧
      late.performance.dice = session.performance.dice ∧
      late.timeline.events.toList =
        session.timeline.events.toList.map (Event.later ticks) ∧
      late.timeline.cursor = session.timeline.cursor + ticks ∧
      late.timeline.dropped = session.timeline.dropped := by
  intro opened lateOpened session late
  have hopened : lateOpened = opened.later ticks := start_later config dice ticks
  have hlate : late = session.later ticks := by
    rw [← performAll_later, ← hopened]
  refine ⟨?_, ?_, ?_, ?_, ?_, ?_, ?_⟩
  · rw [runSteps_eq_memory, runSteps_eq_memory, hopened]
    rfl
  all_goals rw [hlate]
  · rfl
  · rfl
  · rfl
  · exact Array.toList_map
  · rfl
  · rfl

end Session

end TextMusic
