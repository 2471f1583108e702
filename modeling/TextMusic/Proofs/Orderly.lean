/-
Orderly timelines: the events of a session come in blocks that are kept or
dropped as a whole, at ticks that never go back, and one note sounds at a time.
What a timeline has kept stays there while it grows.
-/
import TextMusic.Proofs.Request

namespace TextMusic

variable {σ : Type}

/-! ## Blocks -/

/-- Events that stand or fall together: a note with its end, or another event
alone. -/
inductive Block where
  | tempo (micros : UInt32) (tick : Nat)
  | program (channel instrument : UInt8) (tick : Nat)
  | note (channel pitch velocity : UInt8) (onset : Nat)
deriving DecidableEq, Repr

namespace Block

/-- The end of a note follows its start at once, and is four ticks later. -/
def events : Block → List Event
  | tempo micros tick => [.tempoChange micros tick]
  | program channel instrument tick => [.programChange channel instrument tick]
  | note channel pitch velocity onset =>
      [.noteOn channel pitch velocity onset, .noteOff channel pitch velocity (onset + 4)]

/-- Whether the wire can carry all of the block. -/
def fits (block : Block) : Bool :=
  block.events.all Event.fits

end Block

/-- Whether a note begins to sound with the event. -/
def Event.startsNote : Event → Bool
  | noteOn .. => true
  | _ => false

/-- Whether a note stops sounding with the event. -/
def Event.endsNote : Event → Bool
  | noteOff .. => true
  | _ => false

namespace Request

/-- The block of a request that is granted at a tick. -/
def block (request : Request) (tick : Nat) : Block :=
  match request with
  | .tempo micros => .tempo micros tick
  | .program channel instrument => .program channel instrument tick
  | .note channel pitch velocity => .note channel pitch velocity tick

/-- How far a request moves the cursor. -/
def length : Request → Nat
  | .tempo _ | .program .. => 0
  | .note .. => 4

end Request

/-- The range checks of a channel message do not look at its status. -/
theorem isOk_channelMessage (status channel data1 data2 : UInt8) :
    (channelMessage status channel data1 data2).isOk =
      (decide (channel ≤ 15) && decide (data1 ≤ 127) && decide (data2 ≤ 127)) := by
  unfold channelMessage checkChannel checkData
  by_cases hchannel : channel ≤ 15 <;> by_cases hdata1 : data1 ≤ 127 <;>
    by_cases hdata2 : data2 ≤ 127 <;>
      simp [hchannel, hdata1, hdata2, Except.isOk, Except.toBool, bind, Except.bind, pure,
        Except.pure]

/-- The wire carries the end of a note exactly if it carries the start. -/
theorem fits_noteOff (channel pitch velocity : UInt8) (tick onset : Nat) :
    (Event.noteOff channel pitch velocity tick).fits =
      (Event.noteOn channel pitch velocity onset).fits := by
  simp only [Event.fits, Event.encode, isOk_channelMessage]

namespace Timeline

@[simp] theorem cursor_grant (timeline : Timeline) (request : Request) :
    (timeline.grant request).cursor = timeline.cursor + request.length := by
  cases request with
  | tempo | program => exact cursor_append timeline _
  | note => rfl

/-- A request keeps its whole block or nothing of it. -/
theorem events_grant (timeline : Timeline) (request : Request) :
    (timeline.grant request).events.toList = timeline.events.toList ++
      if (request.block timeline.cursor).fits then (request.block timeline.cursor).events
      else [] := by
  cases request with
  | tempo micros =>
      cases hfits : (Event.tempoChange micros timeline.cursor).fits <;>
        simp [grant, Request.block, Block.fits, Block.events, hfits, append]
  | program channel instrument =>
      cases hfits : (Event.programChange channel instrument timeline.cursor).fits <;>
        simp [grant, Request.block, Block.fits, Block.events, hfits, append]
  | note channel pitch velocity =>
      have hoff :=
        fits_noteOff channel pitch velocity (timeline.cursor + 4) timeline.cursor
      cases hfits : (Event.noteOn channel pitch velocity timeline.cursor).fits <;>
        rw [hfits] at hoff <;>
        simp [grant, emitNote, noteLength, Request.block, Block.fits,
          Block.events, hfits, hoff, append]

end Timeline

/-! ## Ticks of a block -/

namespace Block

theorem tick_mem_events {request : Request} {tick : Nat} {event : Event}
    (hevent : event ∈ (request.block tick).events) :
    event.tick = tick ∨ event.tick = tick + request.length := by
  cases request with
  | tempo | program =>
      simp only [Request.block, events, List.mem_singleton] at hevent
      subst event
      exact Or.inl rfl
  | note =>
      simp only [Request.block, events, List.mem_cons, List.not_mem_nil, or_false]
        at hevent
      rcases hevent with rfl | rfl
      · exact Or.inl rfl
      · exact Or.inr rfl

theorem sorted_events (block : Block) :
    block.events.Pairwise fun earlier later => earlier.tick ≤ later.tick := by
  cases block <;> simp [events, Event.tick]

end Block

/-! ## The invariant -/

/-- A timeline that has run in order from a start tick up to its cursor. -/
structure Timeline.Orderly (start : Nat) (timeline : Timeline) : Prop where
  inBlocks : ∃ blocks : List Block, timeline.events.toList = blocks.flatMap Block.events
  sorted : timeline.events.toList.Pairwise fun earlier later => earlier.tick ≤ later.tick
  bounds : ∀ event ∈ timeline.events.toList,
    start ≤ event.tick ∧ event.tick ≤ timeline.cursor
  onGrid : ∀ event ∈ timeline.events.toList, 4 ∣ event.tick - start
  start_le_cursor : start ≤ timeline.cursor
  cursor_onGrid : 4 ∣ timeline.cursor - start

namespace Timeline

theorem orderly_startingAt (tick : Nat) : (startingAt tick).Orderly tick where
  inBlocks := ⟨[], rfl⟩
  sorted := List.Pairwise.nil
  bounds := by simp [startingAt]
  onGrid := by simp [startingAt]
  start_le_cursor := Nat.le_refl tick
  cursor_onGrid := by simp [startingAt]

/-- Every request moves the cursor along the grid. -/
theorem four_dvd_length (request : Request) : 4 ∣ request.length := by
  cases request <;> simp [Request.length]

/-- The step lemma: what a request adds comes after all that was there. -/
theorem Orderly.grant {start : Nat} {timeline : Timeline} (h : timeline.Orderly start)
    (request : Request) : (timeline.grant request).Orderly start := by
  obtain ⟨⟨blocks, hblocks⟩, hsorted, hbounds, hgrid, hstart, hcursor⟩ := h
  have hlength := four_dvd_length request
  cases hfits : (request.block timeline.cursor).fits with
  | false =>
      have hevents : (timeline.grant request).events.toList = timeline.events.toList := by
        simp [events_grant, hfits]
      refine ⟨⟨blocks, hevents.trans hblocks⟩, ?_, ?_, ?_, ?_, ?_⟩
      · rwa [hevents]
      · rw [hevents, cursor_grant]
        intro event hevent
        have := hbounds event hevent
        omega
      · rwa [hevents]
      · rw [cursor_grant]
        omega
      · rw [cursor_grant]
        omega
  | true =>
      have hevents : (timeline.grant request).events.toList =
          timeline.events.toList ++ (request.block timeline.cursor).events := by
        simp [events_grant, hfits]
      refine ⟨⟨blocks ++ [request.block timeline.cursor], ?_⟩, ?_, ?_, ?_, ?_, ?_⟩
      · simp [hevents, hblocks]
      · rw [hevents, List.pairwise_append]
        refine ⟨hsorted, Block.sorted_events _, ?_⟩
        intro earlier hearlier later hlater
        have hle := (hbounds earlier hearlier).2
        rcases Block.tick_mem_events hlater with htick | htick <;> omega
      · rw [hevents, cursor_grant]
        intro event hevent
        rcases List.mem_append.mp hevent with hold | hnew
        · have := hbounds event hold
          omega
        · rcases Block.tick_mem_events hnew with htick | htick <;> omega
      · rw [hevents]
        intro event hevent
        rcases List.mem_append.mp hevent with hold | hnew
        · exact hgrid event hold
        · rcases Block.tick_mem_events hnew with htick | htick <;> omega
      · rw [cursor_grant]
        omega
      · rw [cursor_grant]
        omega

end Timeline

/-! ## Growth -/

namespace Timeline

/-- A timeline that goes on from where another stood. -/
structure Extends (later earlier : Timeline) : Prop where
  events : earlier.events.toList <+: later.events.toList
  cursor : earlier.cursor ≤ later.cursor
  dropped : earlier.dropped ≤ later.dropped

theorem extends_refl (timeline : Timeline) : timeline.Extends timeline :=
  ⟨List.prefix_rfl, Nat.le_refl _, Nat.le_refl _⟩

theorem Extends.append {later earlier : Timeline} (h : later.Extends earlier)
    (event : Event) :
    (later.append event).Extends earlier := by
  unfold Timeline.append
  split
  · refine ⟨?_, h.cursor, h.dropped⟩
    rw [Array.toList_push]
    exact h.events.trans (List.prefix_append _ _)
  · exact ⟨h.events, h.cursor, Nat.le_succ_of_le h.dropped⟩

theorem Extends.grant {later earlier : Timeline} (h : later.Extends earlier)
    (request : Request) : (later.grant request).Extends earlier := by
  cases request with
  | tempo micros => exact h.append _
  | program channel instrument => exact h.append _
  | note channel pitch velocity =>
      have hsounded := (h.append (.noteOn channel pitch velocity later.cursor)).append
        (.noteOff channel pitch velocity (later.cursor + noteLength))
      exact ⟨hsounded.events, Nat.le_add_right_of_le h.cursor, hsounded.dropped⟩

end Timeline

/-! ## Sessions -/

namespace Session

variable [Dice σ]

/-- Nothing that is fed to a session takes back what is there. -/
theorem extends_feedAll (session : Session σ) (text : List Char) :
    (session.feedAll text).timeline.Extends session.timeline := by
  apply feedAll_timeline_induction
    (P := fun timeline => timeline.Extends session.timeline)
  · intro timeline request h
    exact h.grant request
  · exact session.timeline.extends_refl

theorem orderly_performAll (config : Config) (dice : σ) (operations : List Operation) :
    ((start config dice).performAll operations).timeline.Orderly config.startTick := by
  have hgrant : ∀ timeline request, Timeline.Orderly config.startTick timeline →
      Timeline.Orderly config.startTick (timeline.grant request) :=
    fun _ request h => h.grant request
  have hstart : (start config dice).timeline.Orderly config.startTick := by
    rw [timeline_start]
    exact Timeline.grantAll_induction hgrant _
      (Timeline.orderly_startingAt config.startTick) _
  exact performAll_timeline_induction hgrant _ hstart operations

/-- Whatever is done to a session, its timeline is made of whole blocks, its
ticks never go back, each lies between the start and the cursor and a multiple of
four ticks from the start, and a note starts only when every note kept before it
has ended. -/
theorem timeline_in_order (config : Config) (dice : σ) (operations : List Operation) :
    let timeline := ((start config dice).performAll operations).timeline
    (∃ blocks : List Block, timeline.events.toList = blocks.flatMap Block.events) ∧
      (timeline.events.toList.Pairwise fun earlier later => earlier.tick ≤ later.tick) ∧
      (∀ event ∈ timeline.events.toList,
        config.startTick ≤ event.tick ∧ event.tick ≤ timeline.cursor ∧
          4 ∣ event.tick - config.startTick) ∧
      timeline.events.toList.Pairwise fun earlier later =>
        earlier.endsNote → later.startsNote → earlier.tick ≤ later.tick := by
  intro timeline
  have h : timeline.Orderly config.startTick := orderly_performAll config dice operations
  refine ⟨h.inBlocks, h.sorted, ?_, ?_⟩
  · intro event hevent
    exact ⟨(h.bounds event hevent).1, (h.bounds event hevent).2, h.onGrid event hevent⟩
  · exact h.sorted.imp fun hle _ _ => hle

end Session

end TextMusic
