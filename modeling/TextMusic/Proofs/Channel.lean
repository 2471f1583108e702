/-
Channels that the wire cannot carry.  On such a channel no note and no program change is
kept.  The tempos are, and a session goes on as it would on any other channel.
-/
import TextMusic.Proofs.Course
import TextMusic.Proofs.Orderly
import TextMusic.Random.Stream

namespace TextMusic

variable {σ : Type}

/-! ## Events with a channel -/

namespace Event

def isTempo : Event → Bool
  | tempoChange .. => true
  | noteOn .. | noteOff .. | programChange .. => false

/-- The channel of an event, if it has one. -/
def channel? : Event → Option UInt8
  | noteOn channel _ _ _ | noteOff channel _ _ _ | programChange channel _ _ =>
      some channel
  | tempoChange .. => none

theorem isTempo_of_channel? {event : Event} {channel : UInt8}
    (h : event.channel? = some channel) :
    event.isTempo = false := by
  cases event with
  | noteOn | noteOff | programChange => rfl
  | tempoChange => exact absurd h.symm (Option.some_ne_none channel)

theorem fits_of_channel? {event : Event} {channel : UInt8}
    (h : event.channel? = some channel) (hchannel : 15 < channel) :
    event.fits = false := by
  have hunfit : decide (channel ≤ 15) = false :=
    decide_eq_false (UInt8.not_le.mpr hchannel)
  cases event with
  | noteOn | noteOff | programChange =>
      obtain rfl := Option.some.inj h
      rw [fits, encode, isOk_channelMessage, hunfit, Bool.false_and, Bool.false_and]
  | tempoChange => exact absurd h.symm (Option.some_ne_none channel)

end Event

/-- The same request on another channel. -/
def Request.onChannel (channel : UInt8) : Request → Request
  | tempo micros => .tempo micros
  | program _ instrument => .program channel instrument
  | note _ pitch velocity => .note channel pitch velocity

/-! ## Timelines -/

namespace Timeline

/-- A timeline that has kept the tempos of another and dropped all else that is in it. -/
structure TemposOf (muted timeline : Timeline) : Prop where
  cursor : muted.cursor = timeline.cursor
  events : muted.events.toList = timeline.events.toList.filter Event.isTempo
  dropped : muted.dropped = timeline.dropped +
    timeline.events.toList.countP fun event => !event.isTempo

namespace TemposOf

variable {muted timeline : Timeline}

theorem append_tempo (h : muted.TemposOf timeline) (micros : UInt32) (tick : Nat) :
    (muted.append (.tempoChange micros tick)).TemposOf
      (timeline.append (.tempoChange micros tick)) := by
  have htempo : (Event.tempoChange micros tick).isTempo = true := rfl
  unfold append
  split_ifs
  · refine ⟨h.cursor, ?_, ?_⟩
    · simp [h.events, htempo]
    · simp [h.dropped, htempo]
  · refine ⟨h.cursor, h.events, ?_⟩
    dsimp only
    rw [h.dropped, Nat.add_right_comm]

/-- An event on a channel that the wire cannot carry is dropped, whatever becomes of the
event that stands in its place. -/
theorem append_other (h : muted.TemposOf timeline) (event other : Event)
    {own channel : UInt8} (hevent : event.channel? = some own)
    (hother : other.channel? = some channel) (hchannel : 15 < channel) :
    (muted.append other).TemposOf (timeline.append event) := by
  have htempo := Event.isTempo_of_channel? hevent
  have hdropped : muted.append other = { muted with dropped := muted.dropped + 1 } := by
    rw [append, Event.fits_of_channel? hother hchannel]
    rfl
  rw [hdropped]
  unfold append
  split_ifs
  · refine ⟨h.cursor, ?_, ?_⟩
    · simp [h.events, htempo]
    · simp [h.dropped, htempo]
      omega
  · refine ⟨h.cursor, h.events, ?_⟩
    dsimp only
    rw [h.dropped, Nat.add_right_comm]

theorem grant (h : muted.TemposOf timeline) {channel : UInt8} (hchannel : 15 < channel)
    (request : Request) :
    (muted.grant (request.onChannel channel)).TemposOf (timeline.grant request) := by
  cases request with
  | tempo micros =>
      have happend := h.append_tempo micros timeline.cursor
      rw [Request.onChannel, Timeline.grant, h.cursor]
      exact happend
  | program own instrument =>
      exact h.append_other (.programChange own instrument timeline.cursor)
        (.programChange channel instrument muted.cursor) rfl rfl hchannel
  | note own pitch velocity =>
      have hstart := h.append_other (.noteOn own pitch velocity timeline.cursor)
        (.noteOn channel pitch velocity muted.cursor) rfl rfl hchannel
      have hend := hstart.append_other
        (.noteOff own pitch velocity (timeline.cursor + noteLength))
        (.noteOff channel pitch velocity (muted.cursor + noteLength)) rfl rfl hchannel
      refine ⟨?_, hend.events, hend.dropped⟩
      exact congrArg (· + noteLength) h.cursor

theorem grantAll (h : muted.TemposOf timeline) {channel : UInt8} (hchannel : 15 < channel)
    (requests : List Request) :
    (muted.grantAll (requests.map (Request.onChannel channel))).TemposOf
      (timeline.grantAll requests) := by
  induction requests generalizing muted timeline with
  | nil => exact h
  | cons request rest ih => exact ih (h.grant hchannel request)

end TemposOf

end Timeline

/-! ## Voices -/

namespace Voice

/-- The same voice on another channel. -/
def onChannel (channel : UInt8) (voice : Voice) : Voice :=
  { voice with channel := channel }

theorem tempoRequests_onChannel (channel : UInt8) (voice : Voice) :
    (voice.onChannel channel).tempoRequests =
      voice.tempoRequests.map (Request.onChannel channel) := by
  change (if voice.bpm ≤ 0.0 then [] else [Request.tempo voice.microsPerQuarter]) = _
  unfold tempoRequests
  split_ifs <;> rfl

theorem letterRequests_onChannel (channel : UInt8) (voice : Voice) (letter : Char) :
    (voice.onChannel channel).letterRequests letter =
      (voice.letterRequests letter).map (Request.onChannel channel) := by
  unfold letterRequests
  cases semitone? letter <;> rfl

variable [Dice σ]

theorem bindingRequests_onChannel (channel : UInt8) (rules : Rules) (binding : Binding)
    (voice : Voice) (dice : σ) :
    (voice.onChannel channel).bindingRequests rules binding dice =
      (voice.bindingRequests rules binding dice).map (Request.onChannel channel) := by
  unfold bindingRequests
  cases binding.action with
  | newNote | randomNote => exact letterRequests_onChannel channel voice _
  | doubleVolume | increaseOctave | decreaseOctave => rfl
  | repeatNote =>
      unfold repeatRequests
      split_ifs
      · rfl
      · cases rules.variant <;> rfl
  | newInstrument =>
      unfold programRequests
      cases rules.variant <;> rfl
  | rest =>
      unfold restRequests
      cases Performance.restSemitone? rules binding <;> rfl

/-- A voice asks for the same on every channel. -/
theorem requests_onChannel (channel : UInt8) (rules : Rules) (voice : Voice) (dice : σ)
    (reaction : Reaction) :
    (voice.onChannel channel).requests rules dice reaction =
      (voice.requests rules dice reaction).map (Request.onChannel channel) := by
  cases reaction with
  | trigger =>
      exact tempoRequests_onChannel channel
        { voice with bpm := voice.bpm + rules.tempoStep }
  | bound binding | replay binding =>
      exact bindingRequests_onChannel channel rules binding voice dice
  | ignored => rfl

theorem behind_onChannel (channel : UInt8) (rules : Rules) (voice : Voice) (dice : σ)
    (action : Action) :
    (voice.onChannel channel).behind rules dice action =
      (voice.behind rules dice action).onChannel channel := by
  cases action with
  | newInstrument =>
      unfold behind nextInstrument
      cases rules.variant <;> rfl
  | _ => rfl

theorem after_onChannel (channel : UInt8) (rules : Rules) (voice : Voice) (dice : σ)
    (reaction : Reaction) :
    (voice.onChannel channel).after rules dice reaction =
      (voice.after rules dice reaction).onChannel channel := by
  cases reaction with
  | trigger | ignored => rfl
  | bound binding | replay binding =>
      exact behind_onChannel channel rules voice dice binding.action

end Voice

/-! ## Performances -/

/-- A performance that differs from another by a channel that the wire cannot carry, and
by what came of it. -/
structure Performance.MutedOn (channel : UInt8) (muted performance : Performance σ) :
    Prop where
  voice : muted.voice = performance.voice.onChannel channel
  dice : muted.dice = performance.dice
  timeline : muted.timeline.TemposOf performance.timeline

namespace Performance.MutedOn

variable {channel : UInt8} {muted performance : Performance σ}

theorem setInstrument (h : muted.MutedOn channel performance) (hchannel : 15 < channel)
    (instrument : UInt8) :
    (muted.setInstrument instrument).MutedOn channel
      (performance.setInstrument instrument) := by
  refine ⟨?_, h.dice, ?_⟩
  · change { muted.voice with instrument := instrument } = _
    rw [h.voice]
    rfl
  · rw [timeline_setInstrument, timeline_setInstrument, h.voice]
    exact h.timeline.grant hchannel (.program performance.voice.channel instrument)

theorem respond [Dice σ] (h : muted.MutedOn channel performance) (hchannel : 15 < channel)
    (rules : Rules) (reaction : Reaction) :
    (muted.respond rules reaction).MutedOn channel
      (performance.respond rules reaction) := by
  refine ⟨?_, ?_, ?_⟩
  · rw [voice_respond, voice_respond, h.voice, h.dice, Voice.after_onChannel]
  · rw [dice_respond, dice_respond, h.dice]
  · rw [timeline_respond, timeline_respond, h.voice, h.dice, Voice.requests_onChannel]
    exact h.timeline.grantAll hchannel _

end Performance.MutedOn

/-! ## Sessions -/

namespace Session

/-- A session that differs from another by a channel that the wire cannot carry, and has
heard the same. -/
structure MutedOn (channel : UInt8) (muted session : Session σ) : Prop where
  rules : muted.config.rules = session.config.rules
  memory : muted.memory = session.memory
  performance : muted.performance.MutedOn channel session.performance

theorem mutedOn_start (config : Config) (dice : σ) {channel : UInt8}
    (hchannel : 15 < channel) :
    (start { config with channel := channel } dice).MutedOn channel
      (start config dice) := by
  refine ⟨rfl, rfl, ?_, ?_, ?_⟩
  · exact (voice_start _ dice).trans
      (congrArg (Voice.onChannel channel) (voice_start config dice).symm)
  · exact (dice_start _ dice).trans (dice_start config dice).symm
  · have hempty : (Timeline.startingAt config.startTick).TemposOf
        (Timeline.startingAt config.startTick) := ⟨rfl, rfl, rfl⟩
    have hopened := hempty.grantAll hchannel
      ((Voice.ofConfig config).tempoRequests ++
        [.program config.channel config.instrument])
    rw [List.map_append, ← Voice.tempoRequests_onChannel] at hopened
    change (start _ dice).timeline.TemposOf (start config dice).timeline
    rw [timeline_start, timeline_start]
    exact hopened

variable [Dice σ]

theorem MutedOn.feed {channel : UInt8} {muted session : Session σ}
    (h : muted.MutedOn channel session) (hchannel : 15 < channel) (c : Char) :
    (muted.feed c).MutedOn channel (session.feed c) := by
  refine ⟨h.rules, ?_, ?_⟩
  · exact congrArg (Memory.observe · c) h.memory
  · change (muted.performance.respond _ _).MutedOn channel
      (session.performance.respond _ _)
    rw [h.rules, h.memory]
    exact h.performance.respond hchannel _ _

/-- On a channel that the wire cannot carry, a session takes the same steps as on any
other channel and comes to the same state, wherever its run stops.  It has kept the tempos
of the other session, and each other event that is kept there is dropped. -/
theorem unfit_channel_keeps_tempos (config : Config) (dice : σ) {channel : UInt8}
    (hchannel : 15 < channel) (operations : List Operation) :
    let opened := start config dice
    let mutedOpened := start { config with channel := channel } dice
    let session := opened.performAll operations
    let muted := mutedOpened.performAll operations
    mutedOpened.runSteps operations = opened.runSteps operations ∧
      muted.memory = session.memory ∧
      muted.voice = { session.voice with channel := channel } ∧
      muted.performance.dice = session.performance.dice ∧
      muted.timeline.cursor = session.timeline.cursor ∧
      muted.timeline.events.toList = session.timeline.events.toList.filter Event.isTempo ∧
      muted.timeline.dropped = session.timeline.dropped +
        session.timeline.events.toList.countP fun event => !event.isTempo := by
  intro opened mutedOpened session muted
  have hopened : mutedOpened.MutedOn channel opened := mutedOn_start config dice hchannel
  have hmuted : muted.MutedOn channel session := by
    apply performAll_twins (R := fun session muted => muted.MutedOn channel session)
    · intro session muted c h
      exact h.feed hchannel c
    · intro session muted instrument h
      exact ⟨h.rules, h.memory, h.performance.setInstrument hchannel instrument⟩
    · exact hopened
  obtain ⟨-, hmemory, hvoice, hdice, htimeline⟩ := hmuted
  refine ⟨?_, hmemory, hvoice, hdice, htimeline.cursor, htimeline.events,
    htimeline.dropped⟩
  rw [runSteps_eq_memory, runSteps_eq_memory, hopened.memory]

/-- Notes, a tempo trigger, an instrument that the wire cannot carry either and two rings,
on channel 9 and on channel 16. -/
theorem unfit_channel_keeps_tempos_trigger :
    let operations : List Operation :=
      [.feedText ['B', 'P', 'M', '+', 'o'], .setInstrument 200, .feed 'x']
    let dice := RandomStream.ofSeed 1
    let session := (start { channel := 9 } dice).performAll operations
    let muted := (start { channel := 16 } dice).performAll operations
    (15 : UInt8) < 16 ∧ session.timeline.events.size = 16 ∧ session.timeline.dropped = 2 ∧
      muted.timeline.events.toList = [.tempoChange 500000 24, .tempoChange 300000 36] ∧
      muted.timeline.dropped = 16 := by
  intro operations dice session muted
  have hchannel : (15 : UInt8) < 16 := by decide
  obtain ⟨-, -, -, -, -, hevents, hdropped⟩ :=
    unfit_channel_keeps_tempos { channel := 9 } dice hchannel operations
  have hkept : session.timeline.events.toList.filter Event.isTempo =
      [.tempoChange 500000 24, .tempoChange 300000 36] := by decide +kernel
  have hother : session.timeline.dropped + (session.timeline.events.toList.countP
      fun event => !event.isTempo) = 16 := by decide +kernel
  exact ⟨hchannel, by decide +kernel, by decide +kernel, hevents.trans hkept,
    hdropped.trans hother⟩

end Session

end TextMusic
