/-
The music: what is left of a timeline without its program changes.  It is the same on
every instrument, and it is the same in both variants as long as no note is left to the
dice.
-/
import TextMusic.Proofs.Course
import TextMusic.Proofs.Program

namespace TextMusic

variable {σ τ : Type}

/-! ## Timelines that sound alike -/

def Event.isMusic : Event → Bool
  | noteOn .. | noteOff .. | tempoChange .. => true
  | programChange .. => false

def Request.isMusic : Request → Bool
  | tempo _ | note .. => true
  | program .. => false

namespace Timeline

/-- The notes and the tempos of a timeline, in order. -/
def music (timeline : Timeline) : List Event :=
  timeline.events.toList.filter Event.isMusic

/-- Timelines with the same music that have come equally far. -/
structure SoundsLike (other timeline : Timeline) : Prop where
  cursor : other.cursor = timeline.cursor
  music : other.music = timeline.music

theorem music_append (timeline : Timeline) (event : Event) :
    (timeline.append event).music = timeline.music ++
      if event.fits && event.isMusic then [event] else [] := by
  unfold music append
  cases event.fits with
  | false => simp
  | true => cases hmusic : event.isMusic <;> simp [hmusic]

/-- A program change is no part of the music. -/
theorem soundsLike_grant_program (timeline : Timeline) (channel instrument : UInt8) :
    (timeline.grant (.program channel instrument)).SoundsLike timeline := by
  refine ⟨cursor_append timeline _, ?_⟩
  rw [grant, music_append, Event.isMusic, Bool.and_false]
  exact List.append_nil _

namespace SoundsLike

variable {other timeline : Timeline}

theorem refl (timeline : Timeline) : timeline.SoundsLike timeline :=
  ⟨rfl, rfl⟩

theorem symm (h : other.SoundsLike timeline) : timeline.SoundsLike other :=
  ⟨h.cursor.symm, h.music.symm⟩

theorem trans {third : Timeline} (h : other.SoundsLike timeline)
    (hthird : timeline.SoundsLike third) : other.SoundsLike third :=
  ⟨h.cursor.trans hthird.cursor, h.music.trans hthird.music⟩

theorem append (h : other.SoundsLike timeline) (event : Event) :
    (other.append event).SoundsLike (timeline.append event) := by
  refine ⟨?_, ?_⟩
  · rw [cursor_append, cursor_append, h.cursor]
  · rw [music_append, music_append, h.music]

theorem grant (h : other.SoundsLike timeline) (request : Request) :
    (other.grant request).SoundsLike (timeline.grant request) := by
  cases request with
  | tempo micros =>
      rw [Timeline.grant, Timeline.grant, h.cursor]
      exact h.append _
  | program channel instrument =>
      rw [Timeline.grant, Timeline.grant, h.cursor]
      exact h.append _
  | note channel pitch velocity =>
      rw [Timeline.grant, Timeline.grant, emitNote, emitNote, h.cursor]
      have hsounded := (h.append (.noteOn channel pitch velocity timeline.cursor)).append
        (.noteOff channel pitch velocity (timeline.cursor + noteLength))
      exact ⟨rfl, hsounded.music⟩

theorem grantAll (h : other.SoundsLike timeline) (requests : List Request) :
    (other.grantAll requests).SoundsLike (timeline.grantAll requests) := by
  induction requests generalizing other timeline with
  | nil => exact h
  | cons request rest ih => exact ih (h.grant request)

end SoundsLike

/-- The music comes from the requests for music alone. -/
theorem soundsLike_grantAll_filter (timeline : Timeline) (requests : List Request) :
    (timeline.grantAll requests).SoundsLike
      (timeline.grantAll (requests.filter Request.isMusic)) := by
  induction requests generalizing timeline with
  | nil => exact .refl timeline
  | cons request rest ih =>
      cases request with
      | tempo | note => exact ih _
      | program channel instrument =>
          exact ((timeline.soundsLike_grant_program channel instrument).grantAll
            rest).trans (ih timeline)

theorem SoundsLike.grantAll_of_filter_eq {other timeline : Timeline}
    (h : other.SoundsLike timeline) {more requests : List Request}
    (hmusic : more.filter Request.isMusic = requests.filter Request.isMusic) :
    (other.grantAll more).SoundsLike (timeline.grantAll requests) := by
  have hmore := other.soundsLike_grantAll_filter more
  have hrequests := timeline.soundsLike_grantAll_filter requests
  rw [hmusic] at hmore
  exact hmore.trans ((h.grantAll _).trans hrequests.symm)

end Timeline

/-! ## Voices on other instruments -/

namespace Voice

/-- The same voice on another instrument. -/
def onInstrument (instrument : UInt8) (voice : Voice) : Voice :=
  { voice with instrument := instrument }

/-- Whatever rings, a repeat plays one note. -/
theorem filter_isMusic_repeatRequests (rules : Rules) (binding : Binding)
    (voice : Voice) :
    (voice.repeatRequests rules binding).filter Request.isMusic =
      [voice.note voice.volume (if isNoteLetter binding.previousCharacter
        then binding.previousPitch.getD fallbackSemitone else fallbackSemitone)] := by
  unfold repeatRequests
  split_ifs
  · rfl
  · cases rules.variant <;> rfl

variable [Dice σ] [Dice τ]

/-- A voice asks for the same music on every instrument and in every variant, if the dice
choose the same note where they choose one. -/
theorem filter_isMusic_bindingRequests {rules otherRules : Rules}
    (hpolicy : otherRules.restPolicy = rules.restPolicy) {binding : Binding} {dice : σ}
    {otherDice : τ} (hletter : binding.action = .randomNote →
      (Dice.letter otherDice).1 = (Dice.letter dice).1)
    (voice : Voice) (instrument : UInt8) :
    ((voice.onInstrument instrument).bindingRequests otherRules binding otherDice).filter
        Request.isMusic =
      (voice.bindingRequests rules binding dice).filter Request.isMusic := by
  unfold bindingRequests
  cases haction : binding.action with
  | newNote | doubleVolume | increaseOctave | decreaseOctave => rfl
  | repeatNote =>
      dsimp only
      rw [filter_isMusic_repeatRequests, filter_isMusic_repeatRequests]
      rfl
  | randomNote =>
      dsimp only
      rw [hletter haction]
      rfl
  | newInstrument =>
      dsimp only
      rw [programRequests_eq, programRequests_eq]
      rfl
  | rest =>
      dsimp only
      unfold restRequests Performance.restSemitone?
      rw [hpolicy]
      rfl

theorem filter_isMusic_requests {rules otherRules : Rules}
    (hpolicy : otherRules.restPolicy = rules.restPolicy)
    (hstep : otherRules.tempoStep = rules.tempoStep) {reaction : Reaction} {dice : σ}
    {otherDice : τ} (hletter : reaction.action? = some .randomNote →
      (Dice.letter otherDice).1 = (Dice.letter dice).1)
    (voice : Voice) (instrument : UInt8) :
    ((voice.onInstrument instrument).requests otherRules otherDice reaction).filter
        Request.isMusic =
      (voice.requests rules dice reaction).filter Request.isMusic := by
  cases reaction with
  | trigger =>
      unfold requests
      rw [hstep]
      rfl
  | bound binding | replay binding =>
      apply filter_isMusic_bindingRequests hpolicy
      intro haction
      exact hletter (congrArg some haction)
  | ignored => rfl

theorem after_onInstrument {rules otherRules : Rules}
    (hstep : otherRules.tempoStep = rules.tempoStep) (dice : σ) (otherDice : τ)
    (reaction : Reaction) (voice : Voice) (instrument : UInt8) :
    ∃ next, (voice.onInstrument instrument).after otherRules otherDice reaction =
      (voice.after rules dice reaction).onInstrument next := by
  cases reaction with
  | trigger =>
      refine ⟨instrument, ?_⟩
      unfold after
      rw [hstep]
      rfl
  | bound binding | replay binding =>
      rw [after, after]
      cases binding.action with
      | newInstrument => exact ⟨_, rfl⟩
      | _ => exact ⟨instrument, rfl⟩
  | ignored => exact ⟨instrument, rfl⟩

end Voice

/-! ## Performances -/

/-- Performances whose voices differ by the instrument alone, and that have sounded
alike. -/
structure Performance.SoundsLike (other : Performance τ) (performance : Performance σ) :
    Prop where
  voice : ∃ instrument, other.voice = performance.voice.onInstrument instrument
  timeline : other.timeline.SoundsLike performance.timeline

namespace Performance.SoundsLike

variable {other : Performance τ} {performance : Performance σ}

theorem setInstrument (h : other.SoundsLike performance) (instrument : UInt8) :
    other.SoundsLike (performance.setInstrument instrument) := by
  obtain ⟨own, hvoice⟩ := h.voice
  refine ⟨⟨own, hvoice⟩, h.timeline.trans ?_⟩
  exact (performance.timeline.soundsLike_grant_program _ instrument).symm

theorem respond [Dice σ] [Dice τ] (h : other.SoundsLike performance)
    {rules otherRules : Rules} (hpolicy : otherRules.restPolicy = rules.restPolicy)
    (hstep : otherRules.tempoStep = rules.tempoStep) {reaction : Reaction}
    (hletter : reaction.action? = some .randomNote →
      (Dice.letter other.dice).1 = (Dice.letter performance.dice).1) :
    (other.respond otherRules reaction).SoundsLike
      (performance.respond rules reaction) := by
  obtain ⟨instrument, hvoice⟩ := h.voice
  refine ⟨?_, ?_⟩
  · rw [voice_respond, voice_respond, hvoice]
    exact Voice.after_onInstrument hstep _ _ reaction performance.voice instrument
  · rw [timeline_respond, timeline_respond, hvoice]
    apply h.timeline.grantAll_of_filter_eq
    exact Voice.filter_isMusic_requests hpolicy hstep hletter performance.voice instrument

end Performance.SoundsLike

/-! ## Instruments -/

/-- Whether an operation brings characters. -/
def Operation.feeds : Operation → Bool
  | setInstrument _ => false
  | feed _ | feedText _ | readFrom _ => true

theorem flatMap_characters_filter_feeds (operations : List Operation) :
    (operations.filter Operation.feeds).flatMap Operation.characters =
      operations.flatMap Operation.characters := by
  induction operations with
  | nil => rfl
  | cons operation rest ih =>
      cases operation with
      | setInstrument instrument => exact ih
      | feed | feedText | readFrom => exact congrArg (_ ++ ·) ih

namespace Session

theorem soundsLike_start (config : Config) (instrument : UInt8) (dice : σ) :
    (start { config with instrument := instrument } dice).performance.SoundsLike
      (start config dice).performance := by
  refine ⟨⟨instrument, ?_⟩, ?_⟩
  · exact (voice_start _ dice).trans
      (congrArg (Voice.onInstrument instrument) (voice_start config dice).symm)
  · change (start _ dice).timeline.SoundsLike (start config dice).timeline
    rw [timeline_start, timeline_start]
    apply (Timeline.SoundsLike.refl _).grantAll_of_filter_eq
    rw [List.filter_append, List.filter_append]
    rfl

/-- Sessions that have heard the same, draw the same and sound alike. -/
structure SoundsLike (other session : Session σ) : Prop where
  rules : other.config.rules = session.config.rules
  memory : other.memory = session.memory
  dice : other.performance.dice = session.performance.dice
  performance : other.performance.SoundsLike session.performance

variable [Dice σ]

theorem SoundsLike.feed {other session : Session σ} (h : other.SoundsLike session)
    (c : Char) :
    (other.feed c).SoundsLike (session.feed c) := by
  refine ⟨h.rules, ?_, ?_, ?_⟩
  · exact congrArg (Memory.observe · c) h.memory
  · change (other.performance.respond _ _).dice = (session.performance.respond _ _).dice
    rw [Performance.dice_respond, Performance.dice_respond, h.rules, h.memory, h.dice]
  · change (other.performance.respond _ _).SoundsLike (session.performance.respond _ _)
    rw [h.rules, h.memory]
    apply h.performance.respond rfl rfl
    intro _
    rw [h.dice]

theorem SoundsLike.feedAll {other session : Session σ} (h : other.SoundsLike session)
    (text : List Char) : (other.feedAll text).SoundsLike (session.feedAll text) := by
  apply feedAll_twins (R := fun session other => other.SoundsLike session)
  · intro session other c h
    exact h.feed c
  · exact h

/-- A session sounds like one in which no instrument is set. -/
theorem SoundsLike.performAll_filter {other session : Session σ}
    (h : other.SoundsLike session) (operations : List Operation) :
    (other.performAll (operations.filter Operation.feeds)).SoundsLike
      (session.performAll operations) := by
  induction operations generalizing other session with
  | nil => exact h
  | cons operation rest ih =>
      cases operation with
      | setInstrument instrument =>
          -- Here the other session does nothing.
          exact ih ⟨h.rules, h.memory, h.dice, h.performance.setInstrument instrument⟩
      | feed c => exact ih (h.feed c)
      | feedText text => exact ih (h.feedAll text)
      | readFrom source => exact ih (h.feedAll _)

/-- Whatever instruments are set and whichever one a session opens with, it takes the same
steps, draws the same and makes the same music, wherever its run stops. -/
theorem instrument_unheard (config : Config) (instrument : UInt8) (dice : σ)
    (operations : List Operation) :
    let opened := start config dice
    let otherOpened := start { config with instrument := instrument } dice
    let fed := operations.filter Operation.feeds
    let session := opened.performAll operations
    let other := otherOpened.performAll fed
    otherOpened.runSteps fed = opened.runSteps operations ∧
      other.memory = session.memory ∧
      other.performance.dice = session.performance.dice ∧
      other.voice = { session.voice with instrument := other.voice.instrument } ∧
      other.timeline.cursor = session.timeline.cursor ∧
      other.timeline.music = session.timeline.music := by
  intro opened otherOpened fed session other
  have hopened : otherOpened.SoundsLike opened :=
    ⟨rfl, rfl, (dice_start _ dice).trans (dice_start config dice).symm,
      soundsLike_start config instrument dice⟩
  obtain ⟨-, hmemory, hdice, ⟨own, hvoice⟩, htimeline⟩ :=
    hopened.performAll_filter operations
  have hown : other.voice.instrument = own := congrArg Voice.instrument hvoice
  refine ⟨?_, hmemory, hdice, ?_, htimeline.cursor, htimeline.music⟩
  · rw [runSteps_eq_memory, runSteps_eq_memory, flatMap_characters_filter_feeds,
      hopened.memory]
  · rw [hown]
    exact hvoice

end Session

/-! ## Variants -/

theorem ofChar?_eq_randomNote_iff (c : Char) :
    Action.ofChar? c = some .randomNote ↔ c = '?' := by
  unfold Action.ofChar?
  grind

/-- Without its character there is no random note. -/
theorem Memory.action?_ne_randomNote {before : List Char} {c : Char}
    (h : '?' ∉ before ++ [c]) :
    ((empty.observeAll before).react c).action? ≠ some .randomNote := by
  intro haction
  obtain ⟨d, hd, hbound⟩ := exists_of_action? haction
  obtain rfl : d = '?' := (ofChar?_eq_randomNote_iff d).mp hbound
  exact h hd

section Plain

variable [Dice σ] {rules : Rules} (hvariant : rules.variant = .plain)
include hvariant

theorem Reaction.roll_plain {reaction : Reaction}
    (haction : reaction.action? ≠ some .randomNote) (dice : σ) :
    reaction.roll rules dice = dice := by
  unfold roll
  cases hcarried : reaction.action? with
  | none => rfl
  | some action =>
      rw [hcarried] at haction
      cases action with
      | randomNote => exact absurd rfl haction
      | newInstrument =>
          rw [Option.map_some, Option.getD_some, Action.roll, hvariant]
      | _ => rfl

theorem Voice.instrument_after_plain (voice : Voice) (dice : σ) (reaction : Reaction) :
    (voice.after rules dice reaction).instrument = voice.instrument := by
  cases reaction with
  | trigger | ignored => rfl
  | bound binding | replay binding =>
      rw [after]
      cases binding.action with
      | newInstrument =>
          change voice.nextInstrument rules dice = voice.instrument
          rw [nextInstrument, hvariant]
      | _ => rfl

/-- In the plain variant a voice asks for no program but that of its own instrument. -/
theorem Voice.program_mem_requests_plain {voice : Voice} {dice : σ} {reaction : Reaction}
    {channel instrument : UInt8}
    (h : Request.program channel instrument ∈ voice.requests rules dice reaction) :
    instrument = voice.instrument := by
  cases reaction with
  | trigger => exact absurd h (program_not_mem (filterMap_program?_tempoRequests _) _ _)
  | ignored => exact absurd h List.not_mem_nil
  | bound binding | replay binding =>
      rw [requests, bindingRequests] at h
      cases haction : binding.action with
      | newNote | randomNote =>
          rw [haction] at h
          exact absurd h (program_not_mem (filterMap_program?_letterRequests _ _) _ _)
      | doubleVolume | increaseOctave | decreaseOctave => simp [haction] at h
      | repeatNote =>
          simp only [haction, repeatRequests, hvariant] at h
          split_ifs at h <;> simp [note] at h
      | newInstrument =>
          simp only [haction, programRequests, hvariant, List.mem_singleton,
            Request.program.injEq] at h
          exact h.2
      | rest =>
          rw [haction] at h
          exact absurd h (program_not_mem (filterMap_program?_restRequests _ _ _) _ _)

end Plain

theorem Request.eq_program_of_keptProgram? {request : Request} {instrument : UInt8}
    (h : request.keptProgram? = some instrument) :
    ∃ channel, request = .program channel instrument := by
  cases request with
  | program channel other =>
      rw [keptProgram?] at h
      split_ifs at h
      obtain rfl : other = instrument := Option.some.inj h
      exact ⟨channel, rfl⟩
  | tempo | note => exact absurd h.symm (Option.some_ne_none instrument)

namespace Session

/-- A session in the plain variant that has been on one instrument alone. -/
structure StaysOn (own : UInt8) (session : Session σ) : Prop where
  variant : session.config.variant = .plain
  instrument : session.voice.instrument = own
  programs : ∀ instrument ∈ session.timeline.programs, instrument = own

theorem staysOn_start (config : Config) (hvariant : config.variant = .plain) (dice : σ) :
    (start config dice).StaysOn config.instrument := by
  refine ⟨hvariant, congrArg Voice.instrument (voice_start config dice), ?_⟩
  intro instrument hmem
  rw [timeline_start, Timeline.programs_grantAll] at hmem
  obtain ⟨request, hrequest, hkept⟩ := List.mem_filterMap.mp hmem
  obtain ⟨channel, rfl⟩ := Request.eq_program_of_keptProgram? hkept
  rcases List.mem_append.mp hrequest with htempo | hopening
  · exact absurd htempo
      (Voice.program_not_mem (Voice.filterMap_program?_tempoRequests _) _ _)
  · exact (Request.program.inj (List.mem_singleton.mp hopening)).2

variable [Dice σ]

theorem StaysOn.feed {own : UInt8} {session : Session σ} (h : session.StaysOn own)
    (c : Char) :
    (session.feed c).StaysOn own := by
  refine ⟨h.variant, ?_, ?_⟩
  · change (session.performance.respond _ _).voice.instrument = own
    rw [Performance.voice_respond, Voice.instrument_after_plain h.variant]
    exact h.instrument
  · intro instrument hmem
    rw [timeline_feed, Timeline.programs_grantAll] at hmem
    rcases List.mem_append.mp hmem with hold | hnew
    · exact h.programs instrument hold
    · obtain ⟨request, hrequest, hkept⟩ := List.mem_filterMap.mp hnew
      obtain ⟨channel, rfl⟩ := Request.eq_program_of_keptProgram? hkept
      exact (Voice.program_mem_requests_plain h.variant hrequest).trans h.instrument

theorem StaysOn.feedAll {own : UInt8} {session : Session σ} (h : session.StaysOn own)
    (text : List Char) : (session.feedAll text).StaysOn own := by
  induction text generalizing session with
  | nil => exact h
  | cons c rest ih => exact ih (h.feed c)

/-- Without random notes the plain variant makes the music of the rich one and never
throws the dice. -/
theorem soundsLike_plain (config : Config) (dice : σ) {text : List Char}
    (htext : '?' ∉ text) :
    let rich := (start { config with variant := .rich } dice).feedAll text
    let plain := (start { config with variant := .plain } dice).feedAll text
    plain.performance.SoundsLike rich.performance ∧ plain.performance.dice = dice := by
  induction text using List.reverseRecOn with
  | nil =>
      refine ⟨⟨⟨config.instrument, ?_⟩, ?_⟩, dice_start _ dice⟩
      · exact (voice_start _ dice).trans
          (voice_start { config with variant := .rich } dice).symm
      · change (start _ dice).timeline.SoundsLike (start _ dice).timeline
        rw [timeline_start, timeline_start]
        exact .refl _
  | append_singleton before c ih =>
      obtain ⟨hsounds, hdice⟩ := ih fun hmem => htext (List.mem_append_left [c] hmem)
      have haction := Memory.action?_ne_randomNote htext
      dsimp only
      rw [performance_feedAll_append, performance_feedAll_append]
      constructor
      · refine hsounds.respond ?_ ?_ fun hrandom => absurd hrandom haction
        · rfl
        · rfl
      · rw [Performance.dice_respond, Reaction.roll_plain rfl haction, hdice]

/-- Without random notes both variants take the same steps, make the same music and come
to the same state, but for the instrument.  The plain one stays on the instrument that it
opens with and draws nothing. -/
theorem variant_unheard (config : Config) (dice : σ) {text : List Char}
    (htext : '?' ∉ text) :
    let richOpened := start { config with variant := .rich } dice
    let plainOpened := start { config with variant := .plain } dice
    let rich := richOpened.feedAll text
    let plain := plainOpened.feedAll text
    plainOpened.steps text = richOpened.steps text ∧
      plain.memory = rich.memory ∧
      plain.voice = { rich.voice with instrument := config.instrument } ∧
      plain.timeline.cursor = rich.timeline.cursor ∧
      plain.timeline.music = rich.timeline.music ∧
      (∀ instrument ∈ plain.timeline.programs, instrument = config.instrument) ∧
      plain.performance.dice = dice := by
  intro richOpened plainOpened rich plain
  obtain ⟨⟨⟨own, hvoice⟩, htimeline⟩, hdice⟩ := soundsLike_plain config dice htext
  have hopened : plainOpened.StaysOn config.instrument :=
    staysOn_start { config with variant := .plain } rfl dice
  have hstays : plain.StaysOn config.instrument := hopened.feedAll text
  have hown : config.instrument = own :=
    hstays.instrument.symm.trans (congrArg Voice.instrument hvoice)
  refine ⟨?_, ?_, ?_, htimeline.cursor, htimeline.music, hstays.programs, hdice⟩
  · rw [steps_eq_memory, steps_eq_memory]
    rfl
  · rw [memory_feedAll, memory_feedAll]
    rfl
  · rw [hown]
    exact hvoice

/-- Without a letter before it a repeat rings, and a new line asks for another instrument,
in the rich variant alone. -/
theorem variant_unheard_ring :
    let text := ['+', 'o', '\n', 'D', 'B', 'P', 'M', '+']
    let dice := RandomStream.ofSeed 1
    let rich := (start { instrument := 5, variant := .rich } dice).feedAll text
    let plain := (start { instrument := 5, variant := .plain } dice).feedAll text
    '?' ∉ text ∧ plain.timeline.music.length = 12 ∧ plain.timeline.programs = [5, 5] ∧
      plain.timeline.music = rich.timeline.music ∧ plain.performance.dice = dice := by
  intro text dice rich plain
  have htext : '?' ∉ text := by decide
  obtain ⟨-, -, -, -, hmusic, -, hdice⟩ := variant_unheard { instrument := 5 } dice htext
  exact ⟨htext, by decide +kernel, by decide +kernel, hmusic, hdice⟩

end Session

end TextMusic
