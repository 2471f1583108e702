/-
Requests: what a performance asks of its timeline.  Every action comes down to
requests that are granted at the cursor, one after the other, and which ones
they are never depends on the timeline.  What requests keep is therefore kept by
every session.
-/
import TextMusic.Session

namespace TextMusic

variable {σ : Type}

/-- Something that is put into a timeline at its cursor. -/
inductive Request where
  | tempo (micros : UInt32)
  | program (channel instrument : UInt8)
  | note (channel pitch velocity : UInt8)
deriving DecidableEq, Repr

namespace Timeline

def grant (timeline : Timeline) : Request → Timeline
  | .tempo micros => timeline.append (.tempoChange micros timeline.cursor)
  | .program channel instrument =>
      timeline.append (.programChange channel instrument timeline.cursor)
  | .note channel pitch velocity => timeline.emitNote channel pitch velocity noteLength

def grantAll (timeline : Timeline) (requests : List Request) : Timeline :=
  requests.foldl grant timeline

@[simp] theorem grantAll_nil (timeline : Timeline) :
    timeline.grantAll [] = timeline := rfl

@[simp] theorem grantAll_cons (timeline : Timeline) (request : Request)
    (requests : List Request) :
    timeline.grantAll (request :: requests) =
      (timeline.grant request).grantAll requests := rfl

theorem grantAll_append (timeline : Timeline) (first second : List Request) :
    timeline.grantAll (first ++ second) = (timeline.grantAll first).grantAll second :=
  List.foldl_append

/-- What every granted request keeps, a list of them keeps. -/
theorem grantAll_induction {P : Timeline → Prop}
    (hgrant : ∀ timeline request, P timeline → P (timeline.grant request))
    (timeline : Timeline) (h : P timeline) (requests : List Request) :
    P (timeline.grantAll requests) := by
  induction requests generalizing timeline with
  | nil => exact h
  | cons request requests ih => exact ih _ (hgrant timeline request h)

end Timeline

/-! ## What a voice asks for -/

namespace Voice

/-- A note of the voice at a volume. -/
def note (voice : Voice) (volume semitone : UInt8) : Request :=
  .note voice.channel (pitchOf voice.octave semitone) volume

/-- The note that a letter names, if it names one. -/
def letterRequests (voice : Voice) (letter : Char) : List Request :=
  ((semitone? letter).map (voice.note voice.volume)).toList

/-- The announcement of the tempo, unless that is at or below zero. -/
def tempoRequests (voice : Voice) : List Request :=
  if voice.bpm ≤ 0.0 then [] else [.tempo voice.microsPerQuarter]

def repeatRequests (rules : Rules) (binding : Binding) (voice : Voice) : List Request :=
  if isNoteLetter binding.previousCharacter then
    [voice.note voice.volume (binding.previousPitch.getD fallbackSemitone)]
  else match rules.variant with
    | .rich =>
        [.program voice.channel ringingInstrument,
          voice.note voice.volume fallbackSemitone,
          .program voice.channel voice.instrument]
    | .plain => [voice.note voice.volume fallbackSemitone]

def restRequests (rules : Rules) (binding : Binding) (voice : Voice) : List Request :=
  ((Performance.restSemitone? rules binding).map (voice.note 0)).toList

variable [Dice σ]

def programRequests (rules : Rules) (voice : Voice) (dice : σ) : List Request :=
  match rules.variant with
  | .rich => [.program voice.channel (UInt8.ofNat (Dice.program dice).1)]
  | .plain => [.program voice.channel voice.instrument]

/-- The instrument that a voice changes to when a new one is wanted. -/
def nextInstrument (rules : Rules) (voice : Voice) (dice : σ) : UInt8 :=
  match rules.variant with
  | .rich => UInt8.ofNat (Dice.program dice).1
  | .plain => voice.instrument

theorem programRequests_eq (rules : Rules) (voice : Voice) (dice : σ) :
    voice.programRequests rules dice =
      [.program voice.channel (voice.nextInstrument rules dice)] := by
  unfold programRequests nextInstrument
  cases rules.variant <;> rfl

/-- What carrying out a binding asks for. -/
def bindingRequests (rules : Rules) (binding : Binding) (voice : Voice) (dice : σ) :
    List Request :=
  match binding.action with
  | .newNote => voice.letterRequests binding.character
  | .doubleVolume | .increaseOctave | .decreaseOctave => []
  | .repeatNote => voice.repeatRequests rules binding
  | .randomNote => voice.letterRequests (noteLetters.get (Dice.letter dice).1)
  | .newInstrument => voice.programRequests rules dice
  | .rest => voice.restRequests rules binding

/-- What a reaction asks for. -/
def requests (rules : Rules) (voice : Voice) (dice : σ) : Reaction → List Request
  | .trigger => { voice with bpm := voice.bpm + rules.tempoStep }.tempoRequests
  | .bound binding | .replay binding => voice.bindingRequests rules binding dice
  | .ignored => []

end Voice

/-! ## Performances only ever ask -/

namespace Performance

@[simp] theorem timeline_setInstrument (performance : Performance σ)
    (instrument : UInt8) :
    (performance.setInstrument instrument).timeline =
      performance.timeline.grant (.program performance.voice.channel instrument) := rfl

@[simp] theorem voice_writeTempo (performance : Performance σ) :
    performance.writeTempo.voice = performance.voice := by
  unfold writeTempo
  split <;> rfl

@[simp] theorem voice_playLetter (performance : Performance σ) (letter : Char) :
    (performance.playLetter letter).voice = performance.voice := by
  unfold playLetter
  split <;> rfl

/-- The ring gives the instrument back. -/
@[simp] theorem voice_repeatNote (rules : Rules) (binding : Binding)
    (performance : Performance σ) :
    (performance.repeatNote rules binding).voice = performance.voice := by
  unfold repeatNote
  split
  · rfl
  · cases rules.variant <;> rfl

@[simp] theorem voice_rest (rules : Rules) (binding : Binding)
    (performance : Performance σ) :
    (performance.rest rules binding).voice = performance.voice := by
  unfold rest
  split <;> rfl

/-- A trigger changes the tempo and nothing else. -/
theorem voice_increaseTempo (performance : Performance σ) (delta : Float32) :
    (performance.increaseTempo delta).voice =
      { performance.voice with bpm := performance.voice.bpm + delta } :=
  voice_writeTempo _

theorem timeline_writeTempo (performance : Performance σ) :
    performance.writeTempo.timeline =
      performance.timeline.grantAll performance.voice.tempoRequests := by
  unfold writeTempo Voice.tempoEvent? Voice.tempoRequests
  by_cases hbpm : performance.voice.bpm ≤ 0.0
  · simp only [hbpm, ↓reduceIte, Timeline.grantAll_nil]
  · simp only [hbpm, ↓reduceIte]
    rfl

theorem timeline_playLetter (performance : Performance σ) (letter : Char) :
    (performance.playLetter letter).timeline =
      performance.timeline.grantAll (performance.voice.letterRequests letter) := by
  unfold playLetter Voice.letterRequests
  cases semitone? letter <;> rfl

theorem timeline_repeatNote (rules : Rules) (binding : Binding)
    (performance : Performance σ) :
    (performance.repeatNote rules binding).timeline =
      performance.timeline.grantAll (performance.voice.repeatRequests rules binding) := by
  unfold repeatNote Voice.repeatRequests
  split
  · rfl
  · cases rules.variant <;> rfl

theorem timeline_rest (rules : Rules) (binding : Binding) (performance : Performance σ) :
    (performance.rest rules binding).timeline =
      performance.timeline.grantAll (performance.voice.restRequests rules binding) := by
  unfold rest Voice.restRequests
  cases restSemitone? rules binding <;> rfl

variable [Dice σ]

theorem timeline_newInstrument (rules : Rules) (performance : Performance σ) :
    (performance.newInstrument rules).timeline =
      performance.timeline.grantAll
        (performance.voice.programRequests rules performance.dice) := by
  unfold newInstrument Voice.programRequests
  cases rules.variant <;> rfl

/-- Only the volume, the octave and a new instrument leave a trace on the voice. -/
theorem voice_carryOut (rules : Rules) (binding : Binding) (performance : Performance σ) :
    (performance.carryOut rules binding).voice =
      match binding.action with
      | .doubleVolume => performance.voice.doubleVolume
      | .increaseOctave => performance.voice.increaseOctave
      | .decreaseOctave => performance.voice.decreaseOctave
      | .newInstrument =>
          { performance.voice with
            instrument := performance.voice.nextInstrument rules performance.dice }
      | .newNote | .repeatNote | .randomNote | .rest => performance.voice := by
  unfold carryOut
  cases binding.action with
  | newNote => exact voice_playLetter performance binding.character
  | doubleVolume | increaseOctave | decreaseOctave => rfl
  | repeatNote => exact voice_repeatNote rules binding performance
  | randomNote => exact voice_playLetter _ _
  | newInstrument =>
      unfold newInstrument Voice.nextInstrument
      cases rules.variant <;> rfl
  | rest => exact voice_rest rules binding performance

theorem timeline_carryOut (rules : Rules) (binding : Binding)
    (performance : Performance σ) :
    (performance.carryOut rules binding).timeline = performance.timeline.grantAll
      (performance.voice.bindingRequests rules binding performance.dice) := by
  unfold carryOut Voice.bindingRequests
  cases binding.action with
  | newNote => exact timeline_playLetter performance binding.character
  | doubleVolume | increaseOctave | decreaseOctave => rfl
  | repeatNote => exact timeline_repeatNote rules binding performance
  | randomNote => exact timeline_playLetter _ _
  | newInstrument => exact timeline_newInstrument rules performance
  | rest => exact timeline_rest rules binding performance

/-- All that a reaction does to the timeline is to ask. -/
theorem timeline_respond (rules : Rules) (performance : Performance σ)
    (reaction : Reaction) :
    (performance.respond rules reaction).timeline = performance.timeline.grantAll
      (performance.voice.requests rules performance.dice reaction) := by
  cases reaction with
  | trigger => exact timeline_writeTempo _
  | bound binding | replay binding => exact timeline_carryOut rules binding performance
  | ignored => rfl

end Performance

/-! ## Sessions only ever ask -/

namespace Session

/-- A session opens by asking for its tempo and its instrument. -/
theorem timeline_start (config : Config) (dice : σ) :
    (start config dice).timeline = (Timeline.startingAt config.startTick).grantAll
      ((Voice.ofConfig config).tempoRequests ++
        [.program config.channel config.instrument]) := by
  rw [Timeline.grantAll_append, timeline, start, Performance.timeline_setInstrument,
    Performance.timeline_writeTempo, Performance.voice_writeTempo]
  rfl

variable [Dice σ] {P : Timeline → Prop}

theorem feed_timeline_induction
    (hgrant : ∀ timeline request, P timeline → P (timeline.grant request))
    (session : Session σ) (h : P session.timeline) (c : Char) :
    P (session.feed c).timeline := by
  rw [timeline, feed, Performance.timeline_respond]
  exact Timeline.grantAll_induction hgrant _ h _

theorem feedAll_timeline_induction
    (hgrant : ∀ timeline request, P timeline → P (timeline.grant request))
    (session : Session σ) (h : P session.timeline) (text : List Char) :
    P (session.feedAll text).timeline := by
  induction text generalizing session with
  | nil => exact h
  | cons c rest ih => exact ih _ (feed_timeline_induction hgrant session h c)

theorem perform_timeline_induction
    (hgrant : ∀ timeline request, P timeline → P (timeline.grant request))
    (session : Session σ) (h : P session.timeline) (operation : Operation) :
    P (session.perform operation).timeline := by
  cases operation with
  | feed c => exact feed_timeline_induction hgrant session h c
  | feedText text => exact feedAll_timeline_induction hgrant session h text
  | setInstrument instrument =>
      exact hgrant session.timeline (.program session.voice.channel instrument) h
  | readFrom source => exact feedAll_timeline_induction hgrant session h _

/-- What every granted request keeps, a session keeps, whatever is done to it. -/
theorem performAll_timeline_induction
    (hgrant : ∀ timeline request, P timeline → P (timeline.grant request))
    (session : Session σ) (h : P session.timeline) (operations : List Operation) :
    P (session.performAll operations).timeline := by
  induction operations generalizing session with
  | nil => exact h
  | cons operation rest ih =>
      exact ih _ (perform_timeline_induction hgrant session h operation)

end Session

end TextMusic
