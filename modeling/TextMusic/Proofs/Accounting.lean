/-
Accounting: how far the cursor comes and how many events are asked for can be counted
from the text.  Nothing that a voice is set to moves the cursor.
-/
import TextMusic.Proofs.Coherence
import TextMusic.Proofs.Request

namespace TextMusic

variable {σ : Type}

/-! ## Turns -/

/-- What one character of a text stands for, with the text before it. -/
structure Turn where
  before : List Char
  reaction : Reaction
deriving DecidableEq, Repr

namespace Turn

/-- The turn of a character that follows a text. -/
def behind (before : List Char) (c : Char) : Turn :=
  ⟨before, (Memory.empty.observeAll before).react c⟩

/-- The turns of a text that follows another. -/
def following (before : List Char) : List Char → List Turn
  | [] => []
  | c :: rest => behind before c :: following (before ++ [c]) rest

def ofText (text : List Char) : List Turn :=
  following [] text

/-- The action that is carried out, if one is. -/
def action? (turn : Turn) : Option Action :=
  turn.reaction.binding?.map Binding.action

/-- Whether the turn takes the time of a note.  A rest before the first letter does so
only under one of the policies. -/
def takesTime (policy : RestPolicy) (turn : Turn) : Bool :=
  match turn.action? with
  | some .newNote | some .repeatNote | some .randomNote => true
  | some .rest => policy = .sentinel || turn.before.any isNoteLetter
  | _ => false

def changesInstrument (turn : Turn) : Bool :=
  turn.action? = some .newInstrument

/-- Whether the turn repeats where the character before was no letter. -/
def repeatsNothing (turn : Turn) : Bool :=
  turn.reaction.binding?.any fun binding =>
    binding.action = .repeatNote && !isNoteLetter binding.previousCharacter

def raisesTempo (turn : Turn) : Bool :=
  turn.reaction = .trigger

end Turn

/-- Whether a tempo is announced. -/
def announced (bpm : Float32) : Bool :=
  !decide (bpm ≤ 0.0)

/-- The tempo after each of some triggers. -/
def raisedTempos (step bpm : Float32) : Nat → List Float32
  | 0 => []
  | n + 1 => (bpm + step) :: raisedTempos step (bpm + step) n

/-! ## Requests -/

def Request.isNote : Request → Bool
  | .note .. => true
  | .tempo _ | .program .. => false

namespace Timeline

/-- How many events have been asked for, kept or not. -/
def asked (timeline : Timeline) : Nat :=
  timeline.events.size + timeline.dropped

theorem asked_append (timeline : Timeline) (event : Event) :
    (timeline.append event).asked = timeline.asked + 1 := by
  unfold append asked
  split_ifs
  · simp only [Array.size_push]
    omega
  · exact (Nat.add_assoc _ _ _).symm

theorem cursor_grantAll (timeline : Timeline) (requests : List Request) :
    (timeline.grantAll requests).cursor =
      timeline.cursor + 4 * requests.countP Request.isNote := by
  induction requests generalizing timeline with
  | nil => rfl
  | cons request rest ih =>
      rw [grantAll_cons, ih, List.countP_cons]
      cases request with
      | tempo | program => simp [grant, Request.isNote]
      | note =>
          simp only [grant, cursor_emitNote, noteLength, Request.isNote, if_true]
          omega

/-- Every request asks for one event, and a note for its end as well. -/
theorem asked_grantAll (timeline : Timeline) (requests : List Request) :
    (timeline.grantAll requests).asked =
      timeline.asked + requests.length + requests.countP Request.isNote := by
  induction requests generalizing timeline with
  | nil => rfl
  | cons request rest ih =>
      rw [grantAll_cons, ih, List.countP_cons, List.length_cons]
      cases request with
      | tempo | program =>
          simp only [grant, asked_append, Request.isNote, Bool.false_eq_true, if_false]
          omega
      | note channel pitch velocity =>
          have hasked : (timeline.emitNote channel pitch velocity noteLength).asked =
              timeline.asked + 1 + 1 := by
            rw [← asked_append, ← asked_append]
            rfl
          simp only [grant, hasked, Request.isNote, if_true]
          omega

end Timeline

/-! ## What a turn asks for -/

namespace Turn

/-- The binding of the turn was made by the table, and with the letters before it. -/
def Coherent (turn : Turn) : Prop :=
  ∀ binding, turn.reaction.binding? = some binding →
    binding.Coherent ∧
      (semitone? binding.character = none →
        binding.previousPitch = lastSemitone? turn.before)

theorem coherent_behind (before : List Char) (c : Char) : (behind before c).Coherent := by
  intro binding hbinding
  obtain ⟨hcoherent, hpitch⟩ := (Memory.coherent_observeAll before).react hbinding
  refine ⟨hcoherent, fun hnone => (hpitch hnone).trans ?_⟩
  rw [Memory.previousPitch_observeAll]
  exact Option.or_none

end Turn

namespace Voice

theorem letterRequests_eq (voice : Voice) {letter : Char}
    (h : isNoteLetter letter = true) :
    ∃ semitone, voice.letterRequests letter = [voice.note voice.volume semitone] := by
  obtain ⟨semitone, hsemitone⟩ := Option.isSome_iff_exists.mp h
  refine ⟨semitone, ?_⟩
  rw [letterRequests, hsemitone]
  rfl

/-- A rest holds a note under the one policy, or behind a letter. -/
theorem restRequests_eq (rules : Rules) {turn : Turn} {binding : Binding}
    (h : turn.Coherent) (hbinding : turn.reaction.binding? = some binding)
    (haction : binding.action = .rest) (voice : Voice) :
    ∃ semitone, voice.restRequests rules binding =
      if rules.restPolicy = .sentinel || turn.before.any isNoteLetter
      then [voice.note 0 semitone] else [] := by
  obtain ⟨hcoherent, hpitch⟩ := h binding hbinding
  have hnone : semitone? binding.character = none := by
    apply semitone?_eq_none_of_action
    rw [hcoherent.action_eq, haction]
    decide
  rw [← isSome_lastSemitone?, ← hpitch hnone]
  unfold restRequests Performance.restSemitone?
  cases binding.previousPitch with
  | some semitone => exact ⟨semitone, by simp⟩
  | none => cases rules.restPolicy <;> exact ⟨fallbackSemitone, rfl⟩

variable [Dice σ]

/-- The notes and the other events that carrying out a binding asks for. -/
theorem bindingRequests_count (rules : Rules) {turn : Turn} {binding : Binding}
    (h : turn.Coherent) (hbinding : turn.reaction.binding? = some binding)
    (voice : Voice) (dice : σ) :
    let requests := voice.bindingRequests rules binding dice
    let notes := if turn.takesTime rules.restPolicy then 1 else 0
    requests.countP Request.isNote = notes ∧
      requests.length = notes + (if turn.changesInstrument then 1 else 0) +
        if rules.variant = .rich then 2 * (if turn.repeatsNothing then 1 else 0)
        else 0 := by
  have hcoherent := (h binding hbinding).1
  unfold bindingRequests Turn.takesTime Turn.changesInstrument
    Turn.repeatsNothing Turn.action?
  rw [hbinding]
  cases haction : binding.action with
  | newNote =>
      have hletter : isNoteLetter binding.character = true := by
        rw [← ofChar?_eq_newNote_iff, hcoherent.action_eq, haction]
      obtain ⟨semitone, hrequests⟩ := voice.letterRequests_eq hletter
      simp [haction, hrequests, note, Request.isNote]
  | doubleVolume | increaseOctave | decreaseOctave => simp [haction]
  | repeatNote =>
      unfold repeatRequests
      cases hletter : isNoteLetter binding.previousCharacter <;> cases rules.variant <;>
        simp [haction, hletter, note, Request.isNote, List.countP_cons]
  | randomNote =>
      have hletter : isNoteLetter (noteLetters.get (Dice.letter dice).1) = true :=
        isNoteLetter_noteLetters (Dice.letter dice).1
      obtain ⟨semitone, hrequests⟩ := voice.letterRequests_eq hletter
      simp [haction, hrequests, note, Request.isNote]
  | newInstrument =>
      unfold programRequests
      cases rules.variant <;> simp [haction, Request.isNote]
  | rest =>
      obtain ⟨semitone, hrequests⟩ := restRequests_eq rules h hbinding haction voice
      simp only [hrequests, Option.map_some, haction]
      cases rules.restPolicy = .sentinel || turn.before.any isNoteLetter <;>
        simp [haction, note, Request.isNote]

theorem requests_count (rules : Rules) {turn : Turn} (h : turn.Coherent) (voice : Voice)
    (dice : σ) :
    let requests := voice.requests rules dice turn.reaction
    let notes := if turn.takesTime rules.restPolicy then 1 else 0
    requests.countP Request.isNote = notes ∧
      requests.length = notes + (if turn.changesInstrument then 1 else 0) +
        (if rules.variant = .rich then 2 * (if turn.repeatsNothing then 1 else 0)
          else 0) +
        if turn.raisesTempo && announced (voice.bpm + rules.tempoStep) then 1 else 0 := by
  intro requests notes
  cases hreaction : turn.reaction with
  | trigger =>
      have hrequests : requests =
          { voice with bpm := voice.bpm + rules.tempoStep }.tempoRequests := by
        simp only [requests, hreaction, Voice.requests]
      by_cases hbpm : voice.bpm + rules.tempoStep ≤ 0.0 <;>
        simp [hrequests, notes, tempoRequests, announced, hbpm, hreaction, Request.isNote,
          Turn.takesTime, Turn.changesInstrument, Turn.repeatsNothing, Turn.raisesTempo,
          Turn.action?, Reaction.binding?]
  | bound binding | replay binding =>
      have hbinding : turn.reaction.binding? = some binding := by rw [hreaction]; rfl
      have hrequests : requests = voice.bindingRequests rules binding dice := by
        simp only [requests, hreaction, Voice.requests]
      have hraises : turn.raisesTempo = false := by simp [Turn.raisesTempo, hreaction]
      rw [hrequests, hraises]
      exact bindingRequests_count rules h hbinding voice dice
  | ignored =>
      have hrequests : requests = [] := by
        simp only [requests, hreaction, Voice.requests]
      simp [hrequests, notes, hreaction, Turn.takesTime, Turn.changesInstrument,
        Turn.repeatsNothing, Turn.raisesTempo, Turn.action?, Reaction.binding?]

end Voice

/-! ## The tempo -/

namespace Performance

variable [Dice σ]

theorem bpm_carryOut (rules : Rules) (binding : Binding) (performance : Performance σ) :
    (performance.carryOut rules binding).voice.bpm = performance.voice.bpm := by
  rw [voice_carryOut]
  cases binding.action <;> rfl

/-- Only a trigger changes the tempo. -/
theorem bpm_respond (rules : Rules) (performance : Performance σ) (reaction : Reaction) :
    (performance.respond rules reaction).voice.bpm =
      if reaction = .trigger then performance.voice.bpm + rules.tempoStep
      else performance.voice.bpm := by
  cases reaction with
  | trigger => exact congrArg Voice.bpm (voice_increaseTempo performance rules.tempoStep)
  | bound binding | replay binding => exact bpm_carryOut rules binding performance
  | ignored => rfl

end Performance

/-! ## Sessions -/

namespace Session

theorem start_count (config : Config) (dice : σ) :
    (start config dice).timeline.cursor = config.startTick ∧
      (start config dice).timeline.asked = 1 + if announced config.bpm then 1 else 0 := by
  have hbpm : (Voice.ofConfig config).bpm = config.bpm := rfl
  rw [timeline_start, Timeline.cursor_grantAll, Timeline.asked_grantAll,
    Voice.tempoRequests, hbpm, announced]
  by_cases hsilent : config.bpm ≤ 0.0 <;>
    simp [hsilent, Request.isNote, Timeline.startingAt, Timeline.asked]

theorem memory_start (config : Config) (dice : σ) :
    (start config dice).memory = Memory.empty.observeAll [] := rfl

theorem react_memory_of_eq {session : Session σ} {before : List Char}
    (h : session.memory = Memory.empty.observeAll before) (c : Char) :
    session.memory.react c = (Turn.behind before c).reaction := by
  rw [h]
  rfl

variable [Dice σ]

theorem memory_feed_of_eq {session : Session σ} {before : List Char}
    (h : session.memory = Memory.empty.observeAll before) (c : Char) :
    (session.feed c).memory = Memory.empty.observeAll (before ++ [c]) := by
  rw [Memory.observeAll_append, ← h]
  rfl

/-- What one more character adds to the cursor and to the events asked for. -/
theorem feed_count (session : Session σ) {rules : Rules}
    (hrules : session.config.rules = rules) {before : List Char}
    (hmemory : session.memory = Memory.empty.observeAll before) (c : Char) :
    let turn := Turn.behind before c
    let notes := if turn.takesTime rules.restPolicy then 1 else 0
    (session.feed c).timeline.cursor = session.timeline.cursor + 4 * notes ∧
      (session.feed c).timeline.asked = session.timeline.asked + 2 * notes +
        (if turn.changesInstrument then 1 else 0) +
        (if rules.variant = .rich then 2 * (if turn.repeatsNothing then 1 else 0)
          else 0) +
        if turn.raisesTempo && announced (session.voice.bpm + rules.tempoStep)
          then 1 else 0 := by
  intro turn notes
  obtain ⟨hnotes, hlength⟩ := session.voice.requests_count rules
    (Turn.coherent_behind before c) session.performance.dice
  have htimeline : (session.feed c).timeline = session.timeline.grantAll
      (session.voice.requests rules session.performance.dice turn.reaction) := by
    rw [timeline, feed, Performance.timeline_respond, hrules, react_memory_of_eq hmemory]
    rfl
  rw [htimeline, Timeline.cursor_grantAll, Timeline.asked_grantAll, hnotes, hlength]
  refine ⟨rfl, ?_⟩
  dsimp only [turn, notes]
  omega

theorem bpm_feed (session : Session σ) {rules : Rules}
    (hrules : session.config.rules = rules) {before : List Char}
    (hmemory : session.memory = Memory.empty.observeAll before) (c : Char) :
    (session.feed c).voice.bpm = if (Turn.behind before c).raisesTempo
      then session.voice.bpm + rules.tempoStep else session.voice.bpm := by
  rw [voice, feed, Performance.bpm_respond, hrules, react_memory_of_eq hmemory,
    Turn.raisesTempo]
  simp only [decide_eq_true_eq]
  rfl

/-- What a text adds, when the session has heard another before it. -/
theorem feedAll_count (session : Session σ) {rules : Rules}
    (hrules : session.config.rules = rules) {before : List Char}
    (hmemory : session.memory = Memory.empty.observeAll before) (text : List Char) :
    let turns := Turn.following before text
    let notes := turns.countP (Turn.takesTime rules.restPolicy)
    (session.feedAll text).timeline.cursor = session.timeline.cursor + 4 * notes ∧
      (session.feedAll text).timeline.asked = session.timeline.asked + 2 * notes +
        turns.countP Turn.changesInstrument +
        (if rules.variant = .rich then 2 * turns.countP Turn.repeatsNothing else 0) +
        (raisedTempos rules.tempoStep session.voice.bpm
          (turns.countP Turn.raisesTempo)).countP announced := by
  induction text generalizing session before with
  | nil =>
      refine ⟨rfl, ?_⟩
      cases rules.variant <;> rfl
  | cons c rest ih =>
      obtain ⟨hcursor, hasked⟩ := session.feed_count hrules hmemory c
      obtain ⟨hcursorAll, haskedAll⟩ :=
        ih (session.feed c) hrules (memory_feed_of_eq hmemory c)
      have hbpm := session.bpm_feed hrules hmemory c
      have hfeedAll : session.feedAll (c :: rest) = (session.feed c).feedAll rest := rfl
      rw [hfeedAll, hcursorAll, haskedAll, hcursor, hasked, hbpm, Turn.following]
      simp only [List.countP_cons]
      constructor
      · omega
      · cases (Turn.behind before c).raisesTempo with
        | false =>
            simp only [Bool.false_and, Bool.false_eq_true, if_false, Nat.add_zero]
            split_ifs <;> omega
        | true =>
            simp only [Bool.true_and, if_true, raisedTempos, List.countP_cons]
            split_ifs <;> omega

theorem steps_eq (session : Session σ) {before : List Char}
    (hmemory : session.memory = Memory.empty.observeAll before) (text : List Char) :
    session.steps text = (Turn.following before text).map (·.reaction.step) := by
  induction text generalizing session before with
  | nil => rfl
  | cons c rest ih =>
      rw [steps, ih _ (memory_feed_of_eq hmemory c), stepOf, hmemory]
      rfl

theorem cursor_eq (config : Config) (dice : σ) (text : List Char) :
    ((start config dice).feedAll text).timeline.cursor =
      config.startTick +
        4 * (Turn.ofText text).countP (Turn.takesTime config.restPolicy) := by
  have hcursor :=
    ((start config dice).feedAll_count rfl (memory_start config dice) text).1
  rw [(start_count config dice).1] at hcursor
  exact hcursor

theorem asked_eq (config : Config) (dice : σ) (text : List Char) :
    let turns := Turn.ofText text
    ((start config dice).feedAll text).timeline.asked =
      2 * turns.countP (Turn.takesTime config.restPolicy) +
        (1 + turns.countP Turn.changesInstrument +
          if config.variant = .rich then 2 * turns.countP Turn.repeatsNothing else 0) +
        (config.bpm :: raisedTempos config.tempoStep config.bpm
          (turns.countP Turn.raisesTempo)).countP announced := by
  intro turns
  have hasked := ((start config dice).feedAll_count rfl (memory_start config dice) text).2
  have hbpm : (start config dice).voice.bpm = config.bpm :=
    congrArg Voice.bpm (Performance.voice_writeTempo _)
  have hrules : (start config dice).config.rules =
      ⟨config.variant, config.restPolicy, config.tempoStep⟩ := rfl
  rw [(start_count config dice).2, hbpm, hrules] at hasked
  rw [hasked, List.countP_cons]
  dsimp only [turns, Turn.ofText]
  omega

/-- The cursor and the number of events asked for, kept or not, are counted from the
turns of the text.  The cursor and the steps therefore depend on nothing but the text,
the start tick and the policy on rests. -/
theorem cursor_and_events_eq_counts (config : Config) (dice : σ) (text : List Char) :
    let session := (start config dice).feedAll text
    let turns := Turn.ofText text
    let notes := turns.countP (Turn.takesTime config.restPolicy)
    (start config dice).steps text = turns.map (·.reaction.step) ∧
      session.timeline.cursor = config.startTick + 4 * notes ∧
      (∀ {τ : Type} [Dice τ] (other : Config) (otherDice : τ),
        other.startTick = config.startTick → other.restPolicy = config.restPolicy →
        ((start other otherDice).feedAll text).timeline.cursor = session.timeline.cursor ∧
          (start other otherDice).steps text = (start config dice).steps text) ∧
      session.timeline.events.size + session.timeline.dropped =
        2 * notes +
          (1 + turns.countP Turn.changesInstrument +
            if config.variant = .rich then 2 * turns.countP Turn.repeatsNothing else 0) +
          (config.bpm :: raisedTempos config.tempoStep config.bpm
            (turns.countP Turn.raisesTempo)).countP announced := by
  intro session turns notes
  have hsteps := steps_eq _ (memory_start config dice) text
  refine ⟨hsteps, cursor_eq config dice text, ?_, asked_eq config dice text⟩
  intro τ _ other otherDice htick hpolicy
  constructor
  · rw [cursor_eq, htick, hpolicy]
    exact (cursor_eq config dice text).symm
  · rw [hsteps]
    exact steps_eq _ (memory_start other otherDice) text

-- Only the first rest takes no time, and the last vowel stands behind a rest.
example :
    let turns := Turn.ofText [';', 'D', 'x', ';', 'o']
    turns.countP (Turn.takesTime .skip) = 4 ∧
      turns.countP (Turn.takesTime .sentinel) = 5 ∧
      turns.countP Turn.repeatsNothing = 1 := by
  decide

end Session

end TextMusic
