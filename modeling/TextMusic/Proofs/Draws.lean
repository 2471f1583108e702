/-
Draws: the dice are thrown by random notes, and in the rich variant by new instruments.
What the dice come to is settled by these throws in their order, and nothing that is
played later from what has been read depends on how a random note fell.
-/
import Mathlib.Data.List.Forall2
import TextMusic.Proofs.Accounting
import TextMusic.Proofs.Music

namespace TextMusic

variable {σ τ : Type}

/-! ## Throws -/

/-- One throw of the dice. -/
inductive Draw where
  | letter
  | program
deriving DecidableEq, Repr

/-- The draws that an action takes. -/
def Action.draws (variant : Variant) : Action → List Draw
  | .randomNote => [.letter]
  | .newInstrument =>
      match variant with
      | .rich => [.program]
      | .plain => []
  | .newNote | .doubleVolume | .increaseOctave | .decreaseOctave | .repeatNote | .rest =>
      []

/-- The draws of a step; its action takes them whether it is bound or replayed. -/
def Step.draws (variant : Variant) : Step → List Draw
  | .bound action | .replay action => action.draws variant
  | .trigger | .ignored => []

def Step.isRandomNote (step : Step) : Bool :=
  step = .bound .randomNote || step = .replay .randomNote

section

variable [Dice σ]

/-- The dice behind a draw. -/
def Draw.roll (dice : σ) : Draw → σ
  | letter => (Dice.letter dice).2
  | program => (Dice.program dice).2

/-- The dice behind several draws. -/
def Draw.rollAll (dice : σ) (draws : List Draw) : σ :=
  draws.foldl roll dice

/-- The letters among the outcomes of several draws. -/
def Draw.letters : σ → List Draw → List Char
  | _, [] => []
  | dice, .letter :: rest =>
      noteLetters.get (Dice.letter dice).1 :: letters (Dice.letter dice).2 rest
  | dice, .program :: rest => letters (Dice.program dice).2 rest

namespace Draw

theorem rollAll_append (dice : σ) (first second : List Draw) :
    rollAll dice (first ++ second) = rollAll (rollAll dice first) second :=
  List.foldl_append

theorem letters_append (dice : σ) (first second : List Draw) :
    letters dice (first ++ second) =
      letters dice first ++ letters (rollAll dice first) second := by
  induction first generalizing dice with
  | nil => rfl
  | cons draw rest ih =>
      cases draw with
      | letter => exact congrArg (_ :: ·) (ih (Dice.letter dice).2)
      | program => exact ih (Dice.program dice).2

/-- Where only letters are drawn, the fewer of them are the first of the more. -/
theorem letters_replicate_prefix (dice : σ) {few many : Nat} (h : few ≤ many) :
    letters dice (List.replicate few .letter) <+:
      letters dice (List.replicate many .letter) := by
  obtain ⟨more, rfl⟩ := Nat.exists_eq_add_of_le h
  rw [List.replicate_add, letters_append]
  exact List.prefix_append _ _

end Draw

theorem Reaction.roll_eq (rules : Rules) (dice : σ) (reaction : Reaction) :
    reaction.roll rules dice = Draw.rollAll dice (reaction.step.draws rules.variant) := by
  cases reaction with
  | trigger | ignored => rfl
  | bound binding | replay binding =>
      change binding.action.roll rules dice =
        Draw.rollAll dice (binding.action.draws rules.variant)
      obtain ⟨variant, policy, step⟩ := rules
      cases variant <;> cases binding.action <;> rfl

end

/-- In the plain variant every draw is that of a random note. -/
theorem Step.flatMap_draws_plain (steps : List Step) :
    steps.flatMap (draws .plain) =
      List.replicate (steps.countP isRandomNote) .letter := by
  induction steps with
  | nil => rfl
  | cons step rest ih =>
      have hstep : step.draws .plain =
          List.replicate (if step.isRandomNote then 1 else 0) .letter := by
        cases step with
        | trigger | ignored => rfl
        | bound action | replay action => cases action <;> rfl
      rw [List.flatMap_cons, ih, hstep, List.countP_cons,
        ← List.replicate_add, Nat.add_comm]

/-! ## Moments -/

/-- A character and the session that is about to hear it. -/
structure Moment (σ : Type) where
  session : Session σ
  character : Char

namespace Moment

/-- The action that is carried out, if one is. -/
def action? (moment : Moment σ) : Option Action :=
  (moment.session.memory.react moment.character).action?

variable [Dice σ]

/-- The letter that is drawn, if one is. -/
def letter? (moment : Moment σ) : Option Char :=
  if moment.action? = some .randomNote then
    some (noteLetters.get (Dice.letter moment.session.performance.dice).1)
  else none

/-- What is asked for. -/
def requests (moment : Moment σ) : List Request :=
  moment.session.characterRequests moment.character

/-- The notes that are asked for. -/
def notes (moment : Moment σ) : List Request :=
  moment.requests.filter Request.isNote

/-- What is asked for is granted, and nothing else goes into the timeline. -/
theorem timeline_feed (moment : Moment σ) :
    (moment.session.feed moment.character).timeline =
      moment.session.timeline.grantAll moment.requests :=
  moment.session.timeline_feed moment.character

/-- The letter that is drawn is the one that is played. -/
theorem requests_of_letter? {moment : Moment σ} {letter : Char}
    (h : moment.letter? = some letter) :
    moment.requests = moment.session.voice.letterRequests letter := by
  unfold letter? at h
  split_ifs at h with haction
  obtain rfl := Option.some.inj h
  change moment.session.voice.requests _ _
    (moment.session.memory.react moment.character) = _
  unfold action? at haction
  cases hreaction : moment.session.memory.react moment.character with
  | trigger | ignored =>
      rw [hreaction] at haction
      exact absurd haction.symm (Option.some_ne_none Action.randomNote)
  | bound binding | replay binding =>
      rw [hreaction] at haction
      rw [Voice.requests, Voice.bindingRequests, Option.some.inj haction]

end Moment

namespace Session

variable [Dice σ]

/-- The moments of a text. -/
def textMoments : Session σ → List Char → List (Moment σ)
  | _, [] => []
  | session, c :: rest => ⟨session, c⟩ :: textMoments (session.feed c) rest

/-- The moments of all characters that operations feed. -/
def moments : Session σ → List Operation → List (Moment σ)
  | _, [] => []
  | session, operation :: rest =>
      session.textMoments operation.characters ++ moments (session.perform operation) rest

theorem config_perform (session : Session σ) (operation : Operation) :
    (session.perform operation).config = session.config := by
  cases operation with
  | feed c => rfl
  | feedText text => exact config_feedAll session text
  | setInstrument instrument => rfl
  | readFrom source => exact config_feedAll session _

/-! ## The dice of a run -/

theorem dice_feed (session : Session σ) (c : Char) :
    (session.feed c).performance.dice =
      Draw.rollAll session.performance.dice
        ((session.stepOf c).draws session.config.variant) :=
  (Performance.dice_respond _ session.performance _).trans (Reaction.roll_eq _ _ _)

theorem dice_feedAll (session : Session σ) (text : List Char) :
    (session.feedAll text).performance.dice =
      Draw.rollAll session.performance.dice
        ((session.steps text).flatMap (Step.draws session.config.variant)) := by
  induction text generalizing session with
  | nil => rfl
  | cons c rest ih =>
      rw [steps, List.flatMap_cons, Draw.rollAll_append, ← dice_feed]
      exact ih (session.feed c)

theorem dice_perform (session : Session σ) (operation : Operation) :
    (session.perform operation).performance.dice =
      Draw.rollAll session.performance.dice
        ((session.steps operation.characters).flatMap
          (Step.draws session.config.variant)) := by
  cases operation with
  | feed c => exact dice_feedAll session [c]
  | feedText text => exact dice_feedAll session text
  | setInstrument instrument => rfl
  | readFrom source => exact dice_feedAll session _

/-- The dice of a run are settled by its draws. -/
theorem dice_performAll (session : Session σ) (operations : List Operation) :
    (session.performAll operations).performance.dice =
      Draw.rollAll session.performance.dice
        ((session.runSteps operations).flatMap (Step.draws session.config.variant)) := by
  induction operations generalizing session with
  | nil => rfl
  | cons operation rest ih =>
      rw [runSteps, List.flatMap_append, Draw.rollAll_append, ← dice_perform,
        ← config_perform session operation]
      exact ih (session.perform operation)

/-! ## The letters of a run -/

/-- The letters drawn in a run, one for each of its random notes. -/
def lettersDrawn (session : Session σ) (operations : List Operation) : List Char :=
  (session.moments operations).filterMap Moment.letter?

theorem letter?_toList (session : Session σ) (c : Char) :
    (Moment.letter? ⟨session, c⟩).toList =
      Draw.letters session.performance.dice
        ((session.stepOf c).draws session.config.variant) := by
  unfold Moment.letter? Moment.action? stepOf
  cases session.memory.react c with
  | trigger | ignored => rfl
  | bound binding | replay binding =>
      change (if some binding.action = some .randomNote then _ else none).toList =
        Draw.letters _ (binding.action.draws session.config.variant)
      generalize session.config.variant = variant
      cases variant <;> cases binding.action <;> rfl

theorem letters_textMoments (session : Session σ) (text : List Char) :
    (session.textMoments text).filterMap Moment.letter? =
      Draw.letters session.performance.dice
        ((session.steps text).flatMap (Step.draws session.config.variant)) := by
  rw [List.filterMap_eq_flatMap_toList]
  induction text generalizing session with
  | nil => rfl
  | cons c rest ih =>
      rw [steps, List.flatMap_cons, Draw.letters_append, ← dice_feed,
        ← letter?_toList, textMoments, List.flatMap_cons]
      exact congrArg (_ ++ ·) (ih (session.feed c))

theorem lettersDrawn_eq (session : Session σ) (operations : List Operation) :
    session.lettersDrawn operations =
      Draw.letters session.performance.dice
        ((session.runSteps operations).flatMap (Step.draws session.config.variant)) := by
  unfold lettersDrawn
  induction operations generalizing session with
  | nil => rfl
  | cons operation rest ih =>
      rw [moments, List.filterMap_append, letters_textMoments, runSteps,
        List.flatMap_append, Draw.letters_append, ← dice_perform,
        ih (session.perform operation), config_perform]

/-- In the plain variant, runs from the same dice draw the same letters, as far as both
draw. -/
theorem lettersDrawn_plain {session other : Session σ}
    (hdice : other.performance.dice = session.performance.dice)
    (hvariant : session.config.variant = .plain) (hother : other.config.variant = .plain)
    (operations otherOperations : List Operation) :
    session.lettersDrawn operations <+: other.lettersDrawn otherOperations ∨
      other.lettersDrawn otherOperations <+: session.lettersDrawn operations := by
  rw [lettersDrawn_eq, lettersDrawn_eq, hdice, hvariant, hother, Step.flatMap_draws_plain,
    Step.flatMap_draws_plain]
  rcases Nat.le_total ((session.runSteps operations).countP Step.isRandomNote)
    ((other.runSteps otherOperations).countP Step.isRandomNote) with hle | hle
  · exact .inl (Draw.letters_replicate_prefix _ hle)
  · exact .inr (Draw.letters_replicate_prefix _ hle)

/-- What both runs draw as their `k`-th letter is the same letter. -/
theorem lettersDrawn_plain_agree {session other : Session σ}
    (hdice : other.performance.dice = session.performance.dice)
    (hvariant : session.config.variant = .plain) (hother : other.config.variant = .plain)
    {operations otherOperations : List Operation} {k : Nat} {letter otherLetter : Char}
    (hletter : (session.lettersDrawn operations)[k]? = some letter)
    (hotherLetter : (other.lettersDrawn otherOperations)[k]? = some otherLetter) :
    otherLetter = letter := by
  obtain ⟨hlength, rfl⟩ := List.getElem?_eq_some_iff.mp hletter
  obtain ⟨hotherLength, rfl⟩ := List.getElem?_eq_some_iff.mp hotherLetter
  rcases lettersDrawn_plain hdice hvariant hother operations otherOperations with
    hfewer | hmore
  · exact (hfewer.getElem hlength).symm
  · exact hmore.getElem hotherLength

end Session

/-! ## Random notes are not remembered -/

/-- A random note is asked for by a character that names no note itself. -/
theorem Memory.semitone?_eq_none_of_randomNote {memory : Memory} {c : Char}
    (h : (memory.react c).action? = some .randomNote) : semitone? c = none := by
  apply semitone?_eq_none_of_action
  intro hbound
  rw [react, hbound] at h
  split_ifs at h
  · exact absurd h.symm (Option.some_ne_none Action.randomNote)
  · exact absurd (Option.some.inj h) (Action.noConfusion ·)

theorem Request.filter_isNote_congr {requests more : List Request}
    (h : more.filter isMusic = requests.filter isMusic) :
    more.filter isNote = requests.filter isNote := by
  have hnotes (requests : List Request) :
      requests.filter isNote = (requests.filter isMusic).filter isNote := by
    rw [List.filter_filter]
    congr 1
    funext request
    cases request <;> rfl
  rw [hnotes more, h, ← hnotes]

/-- Sessions that have heard the same and whose voices differ by the instrument alone,
whatever has been drawn and played. -/
structure Session.HeardAlike (other : Session τ) (session : Session σ) : Prop where
  rules : other.config.rules = session.config.rules
  memory : other.memory = session.memory
  voice : ∃ instrument, other.voice = session.voice.onInstrument instrument

theorem Session.HeardAlike.setInstrument {other : Session τ} {session : Session σ}
    (h : other.HeardAlike session) (instrument : UInt8) :
    (other.setInstrument instrument).HeardAlike (session.setInstrument instrument) := by
  refine ⟨h.rules, h.memory, instrument, ?_⟩
  obtain ⟨own, hvoice⟩ := h.voice
  change { other.voice with instrument := instrument } = _
  rw [hvoice]
  rfl

variable [Dice σ]

/-- A session that has read a character but not played anything, and goes on with any
dice. -/
def Session.passOver (session : Session σ) (c : Char) (dice : τ) : Session τ where
  config := session.config
  memory := session.memory.observe c
  performance := ⟨session.voice, session.timeline, dice⟩

theorem Session.passOver_heardAlike {session : Session σ} {c : Char}
    (h : (session.memory.react c).action? = some .randomNote) (dice : τ) :
    (session.passOver c dice).HeardAlike (session.feed c) := by
  refine ⟨rfl, rfl, session.voice.instrument, ?_⟩
  change session.voice = Voice.onInstrument _ (session.performance.respond _ _).voice
  rw [Performance.voice_respond]
  cases hreaction : session.memory.react c with
  | trigger | ignored =>
      rw [hreaction] at h
      exact absurd h.symm (Option.some_ne_none Action.randomNote)
  | bound binding | replay binding =>
      rw [hreaction] at h
      rw [Voice.after, Option.some.inj h]
      rfl

variable [Dice τ]

/-- Moments at which the same is known, and at which a repeat or a rest asks for the same
notes. -/
structure Moment.Alike (other : Moment τ) (moment : Moment σ) : Prop where
  character : other.character = moment.character
  memory : other.session.memory = moment.session.memory
  notes : moment.action? = some .repeatNote ∨ moment.action? = some .rest →
    other.notes = moment.notes

namespace Session.HeardAlike

variable {other : Session τ} {session : Session σ}

theorem feed (h : other.HeardAlike session) (c : Char) :
    (other.feed c).HeardAlike (session.feed c) := by
  refine ⟨h.rules, congrArg (Memory.observe · c) h.memory, ?_⟩
  obtain ⟨instrument, hvoice⟩ := h.voice
  have hafter := Voice.after_onInstrument (congrArg Rules.tempoStep h.rules)
    session.performance.dice other.performance.dice (session.memory.react c) session.voice
    instrument
  rw [← hvoice] at hafter
  change ∃ next, (other.performance.respond _ (other.memory.react c)).voice =
    (session.performance.respond _ (session.memory.react c)).voice.onInstrument next
  rw [Performance.voice_respond, Performance.voice_respond, h.memory]
  exact hafter

/-- What is not left to the dice is asked for alike. -/
theorem moment (h : other.HeardAlike session) (c : Char) :
    Moment.Alike ⟨other, c⟩ ⟨session, c⟩ := by
  refine ⟨rfl, h.memory, ?_⟩
  intro haction
  have hnotRandom : (session.memory.react c).action? ≠ some .randomNote := by
    intro hrandom
    rw [Moment.action?, hrandom] at haction
    rcases haction with hrepeat | hrest
    · exact absurd (Option.some.inj hrepeat) (Action.noConfusion ·)
    · exact absurd (Option.some.inj hrest) (Action.noConfusion ·)
  obtain ⟨instrument, hvoice⟩ := h.voice
  apply Request.filter_isNote_congr
  change (other.voice.requests _ _ (other.memory.react c)).filter Request.isMusic = _
  rw [hvoice, h.memory]
  exact Voice.filter_isMusic_requests (congrArg Rules.restPolicy h.rules)
    (congrArg Rules.tempoStep h.rules)
    (fun hrandom => absurd hrandom hnotRandom) session.voice instrument

theorem textMoments (h : other.HeardAlike session) (text : List Char) :
    List.Forall₂ Moment.Alike (other.textMoments text) (session.textMoments text) := by
  induction text generalizing other session with
  | nil => exact .nil
  | cons c rest ih => exact .cons (h.moment c) (ih (h.feed c))

theorem feedAll (h : other.HeardAlike session) (text : List Char) :
    (other.feedAll text).HeardAlike (session.feedAll text) :=
  feedAll_twins (R := fun other session => other.HeardAlike session)
    (fun _ _ c h => h.feed c) h text

theorem perform (h : other.HeardAlike session) (operation : Operation) :
    (other.perform operation).HeardAlike (session.perform operation) := by
  cases operation with
  | feed c => exact h.feed c
  | feedText text => exact h.feedAll text
  | setInstrument instrument => exact h.setInstrument instrument
  | readFrom source => exact h.feedAll _

theorem moments (h : other.HeardAlike session) (operations : List Operation) :
    List.Forall₂ Moment.Alike (other.moments operations)
      (session.moments operations) := by
  induction operations generalizing other session with
  | nil => exact .nil
  | cons operation rest ih =>
      exact List.rel_append (h.textMoments operation.characters)
        (ih (h.perform operation))

end Session.HeardAlike

namespace Session

/-- The dice behind a run are those behind its draws: one letter for each random note that
is carried out, and in the rich variant one program for each new instrument.  The timeline
takes what is asked for at each moment, which for a random note is the note of the letter
drawn.  In the plain variant the letters that two runs draw from the same dice are the
same as far as both go.  A random note leaves the known pitch as it is, and what repeats
and rests play from then on is what they play where nothing has been drawn or played in
its place. -/
theorem dice_settled_by_draws (config : Config) (dice : σ) (operations : List Operation) :
    let opened := start config dice
    let session := opened.performAll operations
    let draws := (opened.runSteps operations).flatMap (Step.draws config.variant)
    session.performance.dice = Draw.rollAll dice draws ∧
      opened.lettersDrawn operations = Draw.letters dice draws ∧
      (∀ {τ : Type} [Dice τ] (moment : Moment τ),
        (moment.session.feed moment.character).timeline =
          moment.session.timeline.grantAll moment.requests) ∧
      (∀ moment ∈ opened.moments operations, ∀ letter, moment.letter? = some letter →
        moment.requests = moment.session.voice.letterRequests letter) ∧
      (∀ (other : Config) (otherOperations : List Operation),
        config.variant = .plain → other.variant = .plain →
        ∀ (k : Nat) (letter otherLetter : Char),
          (opened.lettersDrawn operations)[k]? = some letter →
          ((start other dice).lettersDrawn otherOperations)[k]? = some otherLetter →
          otherLetter = letter) ∧
      ∀ c, (session.memory.react c).action? = some .randomNote →
        (session.feed c).memory.previousPitch = session.memory.previousPitch ∧
        ∀ {τ : Type} [Dice τ] (otherDice : τ) (later : List Operation),
          List.Forall₂ Moment.Alike ((session.passOver c otherDice).moments later)
            ((session.feed c).moments later) := by
  intro opened session draws
  have hdice : opened.performance.dice = dice := dice_start config dice
  refine ⟨?_, ?_, Moment.timeline_feed, ?_, ?_, ?_⟩
  · rw [← hdice]
    exact dice_performAll opened operations
  · rw [← hdice]
    exact lettersDrawn_eq opened operations
  · intro moment _ letter hletter
    exact Moment.requests_of_letter? hletter
  · intro other otherOperations hvariant hother k letter otherLetter hletter hotherLetter
    have hsame : (start other dice).performance.dice = opened.performance.dice :=
      (dice_start other dice).trans hdice.symm
    exact lettersDrawn_plain_agree hsame hvariant hother hletter hotherLetter
  · intro c hrandom
    constructor
    · change (semitone? c).or session.memory.previousPitch = _
      rw [Memory.semitone?_eq_none_of_randomNote hrandom, Option.none_or]
    · intro τ _ otherDice later
      exact (passOver_heardAlike hrandom otherDice).moments later

end Session

end TextMusic
