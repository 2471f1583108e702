/-
The course of a performance, apart from its timeline.  The steps come from the memory
alone, and the voice and the dice go on from themselves and from what each character
stands for.  Sessions that are set up differently can therefore be led side by side.
-/
import TextMusic.Proofs.Asked

namespace TextMusic

variable {σ τ : Type}

/-! ## Steps -/

/-- The steps of a text behind a memory. -/
def Memory.steps : Memory → List Char → List Step
  | _, [] => []
  | memory, c :: rest => (memory.react c).step :: steps (memory.observe c) rest

theorem Memory.steps_append (memory : Memory) (first second : List Char) :
    memory.steps (first ++ second) =
      memory.steps first ++ (memory.observeAll first).steps second := by
  induction first generalizing memory with
  | nil => rfl
  | cons c rest ih =>
      rw [List.cons_append, steps, steps, ih (memory.observe c)]
      rfl

namespace Session

variable [Dice σ]

/-- The steps of all characters that operations feed. -/
def runSteps : Session σ → List Operation → List Step
  | _, [] => []
  | session, operation :: rest =>
      session.steps operation.characters ++ runSteps (session.perform operation) rest

/-- What becomes of a text does not depend on the performance. -/
theorem steps_eq_memory (session : Session σ) (text : List Char) :
    session.steps text = session.memory.steps text := by
  induction text generalizing session with
  | nil => rfl
  | cons c rest ih =>
      rw [steps, ih (session.feed c)]
      rfl

theorem runSteps_eq_memory (session : Session σ) (operations : List Operation) :
    session.runSteps operations =
      session.memory.steps (operations.flatMap Operation.characters) := by
  induction operations generalizing session with
  | nil => rfl
  | cons operation rest ih =>
      have hmemory := memory_performAll session [operation]
      rw [List.flatMap_singleton] at hmemory
      change (session.perform operation).memory = _ at hmemory
      rw [runSteps, ih (session.perform operation), steps_eq_memory, List.flatMap_cons,
        Memory.steps_append, hmemory]

end Session

/-! ## The voice and the dice -/

/-- The action that is carried out, if one is. -/
def Reaction.action? (reaction : Reaction) : Option Action :=
  reaction.binding?.map Binding.action

/-- A reaction carries out an action only if a character so far is bound to it. -/
theorem Memory.exists_of_action? {before : List Char} {c : Char} {action : Action}
    (h : ((empty.observeAll before).react c).action? = some action) :
    ∃ d ∈ before ++ [c], Action.ofChar? d = some action := by
  have hmemo :
      (empty.observeAll before).memo.map Binding.action = lastAction? before := by
    rw [action_memo_observeAll]
    exact Option.or_none
  unfold react at h
  split_ifs at h with htrigger
  · exact absurd h.symm (Option.some_ne_none action)
  · cases hbound : Action.ofChar? c with
    | some other =>
        rw [hbound] at h
        obtain rfl : other = action := Option.some.inj h
        exact ⟨c, List.mem_append_right before List.mem_cons_self, hbound⟩
    | none =>
        rw [hbound] at h
        have hlast : lastAction? before = some action := by
          rw [← hmemo]
          cases hbinding : (empty.observeAll before).memo with
          | some binding => rwa [hbinding] at h
          | none =>
              rw [hbinding] at h
              exact absurd h.symm (Option.some_ne_none action)
        rw [lastAction?, List.findSomeRev?_eq_findSome?_reverse] at hlast
        obtain ⟨d, hd, hdbound⟩ := List.exists_of_findSome?_eq_some hlast
        exact ⟨d, List.mem_append_left [c] (List.mem_reverse.mp hd), hdbound⟩

namespace Performance

@[simp] theorem dice_writeTempo (performance : Performance σ) :
    performance.writeTempo.dice = performance.dice := by
  unfold writeTempo
  split <;> rfl

@[simp] theorem dice_playLetter (performance : Performance σ) (letter : Char) :
    (performance.playLetter letter).dice = performance.dice := by
  unfold playLetter
  split <;> rfl

@[simp] theorem dice_repeatNote (rules : Rules) (binding : Binding)
    (performance : Performance σ) :
    (performance.repeatNote rules binding).dice = performance.dice := by
  unfold repeatNote
  split_ifs
  · rfl
  · cases rules.variant <;> rfl

@[simp] theorem dice_rest (rules : Rules) (binding : Binding)
    (performance : Performance σ) :
    (performance.rest rules binding).dice = performance.dice := by
  unfold rest
  split <;> rfl

end Performance

section

variable [Dice σ]

/-- The voice behind an action. -/
def Voice.behind (rules : Rules) (voice : Voice) (dice : σ) : Action → Voice
  | .doubleVolume => voice.doubleVolume
  | .increaseOctave => voice.increaseOctave
  | .decreaseOctave => voice.decreaseOctave
  | .newInstrument => { voice with instrument := voice.nextInstrument rules dice }
  | .newNote | .repeatNote | .randomNote | .rest => voice

/-- The voice behind a reaction. -/
def Voice.after (rules : Rules) (voice : Voice) (dice : σ) : Reaction → Voice
  | .trigger => { voice with bpm := voice.bpm + rules.tempoStep }
  | .bound binding | .replay binding => voice.behind rules dice binding.action
  | .ignored => voice

/-- The dice behind an action.  A random note takes a draw, and in the rich variant a new
instrument does. -/
def Action.roll (rules : Rules) (dice : σ) : Action → σ
  | .randomNote => (Dice.letter dice).2
  | .newInstrument =>
      match rules.variant with
      | .rich => (Dice.program dice).2
      | .plain => dice
  | .newNote | .doubleVolume | .increaseOctave | .decreaseOctave | .repeatNote | .rest =>
      dice

/-- The dice behind a reaction. -/
def Reaction.roll (rules : Rules) (dice : σ) (reaction : Reaction) : σ :=
  (reaction.action?.map (Action.roll rules dice)).getD dice

namespace Performance

theorem voice_respond (rules : Rules) (performance : Performance σ)
    (reaction : Reaction) :
    (performance.respond rules reaction).voice =
      performance.voice.after rules performance.dice reaction := by
  cases reaction with
  | trigger => exact voice_increaseTempo performance rules.tempoStep
  | bound binding | replay binding =>
      rw [respond, voice_carryOut, Voice.after]
      cases binding.action <;> rfl
  | ignored => rfl

theorem dice_carryOut (rules : Rules) (binding : Binding) (performance : Performance σ) :
    (performance.carryOut rules binding).dice =
      binding.action.roll rules performance.dice := by
  unfold carryOut
  cases binding.action with
  | newNote => exact dice_playLetter performance binding.character
  | doubleVolume | increaseOctave | decreaseOctave => rfl
  | repeatNote => exact dice_repeatNote rules binding performance
  | randomNote => exact dice_playLetter _ _
  | newInstrument =>
      dsimp only
      unfold newInstrument Action.roll
      cases rules.variant <;> rfl
  | rest => exact dice_rest rules binding performance

/-- Nothing but draws touches the dice. -/
theorem dice_respond (rules : Rules) (performance : Performance σ) (reaction : Reaction) :
    (performance.respond rules reaction).dice = reaction.roll rules performance.dice := by
  cases reaction with
  | trigger => exact dice_writeTempo _
  | bound binding | replay binding => exact dice_carryOut rules binding performance
  | ignored => rfl

end Performance

end

namespace Session

/-- A session opens with the voice of its configuration. -/
theorem voice_start (config : Config) (dice : σ) :
    (start config dice).voice = Voice.ofConfig config := by
  change { (Performance.writeTempo _).voice with instrument := config.instrument } = _
  rw [Performance.voice_writeTempo]
  rfl

theorem dice_start (config : Config) (dice : σ) :
    (start config dice).performance.dice = dice :=
  Performance.dice_writeTempo _

variable [Dice σ]

theorem config_feedAll (session : Session σ) (text : List Char) :
    (session.feedAll text).config = session.config := by
  induction text generalizing session with
  | nil => rfl
  | cons c rest ih => exact ih (session.feed c)

/-- What a character does behind a text. -/
theorem performance_feedAll_append (config : Config) (dice : σ) (before : List Char)
    (c : Char) :
    ((start config dice).feedAll (before ++ [c])).performance =
      ((start config dice).feedAll before).performance.respond config.rules
        ((Memory.empty.observeAll before).react c) := by
  have hconfig : ((start config dice).feedAll before).config = config :=
    config_feedAll _ before
  have hmemory :
      ((start config dice).feedAll before).memory = Memory.empty.observeAll before :=
    memory_feedAll _ before
  rw [feedAll, List.foldl_append, ← hmemory]
  change (((start config dice).feedAll before).feed c).performance = _
  rw [feed, hconfig]

end Session

/-! ## Side by side -/

namespace Session

variable [Dice σ] [Dice τ] {R : Session σ → Session τ → Prop}

/-- What every character keeps of a pair of sessions, a text keeps. -/
theorem feedAll_twins
    (hfeed : ∀ session twin c, R session twin → R (session.feed c) (twin.feed c))
    {session : Session σ} {twin : Session τ} (h : R session twin) (text : List Char) :
    R (session.feedAll text) (twin.feedAll text) := by
  induction text generalizing session twin with
  | nil => exact h
  | cons c rest ih => exact ih (hfeed session twin c h)

/-- What every character and every set instrument keeps of a pair of sessions, a run
keeps. -/
theorem performAll_twins
    (hfeed : ∀ session twin c, R session twin → R (session.feed c) (twin.feed c))
    (hset : ∀ session twin instrument, R session twin →
      R (session.setInstrument instrument) (twin.setInstrument instrument))
    {session : Session σ} {twin : Session τ} (h : R session twin)
    (operations : List Operation) :
    R (session.performAll operations) (twin.performAll operations) := by
  induction operations generalizing session twin with
  | nil => exact h
  | cons operation rest ih =>
      apply ih
      cases operation with
      | feed c => exact hfeed session twin c h
      | feedText text => exact feedAll_twins hfeed h text
      | setInstrument instrument => exact hset session twin instrument h
      | readFrom source => exact feedAll_twins hfeed h _

end Session

end TextMusic
