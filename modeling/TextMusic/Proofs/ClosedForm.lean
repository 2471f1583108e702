/-
The voice in closed form.  Its octave and its volume are counted from the actions that
were carried out, whatever their order and whatever came between them, and its tempo from
the triggers in the text.
-/
import Mathlib.Algebra.Group.Nat.Defs
import Mathlib.Data.List.Infix
import TextMusic.Proofs.Course

namespace TextMusic

variable {σ τ : Type}

/-! ## Words in a text -/

/-- How often a word stands in a text. -/
def occurrences (word text : List Char) : Nat :=
  text.tails.countP word.isPrefixOf

theorem occurrences_cons (word text : List Char) (c : Char) :
    occurrences word (c :: text) =
      occurrences word text + if word <+: c :: text then 1 else 0 := by
  simp only [occurrences, List.tails_cons, List.countP_cons, List.isPrefixOf_iff_prefix]

/-- One more character completes the word once more or leaves its occurrences as they
are. -/
theorem occurrences_concat (word text : List Char) (c : Char) :
    occurrences word (text ++ [c]) =
      occurrences word text + if word <:+ text ++ [c] then 1 else 0 := by
  induction text with
  | nil =>
      have hends : word <+: [c] ↔ word <:+ [c] := by
        simp [List.prefix_cons_iff, List.suffix_cons_iff, or_comm]
      rw [List.nil_append, occurrences_cons]
      simp only [hends]
  | cons d rest ih =>
      have hbegins : word <+: (d :: rest) ++ [c] ↔
          word = (d :: rest) ++ [c] ∨ word <+: d :: rest := List.prefix_concat_iff
      have hfinishes : word <:+ d :: (rest ++ [c]) ↔
          word = d :: (rest ++ [c]) ∨ word <:+ rest ++ [c] := List.suffix_cons_iff
      rw [List.cons_append] at hbegins ⊢
      rw [occurrences_cons, occurrences_cons, ih]
      by_cases hwhole : word = d :: (rest ++ [c])
      · -- The whole text is longer than its part before the last character or behind
        -- the first.
        have hlength : word.length = rest.length + 2 := by simp [hwhole]
        have hbefore : ¬ word <+: d :: rest := by
          intro h
          have hle := h.length_le
          rw [List.length_cons] at hle
          omega
        have hbehind : ¬ word <:+ rest ++ [c] := by
          intro h
          have hle := h.length_le
          rw [List.length_append, List.length_singleton] at hle
          omega
        rw [if_neg hbefore, if_neg hbehind, if_pos (hbegins.mpr (.inl hwhole)),
          if_pos (hfinishes.mpr (.inl hwhole))]
      · simp only [hbegins, hfinishes, hwhole, false_or]
        omega

namespace Memory

theorem step_react_eq_trigger_iff (text : List Char) (c : Char) :
    ((empty.observeAll text).react c).step = .trigger ↔
      ['B', 'P', 'M', '+'] <:+ text ++ [c] := by
  rw [step_react_observeAll]
  split_ifs with htrigger
  · exact iff_of_true rfl htrigger
  · refine iff_of_false ?_ htrigger
    cases Action.ofChar? c with
    | some action => exact Step.noConfusion
    | none => cases lastAction? text <;> exact Step.noConfusion

/-- The trigger takes a step wherever its word stands in the text. -/
theorem count_trigger_steps (text : List Char) :
    (empty.steps text).count .trigger = occurrences ['B', 'P', 'M', '+'] text := by
  induction text using List.reverseRecOn with
  | nil => rfl
  | append_singleton text c ih =>
      have hlast : (empty.observeAll text).steps [c] =
          [((empty.observeAll text).react c).step] := rfl
      rw [steps_append, List.count_append, ih, occurrences_concat, hlast,
        List.count_singleton]
      simp only [beq_iff_eq, step_react_eq_trigger_iff]

end Memory

/-! ## The actions of some steps -/

namespace Step

/-- The action that a step has carried out, if it has carried one out. -/
def action? : Step → Option Action
  | bound action | replay action => some action
  | trigger | ignored => none

/-- The actions that steps have carried out, in order. -/
def actions (steps : List Step) : List Action :=
  steps.filterMap Step.action?

theorem actions_append (first second : List Step) :
    actions (first ++ second) = actions first ++ actions second :=
  List.filterMap_append

end Step

/-- Whether an action changes the octave or the volume. -/
def Action.tunes : Action → Bool
  | increaseOctave | decreaseOctave | doubleVolume => true
  | newNote | repeatNote | randomNote | newInstrument | rest => false

theorem Action.count_eq_of_perm {actions others : List Action}
    (h : (others.filter tunes).Perm (actions.filter tunes)) {action : Action}
    (htunes : action.tunes = true) : others.count action = actions.count action := by
  rw [← List.count_filter htunes, h.count_eq, List.count_filter htunes]

/-! ## Voices -/

namespace Voice

/-- The octave behind some actions: so many steps up, and around. -/
def octaveAfter (actions : List Action) : Int :=
  -1 + ((actions.count .increaseOctave : Int) - actions.count .decreaseOctave) % 11

/-- The volume behind some actions.  The first doubling also brings down what is too
loud. -/
def volumeAfter (volume : UInt8) (actions : List Action) : Nat :=
  let doublings := actions.count .doubleVolume
  if doublings = 0 then volume.toNat else min (volume.toNat * 2 ^ doublings) 127

theorem octaveAfter_bounds (actions : List Action) :
    -1 ≤ octaveAfter actions ∧ octaveAfter actions ≤ 9 := by
  unfold octaveAfter
  omega

theorem octaveAfter_concat (actions : List Action) (action : Action) :
    octaveAfter (actions ++ [action]) =
      match action with
      | .increaseOctave =>
          if octaveAfter actions + 1 > 9 then -1 else octaveAfter actions + 1
      | .decreaseOctave =>
          if octaveAfter actions - 1 < -1 then 9 else octaveAfter actions - 1
      | _ => octaveAfter actions := by
  unfold octaveAfter
  rw [List.count_append, List.count_append, List.count_singleton, List.count_singleton]
  cases action with
  | increaseOctave | decreaseOctave =>
      simp only [beq_iff_eq, reduceCtorEq, if_true, if_false]
      omega
  | _ => simp

theorem volumeAfter_concat (volume : UInt8) (actions : List Action) (action : Action) :
    volumeAfter volume (actions ++ [action]) =
      if action = .doubleVolume then min (2 * volumeAfter volume actions) 127
      else volumeAfter volume actions := by
  unfold volumeAfter
  rw [List.count_append, List.count_singleton]
  by_cases haction : action = .doubleVolume
  · have hpower : volume.toNat * 2 ^ (actions.count .doubleVolume + 1) =
        2 * (volume.toNat * 2 ^ actions.count .doubleVolume) := by
      rw [Nat.pow_succ, ← Nat.mul_assoc, Nat.mul_comm]
    simp only [haction, beq_self_eq_true, if_true, hpower, Nat.add_one_ne_zero, if_false]
    split_ifs with hnone
    · rw [hnone, Nat.pow_zero, Nat.mul_one]
    · omega
  · simp [haction]

example : octaveAfter [.decreaseOctave] = 9 ∧ volumeAfter 200 [.increaseOctave] = 200 ∧
    volumeAfter 200 [.doubleVolume] = 127 := by
  decide

/-- A voice that has come from its configuration by some actions and some triggers. -/
structure LedBy (config : Config) (actions : List Action) (triggers : Nat)
    (voice : Voice) : Prop where
  octave : voice.octave = octaveAfter actions
  volume : voice.volume.toNat = volumeAfter config.volume actions
  channel : voice.channel = config.channel
  bpm : voice.bpm = (· + config.tempoStep)^[triggers] config.bpm

theorem toNat_volume_doubleVolume (voice : Voice) :
    voice.doubleVolume.volume.toNat = min (2 * voice.volume.toNat) 127 := by
  have hloudest : loudest.toNat = 127 := rfl
  rw [doubleVolume, hloudest, UInt8.toNat_ofNat']
  omega

namespace LedBy

variable {config : Config} {actions : List Action} {triggers : Nat} {voice : Voice}

theorem ofConfig (config : Config) : (Voice.ofConfig config).LedBy config [] 0 :=
  ⟨rfl, rfl, rfl, rfl⟩

theorem setInstrument (h : voice.LedBy config actions triggers) (instrument : UInt8) :
    { voice with instrument := instrument }.LedBy config actions triggers :=
  ⟨h.octave, h.volume, h.channel, h.bpm⟩

theorem behind [Dice σ] (h : voice.LedBy config actions triggers) (rules : Rules)
    (dice : σ) (action : Action) :
    (voice.behind rules dice action).LedBy config (actions ++ [action]) triggers := by
  have hvolume := volumeAfter_concat config.volume actions action
  have hoctave := octaveAfter_concat actions action
  rw [← h.octave] at hoctave
  rw [← h.volume] at hvolume
  cases action with
  | doubleVolume =>
      exact ⟨hoctave.symm, (toNat_volume_doubleVolume voice).trans hvolume.symm,
        h.channel, h.bpm⟩
  | _ => exact ⟨hoctave.symm, hvolume.symm, h.channel, h.bpm⟩

theorem trigger (h : voice.LedBy config actions triggers) :
    { voice with bpm := voice.bpm + config.tempoStep }.LedBy config actions
      (triggers + 1) := by
  refine ⟨h.octave, h.volume, h.channel, ?_⟩
  rw [Function.iterate_succ_apply', ← h.bpm]

end LedBy

end Voice

/-! ## Sessions -/

namespace Session

/-- A session whose voice has come from its configuration by some steps. -/
structure LedBy (config : Config) (steps : List Step) (session : Session σ) : Prop where
  rules : session.config.rules = config.rules
  voice : session.voice.LedBy config (Step.actions steps) (steps.count .trigger)

theorem ledBy_start (config : Config) (dice : σ) :
    (start config dice).LedBy config [] := by
  refine ⟨rfl, ?_⟩
  rw [voice_start]
  exact .ofConfig config

variable [Dice σ] [Dice τ]

section Invariant

variable {I : List Step → Session σ → Prop}

theorem steps_invariant
    (hfeed : ∀ before session c, I before session →
      I (before ++ [session.stepOf c]) (session.feed c))
    {before : List Step} {session : Session σ} (h : I before session) (text : List Char) :
    I (before ++ session.steps text) (session.feedAll text) := by
  induction text generalizing before session with
  | nil => rwa [steps, List.append_nil]
  | cons c rest ih =>
      have hrest := ih (hfeed before session c h)
      rwa [List.append_assoc] at hrest

/-- What every character and every set instrument keeps, with the steps taken so far, a
run keeps. -/
theorem runSteps_invariant
    (hfeed : ∀ before session c, I before session →
      I (before ++ [session.stepOf c]) (session.feed c))
    (hset : ∀ before session instrument, I before session →
      I before (session.setInstrument instrument))
    {before : List Step} {session : Session σ} (h : I before session)
    (operations : List Operation) :
    I (before ++ session.runSteps operations) (session.performAll operations) := by
  induction operations generalizing before session with
  | nil => rwa [runSteps, List.append_nil]
  | cons operation rest ih =>
      have hperform : I (before ++ session.steps operation.characters)
          (session.perform operation) := by
        cases operation with
        | feed c => exact hfeed before session c h
        | feedText text => exact steps_invariant hfeed h text
        | setInstrument instrument =>
            rw [Operation.characters, steps, List.append_nil]
            exact hset before session instrument h
        | readFrom source => exact steps_invariant hfeed h _
      rw [runSteps, ← List.append_assoc]
      exact ih hperform

end Invariant

theorem LedBy.feed {config : Config} {steps : List Step} {session : Session σ}
    (h : session.LedBy config steps) (c : Char) :
    (session.feed c).LedBy config (steps ++ [session.stepOf c]) := by
  refine ⟨h.rules, ?_⟩
  have hvoice : (session.feed c).voice = session.voice.after config.rules
      session.performance.dice (session.memory.react c) := by
    rw [← h.rules]
    exact Performance.voice_respond _ session.performance _
  rw [hvoice, stepOf, Step.actions_append, List.count_append]
  cases session.memory.react c with
  | trigger =>
      have hnone : Step.actions steps ++ Step.actions [.trigger] = Step.actions steps :=
        List.append_nil _
      rw [Reaction.step, hnone]
      exact h.voice.trigger
  | bound binding | replay binding =>
      exact h.voice.behind config.rules session.performance.dice binding.action
  | ignored =>
      have hnone : Step.actions steps ++ Step.actions [.ignored] = Step.actions steps :=
        List.append_nil _
      rw [Reaction.step, hnone]
      exact h.voice

theorem ledBy_performAll (config : Config) (dice : σ) (operations : List Operation) :
    ((start config dice).performAll operations).LedBy config
      ((start config dice).runSteps operations) := by
  refine runSteps_invariant (I := LedBy config) ?_ ?_ (ledBy_start config dice) operations
  · intro before session c h
    exact h.feed c
  · intro before session instrument h
    exact ⟨h.rules, h.voice.setInstrument instrument⟩

/-- The octave has gone around by as many steps upwards as were taken more than downwards,
the volume has been doubled up to the loudest, the channel has stayed, and each trigger in
the text has raised the tempo once.  Octave and volume depend neither on the order of the
actions nor on any other action. -/
theorem voice_eq_counts (config : Config) (dice : σ) (operations : List Operation) :
    let opened := start config dice
    let actions := Step.actions (opened.runSteps operations)
    let text := operations.flatMap Operation.characters
    let voice := (opened.performAll operations).voice
    let doublings := actions.count .doubleVolume
    voice.octave = -1 +
        ((actions.count .increaseOctave : Int) - actions.count .decreaseOctave) % 11 ∧
      (-1 ≤ voice.octave ∧ voice.octave ≤ 9) ∧
      voice.volume.toNat = (if doublings = 0 then config.volume.toNat
        else min (config.volume.toNat * 2 ^ doublings) 127) ∧
      voice.channel = config.channel ∧
      voice.bpm =
        (· + config.tempoStep)^[occurrences ['B', 'P', 'M', '+'] text] config.bpm ∧
      ∀ (other : Config) (otherDice : τ) (otherOperations : List Operation),
        let otherOpened := start other otherDice
        let otherActions := Step.actions (otherOpened.runSteps otherOperations)
        let otherVoice := (otherOpened.performAll otherOperations).voice
        (otherActions.filter Action.tunes).Perm (actions.filter Action.tunes) →
          otherVoice.octave = voice.octave ∧
            (other.volume = config.volume → otherVoice.volume = voice.volume) := by
  intro opened actions text voice doublings
  obtain ⟨-, hoctave, hvolume, hchannel, hbpm⟩ := ledBy_performAll config dice operations
  have htriggers : (opened.runSteps operations).count .trigger =
      occurrences ['B', 'P', 'M', '+'] text := by
    rw [runSteps_eq_memory]
    exact Memory.count_trigger_steps text
  refine ⟨hoctave, ?_, hvolume, hchannel, ?_, ?_⟩
  · change -1 ≤ (opened.performAll operations).voice.octave ∧ _
    rw [hoctave]
    exact Voice.octaveAfter_bounds actions
  · rw [← htriggers]
    exact hbpm
  · intro other otherDice otherOperations otherOpened otherActions otherVoice hperm
    obtain ⟨-, hotherOctave, hotherVolume, -, -⟩ :=
      ledBy_performAll other otherDice otherOperations
    constructor
    · rw [hoctave, hotherOctave, Voice.octaveAfter, Voice.octaveAfter,
        Action.count_eq_of_perm hperm rfl, Action.count_eq_of_perm hperm rfl]
    · intro hconfigured
      rw [← UInt8.toNat_inj, hvolume, hotherVolume, hconfigured, Voice.volumeAfter,
        Voice.volumeAfter, Action.count_eq_of_perm hperm rfl]

end Session

end TextMusic
