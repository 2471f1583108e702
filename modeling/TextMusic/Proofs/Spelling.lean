/-
Spelling: of a character only its action and its note matter.  Texts that agree in these,
character by character, and trigger the tempo at the same places are performed alike, be
they written in small letters or in capitals and whatever stands for the unbound
characters.
-/
import Mathlib.Data.List.Forall2
import TextMusic.Proofs.Coherence
import TextMusic.Proofs.Course
import TextMusic.Random.Stream

namespace TextMusic

variable {σ : Type}

/-! ## Characters -/

/-- Characters that are bound alike and name the same note, if they name one. -/
def SameClass (c d : Char) : Prop :=
  Action.ofChar? c = Action.ofChar? d ∧ semitone? c = semitone? d

instance (c d : Char) : Decidable (SameClass c d) :=
  inferInstanceAs (Decidable (_ ∧ _))

/-- Ways to write a character differently: a bound one in small or in capital letters, and
an unbound one as any other. -/
inductive Respelled : Char → Char → Prop where
  | same (c : Char) : Respelled c c
  | upper {c : Char} {action : Action} (hbound : Action.ofChar? c = some action) :
      Respelled c c.toUpper
  | lower {c : Char} {action : Action} (hbound : Action.ofChar? c = some action) :
      Respelled c c.toLower
  | unbound {c d : Char} (hc : Action.ofChar? c = none) (hd : Action.ofChar? d = none) :
      Respelled c d

/-- The characters of the table. -/
def boundCharacters : List Char :=
  ['A', 'B', 'C', 'D', 'E', 'F', 'G', 'H', 'a', 'b', 'c', 'd', 'e', 'f', 'g', 'h',
    'O', 'o', 'I', 'i', 'U', 'u', ' ', '+', '-', '?', '\n', ';']

theorem mem_boundCharacters {c : Char} {action : Action}
    (h : Action.ofChar? c = some action) :
    c ∈ boundCharacters := by
  unfold Action.ofChar? at h
  simp only [boundCharacters, List.mem_cons]
  grind

theorem Respelled.sameClass {c d : Char} (h : Respelled c d) : SameClass c d := by
  cases h with
  | same => exact ⟨rfl, rfl⟩
  | upper hbound =>
      have hcase : boundCharacters.all (fun c => SameClass c c.toUpper) = true := by
        decide
      exact of_decide_eq_true (List.all_eq_true.mp hcase c (mem_boundCharacters hbound))
  | lower hbound =>
      have hcase : boundCharacters.all (fun c => SameClass c c.toLower) = true := by
        decide
      exact of_decide_eq_true (List.all_eq_true.mp hcase c (mem_boundCharacters hbound))
  | unbound hc hd =>
      have hunnamed : ∀ c, Action.ofChar? c = none → semitone? c = none := by
        intro c hnone
        apply semitone?_eq_none_of_action
        rw [hnone]
        exact (Option.some_ne_none _).symm
      exact ⟨hc.trans hd.symm, (hunnamed c hc).trans (hunnamed d hd).symm⟩

theorem SameClass.isNoteLetter_eq {c d : Char} (h : SameClass c d) :
    isNoteLetter c = isNoteLetter d :=
  congrArg Option.isSome h.2

/-! ## Memories -/

/-- Bindings with the same action that hold characters of the same classes. -/
structure Binding.Alike (binding twin : Binding) : Prop where
  action : binding.action = twin.action
  character : SameClass binding.character twin.character
  previousCharacter : SameClass binding.previousCharacter twin.previousCharacter
  previousPitch : binding.previousPitch = twin.previousPitch

/-- Reactions of one kind to bindings that are alike. -/
inductive Reaction.Alike : Reaction → Reaction → Prop where
  | trigger : Alike .trigger .trigger
  | bound {binding twin : Binding} (h : binding.Alike twin) :
      Alike (.bound binding) (.bound twin)
  | replay {binding twin : Binding} (h : binding.Alike twin) :
      Alike (.replay binding) (.replay twin)
  | ignored : Alike .ignored .ignored

theorem Reaction.Alike.step_eq {reaction twin : Reaction} (h : reaction.Alike twin) :
    reaction.step = twin.step := by
  cases h with
  | trigger | ignored => rfl
  | bound h => exact congrArg Step.bound h.action
  | replay h => exact congrArg Step.replay h.action

/-- Memories of characters of the same classes.  Their windows may show different
characters. -/
structure Memory.Alike (memory twin : Memory) : Prop where
  previousCharacter : SameClass memory.previousCharacter twin.previousCharacter
  previousPitch : memory.previousPitch = twin.previousPitch
  memo : Option.Rel Binding.Alike memory.memo twin.memo

namespace Memory

theorem alike_empty : empty.Alike empty :=
  ⟨⟨rfl, rfl⟩, rfl, .none⟩

section Alike

variable {memory twin : Memory} {c d : Char}

theorem Alike.bind (h : memory.Alike twin) (hclass : SameClass c d) (action : Action) :
    (memory.bind action c).Alike (twin.bind action d) :=
  ⟨rfl, hclass, h.previousCharacter, h.previousPitch⟩

theorem Alike.observe (h : memory.Alike twin) (hclass : SameClass c d) :
    (memory.observe c).Alike (twin.observe d) := by
  refine ⟨hclass, ?_, ?_⟩
  · rw [Memory.observe, Memory.observe, hclass.2, h.previousPitch]
  · rw [Memory.observe, Memory.observe, hclass.1]
    cases Action.ofChar? d with
    | none => exact h.memo
    | some action => exact .some (h.bind hclass action)

/-- Where both characters complete the trigger or neither does, they stand for the
same. -/
theorem Alike.react (h : memory.Alike twin) (hclass : SameClass c d)
    (htrigger : memory.window.push c = Window.trigger ↔
      twin.window.push d = Window.trigger) :
    (memory.react c).Alike (twin.react d) := by
  unfold Memory.react
  by_cases hcompletes : twin.window.push d = Window.trigger
  · rw [if_pos hcompletes, if_pos (htrigger.mpr hcompletes)]
    exact .trigger
  · rw [if_neg hcompletes, if_neg (mt htrigger.mp hcompletes), hclass.1]
    cases Action.ofChar? d with
    | some action => exact .bound (h.bind hclass action)
    | none =>
        have hmemo := h.memo
        generalize memory.memo = memo at hmemo
        generalize twin.memo = twinMemo at hmemo
        cases hmemo with
        | none => exact .ignored
        | some h => exact .replay h

end Alike

theorem window_eq_trigger_iff (text : List Char) :
    (empty.observeAll text).window = Window.trigger ↔ ['B', 'P', 'M', '+'] <:+ text := by
  cases text using List.reverseRecOn with
  | nil => decide
  | append_singleton text c =>
      rw [observeAll_append]
      exact push_window_eq_trigger_iff text c

end Memory

/-! ## Performances -/

namespace Performance

variable [Dice σ]

/-- Carrying out a binding looks at nothing but the classes of its characters. -/
theorem carryOut_eq_of_alike {binding twin : Binding} (h : binding.Alike twin)
    (rules : Rules) (performance : Performance σ) :
    performance.carryOut rules binding = performance.carryOut rules twin := by
  unfold carryOut
  rw [h.action]
  cases twin.action with
  | newNote =>
      dsimp only
      rw [playLetter, playLetter, h.character.2]
  | repeatNote =>
      dsimp only
      rw [repeatNote, repeatNote, h.previousCharacter.isNoteLetter_eq, h.previousPitch]
  | rest =>
      dsimp only
      rw [rest, rest, restSemitone?, restSemitone?, h.previousPitch]
  | doubleVolume | increaseOctave | decreaseOctave | randomNote | newInstrument => rfl

theorem respond_eq_of_alike {reaction twin : Reaction} (h : reaction.Alike twin)
    (rules : Rules) (performance : Performance σ) :
    performance.respond rules reaction = performance.respond rules twin := by
  cases h with
  | trigger | ignored => rfl
  | bound h | replay h => exact carryOut_eq_of_alike h rules performance

end Performance

/-! ## Texts -/

/-- Texts that complete the tempo trigger at the same places. -/
def SameTriggers (text other : List Char) : Prop :=
  ∀ n ≤ text.length,
    ['B', 'P', 'M', '+'] <:+ text.take n ↔ ['B', 'P', 'M', '+'] <:+ other.take n

instance (text other : List Char) : Decidable (SameTriggers text other) :=
  inferInstanceAs (Decidable (∀ n ≤ text.length, _))

-- The trigger takes capitals.
example : ¬ SameTriggers ['B', 'P', 'M', '+'] ['b', 'p', 'm', '+'] := by
  decide

theorem SameTriggers.take {text other : List Char} (h : SameTriggers text other)
    (m : Nat) :
    SameTriggers (text.take m) (other.take m) := by
  intro n hn
  rw [List.length_take] at hn
  rw [List.take_take, List.take_take]
  exact h (min n m) (by omega)

namespace Session

/-- Sessions with the same performance that have heard characters of the same classes. -/
structure Alike (session twin : Session σ) : Prop where
  config : session.config = twin.config
  memory : session.memory.Alike twin.memory
  performance : session.performance = twin.performance

section Alike

variable [Dice σ] {session twin : Session σ}

theorem Alike.feed (h : session.Alike twin) {c d : Char} (hclass : SameClass c d)
    (htrigger : session.memory.window.push c = Window.trigger ↔
      twin.memory.window.push d = Window.trigger) :
    session.stepOf c = twin.stepOf d ∧ (session.feed c).Alike (twin.feed d) := by
  have hreaction := h.memory.react hclass htrigger
  refine ⟨hreaction.step_eq, h.config, h.memory.observe hclass, ?_⟩
  rw [Session.feed, Session.feed, h.config, h.performance]
  exact Performance.respond_eq_of_alike hreaction _ twin.performance

theorem Alike.feedAll (h : session.Alike twin) {text other : List Char}
    (hclass : List.Forall₂ SameClass text other)
    (htriggers : ∀ n ≤ text.length,
      (session.memory.observeAll (text.take n)).window = Window.trigger ↔
        (twin.memory.observeAll (other.take n)).window = Window.trigger) :
    session.steps text = twin.steps other ∧
      (session.feedAll text).Alike (twin.feedAll other) := by
  induction hclass generalizing session twin with
  | nil => exact ⟨rfl, h⟩
  | @cons c d text other hfirst hrest ih =>
      obtain ⟨hstep, hfed⟩ := h.feed hfirst (htriggers 1 (Nat.le_add_left 1 text.length))
      obtain ⟨hsteps, hall⟩ := ih hfed fun n hn => htriggers (n + 1) (Nat.succ_le_succ hn)
      refine ⟨?_, hall⟩
      rw [steps, steps, hstep, hsteps]

end Alike

variable [Dice σ]

/-- Texts that take the same steps and come to the same performance, and know the same
last letter, after each character. -/
structure PerformedAlike (config : Config) (dice : σ) (text other : List Char) :
    Prop where
  steps : (start config dice).steps text = (start config dice).steps other
  performance : ∀ n, ((start config dice).feedAll (text.take n)).performance =
    ((start config dice).feedAll (other.take n)).performance
  previousPitch : ∀ n, ((start config dice).feedAll (text.take n)).memory.previousPitch =
    ((start config dice).feedAll (other.take n)).memory.previousPitch

theorem alike_feedAll (config : Config) (dice : σ) {text other : List Char}
    (hclass : List.Forall₂ SameClass text other) (htriggers : SameTriggers text other) :
    (start config dice).steps text = (start config dice).steps other ∧
      ((start config dice).feedAll text).Alike ((start config dice).feedAll other) := by
  have hopened : (start config dice).Alike (start config dice) :=
    ⟨rfl, Memory.alike_empty, rfl⟩
  apply hopened.feedAll hclass
  intro n hn
  change (Memory.empty.observeAll _).window = _ ↔ (Memory.empty.observeAll _).window = _
  rw [Memory.window_eq_trigger_iff, Memory.window_eq_trigger_iff]
  exact htriggers n hn

theorem performedAlike_of_sameClass (config : Config) (dice : σ) {text other : List Char}
    (hclass : List.Forall₂ SameClass text other) (htriggers : SameTriggers text other) :
    PerformedAlike config dice text other := by
  have htake : ∀ n, ((start config dice).feedAll (text.take n)).Alike
      ((start config dice).feedAll (other.take n)) := by
    intro n
    exact (alike_feedAll config dice (List.forall₂_take n hclass) (htriggers.take n)).2
  exact ⟨(alike_feedAll config dice hclass htriggers).1, fun n => (htake n).performance,
    fun n => (htake n).memory.previousPitch⟩

/-- Texts are performed alike if their characters are bound alike and name the same notes
and they trigger the tempo at the same places.  So a text is performed alike in small
letters and in capitals and with other unbound characters, as long as no trigger comes or
goes. -/
theorem spelling_unheard (config : Config) (dice : σ) :
    (∀ text other : List Char, List.Forall₂ SameClass text other →
      SameTriggers text other → PerformedAlike config dice text other) ∧
    ∀ text other : List Char, List.Forall₂ Respelled text other →
      SameTriggers text other → PerformedAlike config dice text other := by
  constructor
  · intro text other hclass htriggers
    exact performedAlike_of_sameClass config dice hclass htriggers
  · intro text other hrespelled htriggers
    have hclass : List.Forall₂ SameClass text other :=
      hrespelled.imp fun _ _ h => h.sameClass
    exact performedAlike_of_sameClass config dice hclass htriggers

/-- Beside a trigger the letters and the unbound characters may be others. -/
theorem spelling_unheard_trigger :
    let text := ['c', 'B', 'P', 'M', '+', 'x', 'o']
    let other := ['C', 'B', 'P', 'M', '+', '!', 'U']
    let dice := RandomStream.ofSeed 1
    List.Forall₂ SameClass text other ∧ SameTriggers text other ∧
      (start {} dice).steps other = [.bound .newNote, .bound .newNote, .replay .newNote,
        .replay .newNote, .trigger, .replay .increaseOctave, .bound .repeatNote] ∧
      (start {} dice).steps text = (start {} dice).steps other ∧
      ((start {} dice).feedAll text).performance =
        ((start {} dice).feedAll other).performance := by
  intro text other dice
  have hclass : List.Forall₂ SameClass text other := by decide
  have htriggers : SameTriggers text other := by decide
  have halike := (spelling_unheard {} dice).1 text other hclass htriggers
  exact ⟨hclass, htriggers, by decide +kernel, halike.steps, halike.performance 7⟩

end Session

end TextMusic
