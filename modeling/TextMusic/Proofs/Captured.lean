/-
What a binding has captured is enough for its note.  In every state that a run can reach,
a letter is known together with its semitone.  What is carried out therefore never lacks
the note that it should play, and a repeat of a letter plays that letter as long as it is
replayed.
-/
import Mathlib.Tactic.IntervalCases
import TextMusic.Proofs.Coherence
import TextMusic.Proofs.Ledger

namespace TextMusic

variable {σ : Type}

/-! ## Letters -/

/-- The letters are those from A to H, in capitals or small. -/
theorem isNoteLetter_iff (c : Char) :
    isNoteLetter c = true ↔ 'A' ≤ c ∧ c ≤ 'H' ∨ 'a' ≤ c ∧ c ≤ 'h' := by
  constructor
  · intro h
    unfold isNoteLetter semitone? at h
    split at h <;> first | decide | exact absurd h Bool.false_ne_true
  · intro h
    have hrange : 65 ≤ c.toNat ∧ c.toNat ≤ 72 ∨ 97 ≤ c.toNat ∧ c.toNat ≤ 104 := h
    rw [← Char.ofNat_toNat c]
    rcases hrange with ⟨hlow, hhigh⟩ | ⟨hlow, hhigh⟩ <;> interval_cases c.toNat <;> rfl

/-- A character with the semitone that is known behind it: that of the character, if it is
a letter. -/
def Known (c : Char) (pitch : Option UInt8) : Prop :=
  isNoteLetter c = true → ∃ semitone, semitone? c = some semitone ∧ pitch = some semitone

theorem known_of_eq {c : Char} {pitch : Option UInt8}
    (h : isNoteLetter c = true → pitch = semitone? c) : Known c pitch := by
  intro hletter
  obtain ⟨semitone, hsemitone⟩ := Option.isSome_iff_exists.mp hletter
  exact ⟨semitone, hsemitone, (h hletter).trans hsemitone⟩

/-- A binding of the table that has captured enough for its note. -/
structure Binding.Ready (binding : Binding) : Prop where
  action_eq : Action.ofChar? binding.character = some binding.action
  known : Known binding.previousCharacter binding.previousPitch
  letter : binding.action = .newNote →
    ∃ semitone, TextMusic.semitone? binding.character = some semitone

theorem Binding.Coherent.ready {binding : Binding} (h : binding.Coherent) :
    binding.Ready where
  action_eq := h.action_eq
  known := known_of_eq h.pitch_eq
  letter hnew := by
    have hletter : isNoteLetter binding.character = true := by
      rw [← ofChar?_eq_newNote_iff, h.action_eq, hnew]
    exact Option.isSome_iff_exists.mp hletter

/-! ## Notes that are played -/

/-- What comes of a performance that plays one note and nothing else, in the octave and at
the volume of the moment. -/
structure Performance.PlaysOne (performance : Performance σ) (semitone : UInt8)
    (later : Performance σ) : Prop where
  timeline : later.timeline = performance.timeline.emitNote performance.voice.channel
    (pitchOf performance.voice.octave semitone) performance.voice.volume noteLength
  /-- The note begins at the cursor and ends four ticks later.  Its events are put in, or
  dropped if the wire cannot carry them. -/
  goesOnBy : performance.timeline.GoesOnBy
    [.note performance.voice.channel (pitchOf performance.voice.octave semitone)
      performance.voice.volume performance.timeline.cursor] later.timeline
  cursor : later.timeline.cursor = performance.timeline.cursor + 4
  voice : later.voice = performance.voice

theorem Performance.playsOne_of_emitNote {performance later : Performance σ}
    {semitone : UInt8}
    (htimeline : later.timeline = performance.timeline.emitNote performance.voice.channel
      (pitchOf performance.voice.octave semitone) performance.voice.volume noteLength)
    (hvoice : later.voice = performance.voice) : performance.PlaysOne semitone later := by
  let request : Request := .note performance.voice.channel
    (pitchOf performance.voice.octave semitone) performance.voice.volume
  have hgrant : later.timeline = performance.timeline.grant request := htimeline
  refine ⟨htimeline, ?_, ?_, hvoice⟩
  · rw [hgrant]
    exact performance.timeline.goesOnBy_grant request
  · rw [hgrant, Timeline.cursor_grant]
    rfl

theorem Performance.playsOne_letter (performance : Performance σ) {letter : Char}
    {semitone : UInt8} (h : semitone? letter = some semitone) :
    performance.PlaysOne semitone (performance.playLetter letter) := by
  rw [playLetter, h]
  exact playsOne_of_emitNote rfl rfl

theorem Performance.playsOne_repeat (rules : Rules) {binding : Binding}
    (performance : Performance σ) {semitone : UInt8}
    (hletter : isNoteLetter binding.previousCharacter = true)
    (hpitch : binding.previousPitch = some semitone) :
    performance.PlaysOne semitone (performance.repeatNote rules binding) := by
  rw [repeatNote, if_pos hletter, hpitch]
  exact playsOne_of_emitNote rfl rfl

namespace Session

variable [Dice σ]

theorem performance_feed_of_binding? {session : Session σ} {c : Char} {binding : Binding}
    (h : (session.memory.react c).binding? = some binding) :
    (session.feed c).performance =
      session.performance.carryOut session.config.rules binding := by
  rw [feed]
  cases hreaction : session.memory.react c with
  | trigger | ignored =>
      rw [hreaction] at h
      exact absurd h.symm (Option.some_ne_none binding)
  | bound other | replay other =>
      rw [hreaction] at h
      rw [← Option.some.inj h]
      rfl

theorem coherent_performAll (config : Config) (dice : σ) (operations : List Operation) :
    ((start config dice).performAll operations).memory.Coherent := by
  rw [memory_performAll]
  exact Memory.coherent_observeAll _

/-- A letter, or the replay of one, plays its note. -/
theorem playsOne_newNote {session : Session σ} {c : Char} {binding : Binding}
    (h : (session.memory.react c).binding? = some binding)
    (haction : binding.action = .newNote) (hready : binding.Ready) :
    ∃ semitone, semitone? binding.character = some semitone ∧
      session.performance.PlaysOne semitone (session.feed c).performance := by
  obtain ⟨semitone, hsemitone⟩ := hready.letter haction
  refine ⟨semitone, hsemitone, ?_⟩
  rw [performance_feed_of_binding? h, Performance.carryOut, haction]
  exact Performance.playsOne_letter _ hsemitone

/-- A random note plays the note of the letter that is drawn. -/
theorem playsOne_randomNote {session : Session σ} {c : Char} {binding : Binding}
    (h : (session.memory.react c).binding? = some binding)
    (haction : binding.action = .randomNote) :
    ∃ semitone,
      semitone? noteLetters[(Dice.letter session.performance.dice).1] = some semitone ∧
      session.performance.PlaysOne semitone (session.feed c).performance := by
  have hletter := isNoteLetter_noteLetters (Dice.letter session.performance.dice).1
  obtain ⟨semitone, hsemitone⟩ := Option.isSome_iff_exists.mp hletter
  refine ⟨semitone, hsemitone, ?_⟩
  rw [performance_feed_of_binding? h, Performance.carryOut, haction]
  have hplays := Performance.playsOne_letter
    { session.performance with dice := (Dice.letter session.performance.dice).2 }
    hsemitone
  exact Performance.playsOne_of_emitNote hplays.timeline hplays.voice

/-- Behind a letter a repeat has the pitch that it plays. -/
theorem playsOne_repeatNote {session : Session σ} {c : Char} {binding : Binding}
    (h : (session.memory.react c).binding? = some binding)
    (haction : binding.action = .repeatNote) (hready : binding.Ready)
    (hletter : isNoteLetter binding.previousCharacter = true) :
    ∃ semitone, semitone? binding.previousCharacter = some semitone ∧
      binding.previousPitch = some semitone ∧
      session.performance.PlaysOne semitone (session.feed c).performance := by
  obtain ⟨semitone, hsemitone, hpitch⟩ := hready.known hletter
  refine ⟨semitone, hsemitone, hpitch, ?_⟩
  rw [performance_feed_of_binding? h, Performance.carryOut, haction]
  exact Performance.playsOne_repeat _ _ hletter hpitch

end Session

/-! ## Repeats of a letter -/

/-- Only one bound character completes the trigger. -/
theorem Window.push_ne_trigger (window : Window) {c : Char}
    (h : Action.ofChar? c ≠ some .increaseOctave) : window.push c ≠ Window.trigger := by
  intro htrigger
  obtain rfl : c = '+' := congrArg Window.fourth htrigger
  exact h rfl

/-- A bound character that is no trigger is carried out at once, with what is known
then. -/
theorem Memory.react_of_bound (memory : Memory) {c : Char} {action : Action}
    (hbound : Action.ofChar? c = some action) (hup : action ≠ .increaseOctave) :
    memory.react c = .bound (memory.bind action c) := by
  have hne : Action.ofChar? c ≠ some .increaseOctave := by
    rw [hbound]
    exact fun h => hup (Option.some.inj h)
  rw [react, if_neg (memory.window.push_ne_trigger hne), hbound]

/-- An unbound character replays what is remembered. -/
theorem Memory.react_of_unbound {memory : Memory} {binding : Binding}
    (hmemo : memory.memo = some binding) {c : Char} (hunbound : Action.ofChar? c = none) :
    memory.react c = .replay binding := by
  have hne : Action.ofChar? c ≠ some .increaseOctave := by
    rw [hunbound]
    exact (Option.some_ne_none _).symm
  rw [react, if_neg (memory.window.push_ne_trigger hne), hunbound, hmemo]

namespace Session

variable [Dice σ]

/-- A repeat just behind a letter plays that letter, and so do its replays, whatever
octave the voice has come to and whatever instruments are set. -/
theorem repeat_of_letter (session : Session σ) {letter c : Char} {semitone : UInt8}
    (hletter : semitone? letter = some semitone)
    (hrepeat : Action.ofChar? c = some .repeatNote) {later : List Operation}
    (hunbound : ∀ d ∈ later.flatMap Operation.characters, Action.ofChar? d = none) :
    let lettered := session.feed letter
    let moment := (lettered.feed c).performAll later
    lettered.performance.PlaysOne semitone (lettered.feed c).performance ∧
      ∀ d, Action.ofChar? d = none →
        moment.performance.PlaysOne semitone (moment.feed d).performance := by
  intro lettered moment
  have hisLetter : isNoteLetter letter = true :=
    Option.isSome_iff_exists.mpr ⟨semitone, hletter⟩
  have hpitch : lettered.memory.previousPitch = some semitone := by
    change (semitone? letter).or _ = _
    rw [hletter, Option.some_or]
  have hreact : lettered.memory.react c = .bound (lettered.memory.bind .repeatNote c) :=
    lettered.memory.react_of_bound hrepeat (by decide)
  have hmemo : moment.memory.memo = some (lettered.memory.bind .repeatNote c) := by
    rw [memory_performAll, Memory.memo_observeAll_of_unbound _ hunbound]
    change ((Action.ofChar? c).map (lettered.memory.bind · c)).or _ = _
    rw [hrepeat]
    rfl
  constructor
  · rw [performance_feed_of_binding? (congrArg Reaction.binding? hreact)]
    exact Performance.playsOne_repeat _ _ hisLetter hpitch
  · intro d hd
    have hreplay := Memory.react_of_unbound hmemo hd
    rw [performance_feed_of_binding? (congrArg Reaction.binding? hreplay)]
    exact Performance.playsOne_repeat _ _ hisLetter hpitch

/-- In every state that a run can reach, the known pitch is that of the character before
if this is a letter, and what is remembered was bound by the table and has captured enough
for its note.  So a letter, a random note and a repeat of a letter play one note each, and
never for lack of one the note that stands in for it.  A repeat just behind a letter plays
that letter in the octave of the moment, and so do its replays up to the next bound
character.  The letters of the table are those that name a semitone, and those from A to
H. -/
theorem captured_context_suffices (config : Config) (dice : σ)
    (operations : List Operation) :
    let session := (start config dice).performAll operations
    (∀ c, (Action.ofChar? c = some .newNote ↔ isNoteLetter c = true) ∧
        (isNoteLetter c = true ↔ 'A' ≤ c ∧ c ≤ 'H' ∨ 'a' ≤ c ∧ c ≤ 'h')) ∧
      Known session.memory.previousCharacter session.memory.previousPitch ∧
      (∀ binding, session.memory.memo = some binding → binding.Ready) ∧
      (∀ c binding, (session.memory.react c).binding? = some binding →
        binding.Ready ∧
        (binding.action = .newNote →
          ∃ semitone, semitone? binding.character = some semitone ∧
            session.performance.PlaysOne semitone (session.feed c).performance) ∧
        (binding.action = .randomNote → ∃ semitone,
          semitone? noteLetters[(Dice.letter session.performance.dice).1] =
            some semitone ∧
          session.performance.PlaysOne semitone (session.feed c).performance) ∧
        (binding.action = .repeatNote → isNoteLetter binding.previousCharacter = true →
          ∃ semitone, semitone? binding.previousCharacter = some semitone ∧
            binding.previousPitch = some semitone ∧
            session.performance.PlaysOne semitone (session.feed c).performance)) ∧
      ∀ letter semitone c (later : List Operation),
        semitone? letter = some semitone → Action.ofChar? c = some .repeatNote →
        (∀ d ∈ later.flatMap Operation.characters, Action.ofChar? d = none) →
        let lettered := session.feed letter
        let moment := (lettered.feed c).performAll later
        lettered.performance.PlaysOne semitone (lettered.feed c).performance ∧
          ∀ d, Action.ofChar? d = none →
            moment.performance.PlaysOne semitone (moment.feed d).performance := by
  intro session
  have hcoherent : session.memory.Coherent := coherent_performAll config dice operations
  refine ⟨fun c => ⟨ofChar?_eq_newNote_iff c, isNoteLetter_iff c⟩,
    known_of_eq hcoherent.pitch_eq, ?_, ?_, ?_⟩
  · intro binding hmemo
    exact (hcoherent.memo binding hmemo).1.ready
  · intro c binding hbinding
    have hready := (hcoherent.react hbinding).1.ready
    exact ⟨hready, fun haction => playsOne_newNote hbinding haction hready,
      fun haction => playsOne_randomNote hbinding haction,
      fun haction hletter => playsOne_repeatNote hbinding haction hready hletter⟩
  · intro letter semitone c later hletter hrepeat hunbound
    exact session.repeat_of_letter hletter hrepeat hunbound

end Session

end TextMusic
