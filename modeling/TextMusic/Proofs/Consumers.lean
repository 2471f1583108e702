/-
Consumers: a text is described and its rendering is played, each by itself.  They tell of
the same messages if both draw from the seed of the configuration or neither draws, and if
the ticks have 64 bits they come to an end as long as the cursor does not leave these.
-/
import TextMusic.Proofs.Described
import TextMusic.Proofs.Draws
import TextMusic.Proofs.Ticks

namespace TextMusic

variable {σ τ : Type}

/-! ## Runs that draw nothing -/

section

variable [Dice σ] [Dice τ]

/-- What takes no draw asks for the same with any dice. -/
theorem Voice.bindingRequests_of_draws {rules : Rules} {binding : Binding}
    (h : binding.action.draws rules.variant = []) (voice : Voice) (dice : σ) (other : τ) :
    voice.bindingRequests rules binding other =
      voice.bindingRequests rules binding dice := by
  obtain ⟨variant, policy, step⟩ := rules
  obtain ⟨action, character, previousCharacter, previousPitch⟩ := binding
  cases action with
  | randomNote => exact absurd h (List.cons_ne_nil _ _)
  | newInstrument =>
      cases variant with
      | rich => exact absurd h (List.cons_ne_nil _ _)
      | plain => rfl
  | newNote | doubleVolume | increaseOctave | decreaseOctave | repeatNote | rest => rfl

/-- What takes no draw leaves the same voice with any dice. -/
theorem Voice.behind_of_draws {rules : Rules} {action : Action}
    (h : action.draws rules.variant = []) (voice : Voice) (dice : σ) (other : τ) :
    voice.behind rules other action = voice.behind rules dice action := by
  obtain ⟨variant, policy, step⟩ := rules
  cases action with
  | newInstrument =>
      cases variant with
      | rich => exact absurd h (List.cons_ne_nil _ _)
      | plain => rfl
  | newNote | doubleVolume | increaseOctave | decreaseOctave | repeatNote | randomNote
  | rest => rfl

theorem Voice.reaction_of_draws {rules : Rules} {reaction : Reaction}
    (h : reaction.step.draws rules.variant = []) (voice : Voice) (dice : σ) (other : τ) :
    voice.requests rules other reaction = voice.requests rules dice reaction ∧
      voice.after rules other reaction = voice.after rules dice reaction := by
  cases reaction with
  | trigger | ignored => exact ⟨rfl, rfl⟩
  | bound binding | replay binding =>
      exact ⟨bindingRequests_of_draws h voice dice other,
        behind_of_draws h voice dice other⟩

/-- Sessions that differ in nothing but their dice. -/
structure Session.SameButDice (other : Session τ) (session : Session σ) : Prop where
  config : other.config = session.config
  memory : other.memory = session.memory
  voice : other.voice = session.voice
  timeline : other.timeline = session.timeline

namespace Session.SameButDice

variable {other : Session τ} {session : Session σ}

theorem feed (h : other.SameButDice session) {c : Char}
    (hdraws : (session.stepOf c).draws session.config.variant = []) :
    (other.feed c).SameButDice (session.feed c) := by
  have hsame : other.performance.voice = session.performance.voice := h.voice
  have hstep : (session.memory.react c).step.draws session.config.rules.variant = [] :=
    hdraws
  obtain ⟨hrequests, hafter⟩ := Voice.reaction_of_draws hstep session.performance.voice
    session.performance.dice other.performance.dice
  refine ⟨h.config, congrArg (Memory.observe · c) h.memory, ?_, ?_⟩
  · change (other.performance.respond _ _).voice = (session.performance.respond _ _).voice
    rw [Performance.voice_respond, Performance.voice_respond, h.config, h.memory, hsame]
    exact hafter
  · change (other.performance.respond _ _).timeline =
      (session.performance.respond _ _).timeline
    have htimeline : other.performance.timeline = session.performance.timeline :=
      h.timeline
    rw [Performance.timeline_respond, Performance.timeline_respond, h.config, h.memory,
      hsame, htimeline]
    exact congrArg session.performance.timeline.grantAll hrequests

theorem feedAll (h : other.SameButDice session) {text : List Char}
    (hdraws : ∀ step ∈ session.steps text, step.draws session.config.variant = []) :
    (other.feedAll text).SameButDice (session.feedAll text) := by
  induction text generalizing other session with
  | nil => exact h
  | cons c rest ih =>
      rw [steps, List.forall_mem_cons] at hdraws
      exact ih (h.feed hdraws.1) hdraws.2

end Session.SameButDice

end

/-- Of a configuration with a seed, and of a text that draws nothing, there is one
rendering, whatever would be drawn from without a seed. -/
theorem timeline_stream {program : List Char} {config : Config}
    (h : config.seed.isSome = true ∨
      ∀ step ∈ Memory.empty.steps program, step.draws config.variant = [])
    (unseeded other : RandomStream) :
    ((Session.start config (config.stream other)).feedAll program).timeline =
      ((Session.start config (config.stream unseeded)).feedAll program).timeline := by
  rcases h with hseed | hdraws
  · obtain ⟨seed, hseed⟩ := Option.isSome_iff_exists.mp hseed
    have hstream : ∀ stream, config.stream stream = .ofSeed seed := fun stream => by
      rw [Config.stream, hseed]
    rw [hstream, hstream]
  · have hstart : (Session.start config (config.stream other)).SameButDice
        (Session.start config (config.stream unseeded)) :=
      ⟨rfl, rfl, (Session.voice_start _ _).trans (Session.voice_start _ _).symm,
        (Session.timeline_start _ _).trans (Session.timeline_start _ _).symm⟩
    have hsteps : ∀ step ∈ (Session.start config (config.stream unseeded)).steps program,
        step.draws config.variant = [] := by
      rw [Session.steps_eq_memory]
      exact hdraws
    exact (hstart.feedAll hsteps).timeline

/-! ## Rendering where ticks are limited -/

/-- What describing a text comes to on a clock that ends after so many ticks: nothing,
where a note would end behind the last of them. -/
def simulateWithin? [Dice σ] (limit : Nat) (program : String) (config : Config)
    (dice : σ) : Option (Except Error Document) :=
  ((Timeline.startingAt config.startTick).grantAllWithin? limit
    (Session.requested config dice [.feedText program.toList])).map
      (Document.ofTimeline program config)

theorem simulateWithin?_eq [Dice σ] {limit : Nat} {config : Config}
    (h : config.startTick < limit) (program : String) (dice : σ) :
    simulateWithin? limit program config dice =
      if ((Session.start config dice).feedAll program.toList).timeline.cursor < limit then
        some (simulate program config dice)
      else none := by
  have htimeline := Session.timeline_requested config dice [.feedText program.toList]
  rw [simulateWithin?, Timeline.grantAllWithin?_eq h, ← htimeline]
  let timeline := ((Session.start config dice).feedAll program.toList).timeline
  change Option.map _ (if timeline.cursor < limit then some timeline else none) = _
  split_ifs
  · rw [simulate, render_sourceOfText]
    rfl
  · rfl

/-! ## One text, two consumers -/

/-- Everything that a timeline holds has a message, and a playback of it passes nothing
over.  A text whose rendering stays within 64 bits can be described, with a message for
each event.  If the configuration has a seed or the text draws nothing, these are the
messages that a playback of another rendering hands over. -/
theorem consumers_agree :
    (∀ (tick : Nat) (edits : List Timeline.Edit),
      let timeline := (Timeline.startingAt tick).editAll edits
      (∀ event ∈ timeline.events.toList, ∃ message, event.encode = .ok message) ∧
        ∀ resolution playback, Playback.ofTimeline timeline resolution = .ok playback →
          List.Forall₂ Scheduled.StandsFor playback.schedule.toList
            timeline.events.toList) ∧
      ∀ (program : String) (config : Config) (unseeded : RandomStream),
        let dice := config.stream unseeded
        ((Session.start config dice).feedAll program.toList).timeline.cursor <
          UInt64.size →
        ∃ document, simulate program config dice = .ok document ∧
          simulateWithin? UInt64.size program config dice = some (.ok document) ∧
          document.timeline.wrapped UInt64.size = document.timeline ∧
          document.program = program ∧ document.config = config ∧
          List.Forall₂ (fun event message => event.encode = .ok message)
            document.timeline.events.toList document.messages ∧
          (∃ value, Json.read? document.toJson.render.toList = some value ∧
            document.Described value) ∧
          ∀ other : RandomStream,
            config.seed.isSome = true ∨
                (∀ step ∈ Memory.empty.steps program.toList,
                  step.draws config.variant = []) →
            ∃ timeline,
              render (sourceOfText program) config (config.stream other) = .ok timeline ∧
              ∀ resolution playback,
                Playback.ofTimeline timeline resolution = .ok playback →
                ∀ (β : Type) (hear : β → Message → β) (listener : β),
                  let outcome := playback.run
                    (fun listener message => (hear listener message, false))
                    .immediate listener
                  outcome.listener = document.messages.foldl hear listener ∧
                    outcome.sent = document.messages.length ∧ outcome.failure? = none ∧
                    outcome.playback.isFinished = true := by
  constructor
  · intro tick edits timeline
    have hencodable : timeline.Encodable :=
      (Timeline.encodable_startingAt tick).editAll edits
    refine ⟨hencodable, ?_⟩
    intro resolution playback hplayback
    obtain ⟨schedule, hschedule, rfl⟩ := Playback.ofTimeline_eq_ok hplayback
    exact Schedule.from?_encodable hencodable hschedule
  · intro program config unseeded dice hcursor
    have hencodable := Session.encodable_feedAll config dice program.toList
    obtain ⟨messages, hsimulate, hmessages⟩ := exists_simulate program config dice
    refine ⟨⟨program, config, _, messages⟩, hsimulate, ?_, ?_, rfl, rfl, hmessages,
      Document.exists_described _, ?_⟩
    · have horderly := Session.orderly_performAll config dice [.feedText program.toList]
      have hstart := Nat.lt_of_le_of_lt horderly.start_le_cursor hcursor
      rw [simulateWithin?_eq hstart, if_pos hcursor, hsimulate]
    · have hsame := Session.wrapped_eq_self config dice [.feedText program.toList] hcursor
      exact congrArg Session.timeline hsame
    · intro other hsettled
      have hother := timeline_stream hsettled unseeded other
      refine ⟨_, render_sourceOfText program config (config.stream other), ?_⟩
      rw [hother]
      intro resolution playback hplayback β hear listener outcome
      obtain ⟨schedule, rfl, heq⟩ :=
        Playback.exists_of_ofTimeline hencodable hplayback hmessages
      have hrun := Playback.run_unpaused schedule hear listener
      rw [heq, ← List.length_map (f := Scheduled.message), heq] at hrun
      exact hrun

/-- At a volume that the wire cannot carry the first note is dropped, and a listener to
another rendering that keeps what it hears ends with the messages of the document. -/
theorem consumers_agree_too_loud :
    let config : Config := { volume := 200, seed := some 7 }
    let keep (kept : List Message) (message : Message) := (kept ++ [message], false)
    ∃ document timeline playback,
      simulate "C D" config (config.stream (.ofSeed 1)) = .ok document ∧
        document.timeline.dropped = 2 ∧
        render (sourceOfText "C D") config (config.stream (.ofSeed 2)) = .ok timeline ∧
        Playback.ofTimeline timeline 4 = .ok playback ∧
        (playback.run keep .immediate []).listener = document.messages := by
  intro config keep
  have hcursor : ((Session.start config (config.stream (.ofSeed 1))).feedAll
      "C D".toList).timeline.cursor < UInt64.size := by
    decide +kernel
  have hdropped : ((Session.start config (config.stream (.ofSeed 1))).feedAll
      "C D".toList).timeline.dropped = 2 := by
    decide +kernel
  obtain ⟨document, hdocument, -, -, -, -, -, -, hother⟩ :=
    consumers_agree.2 "C D" config (.ofSeed 1) hcursor
  obtain ⟨messages, hsimulate, -⟩ :=
    exists_simulate "C D" config (config.stream (.ofSeed 1))
  obtain rfl := Except.ok.inj (hsimulate.symm.trans hdocument)
  obtain ⟨timeline, hrender, hplayback⟩ := hother (.ofSeed 2) (.inl rfl)
  have hok : (Playback.ofTimeline timeline 4).isOk = true := by
    rw [← Except.ok.inj ((render_sourceOfText _ _ _).symm.trans hrender)]
    decide +kernel
  cases hresult : Playback.ofTimeline timeline 4 with
  | error failure => simp [hresult, Except.isOk, Except.toBool] at hok
  | ok playback =>
      have hheard :=
        (hplayback 4 playback hresult _ (fun kept message => kept ++ [message]) []).1
      refine ⟨_, timeline, playback, hdocument, hdropped, hrender, hresult,
        hheard.trans ?_⟩
      rw [List.foldl_append_eq_append, List.nil_append, ← List.flatMap_def,
        List.flatMap_singleton']

/-- Without a seed a random note is described as one letter and played as another, and
from the last tick of 64 bits not even one note can be described. -/
theorem consumers_disagree :
    let keep (kept : List Message) (message : Message) := (kept ++ [message], false)
    let described := (simulate "?" {} (Config.stream {} (.ofSeed 1))).toOption.map
      Document.messages
    let rendered := (render (sourceOfText "?") {} (Config.stream {} (.ofSeed 2))).toOption
    let heard := rendered.bind fun timeline =>
      (Playback.ofTimeline timeline 4).toOption.map fun playback =>
        (playback.run keep .immediate []).listener
    described.isSome = true ∧ heard.isSome = true ∧ heard ≠ described ∧
      (simulateWithin? UInt64.size "C"
        { startTick := 18446744073709551615, seed := some 1 }
        (RandomStream.ofSeed 1)).isNone = true := by
  decide +kernel

end TextMusic
