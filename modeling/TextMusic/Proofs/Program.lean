/-
The program that a synthesizer is on.  It is the last program change that was kept, and
the instrument of the voice is the last one that was asked for, so that the two part where
the wire cannot carry an instrument.
-/
import Mathlib.Data.List.Basic
import TextMusic.Proofs.Asked
import TextMusic.Proofs.Orderly
import TextMusic.Random.Stream

namespace TextMusic

variable {σ : Type}

/-! ## Programs asked for and kept -/

/-- The instrument of a program change. -/
def Event.program? : Event → Option UInt8
  | programChange _ instrument _ => some instrument
  | noteOn .. | noteOff .. | tempoChange .. => none

namespace Request

/-- The instrument of a program that is asked for. -/
def program? : Request → Option UInt8
  | program _ instrument => some instrument
  | tempo _ | note .. => none

/-- The instrument of a program that is asked for and that the wire can carry. -/
def keptProgram? : Request → Option UInt8
  | program channel instrument =>
      if channel ≤ 15 ∧ instrument ≤ 127 then some instrument else none
  | tempo _ | note .. => none

end Request

namespace Timeline

/-- The instruments of the program changes, in order. -/
def programs (timeline : Timeline) : List UInt8 :=
  timeline.events.toList.filterMap Event.program?

/-- The program that a synthesizer is on at the end. -/
def program? (timeline : Timeline) : Option UInt8 :=
  timeline.programs.getLast?

theorem fits_programChange (channel instrument : UInt8) (tick : Nat) :
    (Event.programChange channel instrument tick).fits =
      decide (channel ≤ 15 ∧ instrument ≤ 127) := by
  rw [Event.fits, Event.encode, isOk_channelMessage]
  simp

/-- A request adds its program, if it has one that is kept. -/
theorem programs_grant (timeline : Timeline) (request : Request) :
    (timeline.grant request).programs =
      timeline.programs ++ request.keptProgram?.toList := by
  rw [programs, events_grant, List.filterMap_append]
  congr 1
  cases request with
  | tempo micros => split_ifs <;> rfl
  | program channel instrument =>
      rw [Request.block, Block.fits, Block.events, List.all_cons, fits_programChange]
      by_cases hkept : channel ≤ 15 ∧ instrument ≤ 127 <;>
        simp [hkept, Event.program?, Request.keptProgram?]
  | note channel pitch velocity => split_ifs <;> rfl

theorem programs_grantAll (timeline : Timeline) (requests : List Request) :
    (timeline.grantAll requests).programs =
      timeline.programs ++ requests.filterMap Request.keptProgram? := by
  induction requests generalizing timeline with
  | nil => simp
  | cons request rest ih =>
      rw [grantAll_cons, ih, programs_grant, List.append_assoc]
      cases hkept : request.keptProgram? <;> simp [hkept]

end Timeline

/-! ## What a voice asks for -/

namespace Voice

theorem filterMap_program?_letterRequests (voice : Voice) (letter : Char) :
    (voice.letterRequests letter).filterMap Request.program? = [] := by
  unfold letterRequests
  cases semitone? letter <;> rfl

theorem filterMap_program?_tempoRequests (voice : Voice) :
    voice.tempoRequests.filterMap Request.program? = [] := by
  unfold tempoRequests
  split_ifs <;> rfl

theorem filterMap_program?_restRequests (rules : Rules) (binding : Binding)
    (voice : Voice) :
    (voice.restRequests rules binding).filterMap Request.program? = [] := by
  unfold restRequests
  cases Performance.restSemitone? rules binding <;> rfl

theorem program_not_mem {requests : List Request}
    (h : requests.filterMap Request.program? = []) (channel instrument : UInt8) :
    Request.program channel instrument ∉ requests := by
  intro hmem
  have hnone := List.filterMap_eq_nil_iff.mp h _ hmem
  exact absurd hnone (Option.some_ne_none instrument)

variable [Dice σ]

/-- Whatever the dice choose, the wire can carry it. -/
theorem nextInstrument_le_or_eq (rules : Rules) (voice : Voice) (dice : σ) :
    voice.nextInstrument rules dice ≤ 127 ∨
      voice.nextInstrument rules dice = voice.instrument := by
  unfold nextInstrument
  cases rules.variant with
  | rich =>
      left
      have hdrawn : (Dice.program dice).1.val < 127 := (Dice.program dice).1.isLt
      change (UInt8.ofNat (Dice.program dice).1.val).toNat ≤ 127
      rw [UInt8.toNat_ofNat']
      omega
  | plain => exact .inr rfl

/-- A voice asks for programs on its own channel, and for none that the wire cannot carry
unless it is its own instrument. -/
theorem program_mem_bindingRequests {rules : Rules} {binding : Binding} {voice : Voice}
    {dice : σ} {channel instrument : UInt8}
    (h : Request.program channel instrument ∈ voice.bindingRequests rules binding dice) :
    channel = voice.channel ∧ (instrument ≤ 127 ∨ instrument = voice.instrument) := by
  unfold bindingRequests at h
  cases haction : binding.action with
  | newNote =>
      rw [haction] at h
      exact absurd h (program_not_mem (filterMap_program?_letterRequests _ _) _ _)
  | doubleVolume | increaseOctave | decreaseOctave => simp [haction] at h
  | repeatNote =>
      simp only [haction, repeatRequests] at h
      split_ifs at h with hletter
      · simp [note] at h
      · cases hvariant : rules.variant with
        | rich =>
            simp only [hvariant, note, List.mem_cons, Request.program.injEq, reduceCtorEq,
              List.not_mem_nil, or_false, false_or] at h
            rcases h with ⟨rfl, rfl⟩ | ⟨rfl, rfl⟩
            · exact ⟨rfl, .inl (by decide)⟩
            · exact ⟨rfl, .inr rfl⟩
        | plain => simp [hvariant, note] at h
  | randomNote =>
      rw [haction] at h
      exact absurd h (program_not_mem (filterMap_program?_letterRequests _ _) _ _)
  | newInstrument =>
      simp only [haction, programRequests_eq, List.mem_singleton, Request.program.injEq]
        at h
      obtain ⟨rfl, rfl⟩ := h
      exact ⟨rfl, nextInstrument_le_or_eq rules voice dice⟩
  | rest =>
      rw [haction] at h
      exact absurd h (program_not_mem (filterMap_program?_restRequests _ _ _) _ _)

theorem program_mem_requests {rules : Rules} {voice : Voice} {dice : σ}
    {reaction : Reaction} {channel instrument : UInt8}
    (h : Request.program channel instrument ∈ voice.requests rules dice reaction) :
    channel = voice.channel ∧ (instrument ≤ 127 ∨ instrument = voice.instrument) := by
  cases reaction with
  | trigger => exact absurd h (program_not_mem (filterMap_program?_tempoRequests _) _ _)
  | bound binding | replay binding => exact program_mem_bindingRequests h
  | ignored => exact absurd h List.not_mem_nil

end Voice

/-! ## What becomes of the voice -/

namespace Performance

variable [Dice σ]

theorem channel_respond (rules : Rules) (performance : Performance σ)
    (reaction : Reaction) :
    (performance.respond rules reaction).voice.channel = performance.voice.channel := by
  cases reaction with
  | trigger => rw [respond, voice_increaseTempo]
  | bound binding | replay binding =>
      rw [respond, voice_carryOut]
      cases binding.action <;> rfl
  | ignored => rfl

theorem instrument_respond_le_or_eq (rules : Rules) (performance : Performance σ)
    (reaction : Reaction) :
    (performance.respond rules reaction).voice.instrument ≤ 127 ∨
      (performance.respond rules reaction).voice.instrument =
        performance.voice.instrument := by
  cases reaction with
  | trigger =>
      rw [respond, voice_increaseTempo]
      exact .inr rfl
  | bound binding | replay binding =>
      rw [respond, voice_carryOut]
      cases binding.action with
      | newInstrument =>
          exact performance.voice.nextInstrument_le_or_eq rules performance.dice
      | _ => exact .inr rfl
  | ignored => exact .inr rfl

/-- The instrument of the voice is the last one that was asked for. -/
theorem instrument_carryOut (rules : Rules) (binding : Binding)
    (performance : Performance σ) :
    (performance.carryOut rules binding).voice.instrument =
      ((performance.voice.bindingRequests rules binding performance.dice).filterMap
        Request.program?).getLast?.getD performance.voice.instrument := by
  rw [voice_carryOut]
  unfold Voice.bindingRequests
  cases binding.action with
  | newNote | randomNote => simp only [Voice.filterMap_program?_letterRequests]; rfl
  | doubleVolume | increaseOctave | decreaseOctave => rfl
  | repeatNote =>
      unfold Voice.repeatRequests
      split_ifs
      · rfl
      · cases rules.variant <;> rfl
  | newInstrument => simp only [Voice.programRequests_eq]; rfl
  | rest => simp only [Voice.filterMap_program?_restRequests]; rfl

theorem instrument_respond (rules : Rules) (performance : Performance σ)
    (reaction : Reaction) :
    (performance.respond rules reaction).voice.instrument =
      ((performance.voice.requests rules performance.dice reaction).filterMap
        Request.program?).getLast?.getD performance.voice.instrument := by
  cases reaction with
  | trigger =>
      rw [Voice.requests, Voice.filterMap_program?_tempoRequests, respond,
        voice_increaseTempo]
      rfl
  | bound binding | replay binding => exact instrument_carryOut rules binding performance
  | ignored => rfl

end Performance

/-! ## Runs -/

namespace Session

theorem channel_start (config : Config) (dice : σ) :
    (start config dice).voice.channel = config.channel :=
  congrArg Voice.channel (Performance.voice_writeTempo _)

variable [Dice σ]

/-- A session stays on its channel and asks for programs there alone. -/
theorem channel_requests (session : Session σ) (operations : List Operation) :
    (session.performAll operations).voice.channel = session.voice.channel ∧
      ∀ request ∈ session.requests operations, ∀ channel instrument,
        request = .program channel instrument → channel = session.voice.channel := by
  apply requests_invariant (I := fun now => now.voice.channel = session.voice.channel)
  · intro now c hnow
    refine ⟨(Performance.channel_respond _ now.performance _).trans hnow, ?_⟩
    rintro request hmem channel instrument rfl
    exact (Voice.program_mem_requests hmem).1.trans hnow
  · intro now instrument _ hnow
    refine ⟨hnow, ?_⟩
    intro channel other hprogram
    exact (Request.program.inj hprogram).1.symm.trans hnow
  · rfl

/-- A session never leaves the instruments that the wire can carry unless it is told
to. -/
theorem instrument_requests_le {session : Session σ} {operations : List Operation}
    (hinstrument : session.voice.instrument ≤ 127)
    (hset : ∀ instrument, .setInstrument instrument ∈ operations → instrument ≤ 127) :
    (session.performAll operations).voice.instrument ≤ 127 ∧
      ∀ request ∈ session.requests operations, ∀ instrument,
        request.program? = some instrument → instrument ≤ 127 := by
  apply requests_invariant (I := fun now => now.voice.instrument ≤ 127)
  · intro now c hle
    constructor
    · rcases now.performance.instrument_respond_le_or_eq now.config.rules
        (now.memory.react c) with hafter | hsame
      · exact hafter
      · exact hsame ▸ hle
    · intro request hmem instrument hprogram
      cases request with
      | program channel other =>
          obtain rfl : other = instrument := Option.some.inj hprogram
          rcases (Voice.program_mem_requests hmem).2 with hafter | rfl
          · exact hafter
          · exact hle
      | tempo | note => exact absurd hprogram.symm (Option.some_ne_none instrument)
  · intro now instrument hmem _
    refine ⟨hset instrument hmem, ?_⟩
    intro other hprogram
    obtain rfl : instrument = other := Option.some.inj hprogram
    exact hset instrument hmem
  · exact hinstrument

theorem instrument_performAll (session : Session σ) (operations : List Operation) :
    (session.performAll operations).voice.instrument =
      ((session.requests operations).filterMap Request.program?).getLast?.getD
        session.voice.instrument := by
  apply requests_induction (P := fun session requests after => after.voice.instrument =
    (requests.filterMap Request.program?).getLast?.getD session.voice.instrument)
  · intro session
    rfl
  · intro session c
    exact Performance.instrument_respond _ session.performance _
  · intro session instrument _
    rfl
  · intro first second third requests more hsecond hthird
    rw [hthird, hsecond, List.filterMap_append, List.getLast?_append, Option.getD_or]

/-! ## From the opening on -/

theorem filterMap_program?_requested (config : Config) (dice : σ)
    (operations : List Operation) :
    (requested config dice operations).filterMap Request.program? = config.instrument ::
      ((start config dice).requests operations).filterMap Request.program? := by
  rw [requested, List.filterMap_append, Voice.filterMap_program?_tempoRequests]
  rfl

/-- The instrument of the voice is the last one asked for in the log. -/
theorem getLast?_requested (config : Config) (dice : σ) (operations : List Operation) :
    ((requested config dice operations).filterMap Request.program?).getLast? =
      some ((start config dice).performAll operations).voice.instrument := by
  rw [filterMap_program?_requested, List.getLast?_cons, instrument_performAll]
  rfl

/-- Every program of the log is asked for on the channel of the configuration. -/
theorem channel_requested {config : Config} {dice : σ} {operations : List Operation}
    {channel instrument : UInt8}
    (h : Request.program channel instrument ∈ requested config dice operations) :
    channel = config.channel := by
  rw [requested, List.mem_append, List.mem_cons] at h
  rcases h with htempo | hopening | hlater
  · exact absurd htempo
      (Voice.program_not_mem (Voice.filterMap_program?_tempoRequests _)
        channel instrument)
  · exact (Request.program.inj hopening).1
  · have hopened := (channel_requests _ operations).2 _ hlater channel instrument rfl
    exact hopened.trans (channel_start config dice)

/-- On a channel that the wire can carry, those programs of the log are kept that it can
carry too. -/
theorem programs_performAll {config : Config} (hchannel : config.channel ≤ 15) (dice : σ)
    (operations : List Operation) :
    ((start config dice).performAll operations).timeline.programs =
      ((requested config dice operations).filterMap Request.program?).filter
        (· ≤ 127) := by
  rw [timeline_requested, Timeline.programs_grantAll, List.filter_filterMap]
  change List.filterMap _ _ = _
  apply List.filterMap_congr
  intro request hrequest
  cases request with
  | tempo | note => rfl
  | program channel instrument =>
      rw [channel_requested hrequest]
      by_cases hinstrument : instrument ≤ 127 <;>
        simp [Request.keptProgram?, Request.program?, Option.filter,
          hchannel, hinstrument]

/-- On a channel and from an instrument that the wire can carry, and set to no other, a
session is always on the program of its voice, and every program that was asked for has
been kept. -/
theorem program?_eq_instrument (config : Config) (dice : σ) (operations : List Operation)
    (hchannel : config.channel ≤ 15) (hinstrument : config.instrument ≤ 127)
    (hset : ∀ instrument, .setInstrument instrument ∈ operations → instrument ≤ 127) :
    let session := (start config dice).performAll operations
    let log := requested config dice operations
    session.timeline.program? = some session.voice.instrument ∧
      session.timeline = (Timeline.startingAt config.startTick).grantAll log ∧
      session.timeline.programs = log.filterMap Request.program? := by
  intro session log
  have hall : session.timeline.programs = log.filterMap Request.program? := by
    rw [programs_performAll hchannel, filterMap_program?_requested, List.filter_eq_self]
    intro instrument hmem
    rw [decide_eq_true_eq]
    rcases List.mem_cons.mp hmem with rfl | hlater
    · exact hinstrument
    · obtain ⟨request, hrequest, hprogram⟩ := List.mem_filterMap.mp hlater
      have hle : (start config dice).voice.instrument ≤ 127 := hinstrument
      exact (instrument_requests_le hle hset).2 request hrequest instrument hprogram
  refine ⟨?_, timeline_requested config dice operations, hall⟩
  rw [Timeline.program?, hall]
  exact getLast?_requested config dice operations

/-- The ring of a repeat, a set instrument and a replay of that ring, one after the
other. -/
theorem program?_eq_instrument_ring :
    let operations : List Operation :=
      [.feedText ['+', 'o'], .setInstrument 40, .feed 'x']
    let session :=
      (start { instrument := 5 } (RandomStream.ofSeed 1)).performAll operations
    ({ instrument := 5 } : Config).channel ≤ 15 ∧ (5 : UInt8) ≤ 127 ∧
      (∀ instrument, .setInstrument instrument ∈ operations → instrument ≤ 127) ∧
      session.timeline.programs = [5, 124, 5, 40, 124, 40] ∧
      session.timeline.program? = some session.voice.instrument := by
  intro operations session
  have hset :
      ∀ instrument, .setInstrument instrument ∈ operations → instrument ≤ 127 := by
    intro instrument hmem
    simp only [operations, List.mem_cons, Operation.setInstrument.injEq, reduceCtorEq,
      List.not_mem_nil, or_false, false_or] at hmem
    rw [hmem]
    decide
  refine ⟨by decide, by decide, hset, by decide +kernel, ?_⟩
  exact (program?_eq_instrument _ _ operations (by decide) (by decide) hset).1

/-! ## Repeats -/

end Session

/-- Whether a repeat rings: in the rich variant, and where no letter stands just
before. -/
def Binding.rings (rules : Rules) (binding : Binding) : Bool :=
  rules.variant = .rich && !isNoteLetter binding.previousCharacter

theorem Voice.filterMap_keptProgram?_repeatRequests (rules : Rules) (binding : Binding)
    {voice : Voice} (hchannel : voice.channel ≤ 15) :
    (voice.repeatRequests rules binding).filterMap Request.keptProgram? =
      if binding.rings rules then
        ringingInstrument :: if voice.instrument ≤ 127 then [voice.instrument] else []
      else [] := by
  unfold repeatRequests Binding.rings
  cases isNoteLetter binding.previousCharacter with
  | true => simp [note, Request.keptProgram?]
  | false =>
      cases rules.variant with
      | plain => simp [note, Request.keptProgram?]
      | rich =>
          have hringing : ringingInstrument ≤ 127 := by decide
          by_cases hinstrument : voice.instrument ≤ 127 <;>
            simp [note, Request.keptProgram?, List.filterMap_cons, hchannel,
              hringing, hinstrument]

namespace Session

variable [Dice σ]

/-- Where the wire can carry the instrument of the voice, that is the program. -/
theorem program?_eq_of_instrument_le {config : Config} (hchannel : config.channel ≤ 15)
    (dice : σ) (operations : List Operation)
    (hinstrument : ((start config dice).performAll operations).voice.instrument ≤ 127) :
    ((start config dice).performAll operations).timeline.program? =
      some ((start config dice).performAll operations).voice.instrument := by
  obtain ⟨earlier, hlast⟩ :=
    List.getLast?_eq_some_iff.mp (getLast?_requested config dice operations)
  rw [Timeline.program?, programs_performAll hchannel, hlast, List.filter_append]
  simp [hinstrument]

/-- What carries out a binding, be its character bound or replayed. -/
theorem feed_of_binding? {session : Session σ} {c : Char} {binding : Binding}
    (h : (session.memory.react c).binding? = some binding) :
    (session.feed c).voice =
        (session.performance.carryOut session.config.rules binding).voice ∧
      session.characterRequests c =
        session.voice.bindingRequests session.config.rules binding
          session.performance.dice := by
  unfold voice feed characterRequests
  cases hreaction : session.memory.react c with
  | trigger | ignored => simp [hreaction, Reaction.binding?] at h
  | bound other | replay other =>
      obtain rfl : other = binding := by simpa [hreaction, Reaction.binding?] using h
      exact ⟨rfl, rfl⟩

/-- A repeat leaves the voice as it was, and the program too unless it rings while the
wire cannot carry the instrument to go back to; then the ringing instrument stays. -/
theorem feed_repeat (config : Config) (dice : σ) (operations : List Operation)
    (hchannel : config.channel ≤ 15) {c : Char} {binding : Binding}
    (hbinding : (((start config dice).performAll operations).memory.react c).binding? =
      some binding) (haction : binding.action = .repeatNote) :
    let session := (start config dice).performAll operations
    let stuck := binding.rings session.config.rules ∧ 127 < session.voice.instrument
    (session.feed c).voice = session.voice ∧
      (session.feed c).timeline.program? =
        (if stuck then some ringingInstrument else session.timeline.program?) ∧
      ((session.feed c).timeline.program? = session.timeline.program? ↔
        stuck → session.timeline.program? = some ringingInstrument) := by
  intro session stuck
  have hchannelNow : session.voice.channel ≤ 15 := by
    rw [((start config dice).channel_requests operations).1, channel_start]
    exact hchannel
  obtain ⟨hvoice, hrequests⟩ := feed_of_binding? hbinding
  have hprograms : (session.feed c).timeline.programs = session.timeline.programs ++
      (session.voice.repeatRequests session.config.rules binding).filterMap
        Request.keptProgram? := by
    rw [timeline_feed, Timeline.programs_grantAll, hrequests,
      Voice.bindingRequests, haction]
  have hprogram : (session.feed c).timeline.program? =
      if stuck then some ringingInstrument else session.timeline.program? := by
    rw [Timeline.program?, hprograms,
      Voice.filterMap_keptProgram?_repeatRequests _ _ hchannelNow]
    by_cases hrings : binding.rings session.config.rules
    · rw [if_pos hrings]
      by_cases hle : session.voice.instrument ≤ 127
      · have hnot : ¬ stuck := fun hstuck => UInt8.not_lt.mpr hle hstuck.2
        rw [if_neg hnot, if_pos hle, List.getLast?_append]
        exact (program?_eq_of_instrument_le hchannel dice operations hle).symm
      · have hstuck : stuck := ⟨hrings, UInt8.not_le.mp hle⟩
        rw [if_pos hstuck, if_neg hle, List.getLast?_append]
        rfl
    · have hnot : ¬ stuck := fun hstuck => hrings hstuck.1
      rw [if_neg hrings, if_neg hnot, List.append_nil]
      rfl
  refine ⟨?_, hprogram, ?_⟩
  · rw [hvoice, Performance.voice_carryOut, haction]
    rfl
  · rw [hprogram]
    by_cases hstuck : stuck
    · simp [hstuck, eq_comm]
    · simp [hstuck]

/-- The replay of a ring goes back to the instrument that was set since. -/
theorem feed_repeat_replayed :
    let operations : List Operation := [.feedText ['+', 'o'], .setInstrument 40]
    let session :=
      (start { instrument := 5 } (RandomStream.ofSeed 1)).performAll operations
    let ring : Binding := ⟨.repeatNote, 'o', '+', none⟩
    ({ instrument := 5 } : Config).channel ≤ 15 ∧
      session.memory.react 'x' = .replay ring ∧
      ring.rings session.config.rules ∧ (session.feed 'x').timeline.programs =
        session.timeline.programs ++ [ringingInstrument, 40] ∧
      (session.feed 'x').timeline.program? = session.timeline.program? := by
  intro operations session ring
  have hreaction : session.memory.react 'x' = .replay ring := by decide +kernel
  have hbinding : (session.memory.react 'x').binding? = some ring :=
    congrArg Reaction.binding? hreaction
  have hcarried : ¬ 127 < session.voice.instrument := by decide +kernel
  refine ⟨by decide, hreaction, by decide +kernel, by decide +kernel, ?_⟩
  exact (feed_repeat _ _ operations (by decide) hbinding rfl).2.2.mpr
    fun hstuck => absurd hstuck.2 hcarried

/-- Once an instrument is set that the wire cannot carry, a ring does not find its way
back to the program that was left in force. -/
theorem ring_outlasts_repeat :
    let session := (start { instrument := 5 } (RandomStream.ofSeed 1)).performAll
      [.setInstrument 200]
    ({ instrument := 5 } : Config).channel ≤ 15 ∧
      session.stepOf 'o' = .bound .repeatNote ∧
      session.timeline.program? = some 5 ∧
      (session.feed 'o').timeline.program? = some ringingInstrument ∧
      (session.feed 'o').timeline.program? ≠ session.timeline.program? := by
  decide +kernel

end Session

end TextMusic
