/-
Which events of a run are dropped.  Where the wire can carry the channel and the
instruments, that is a note that is as loud as was configured, if that is too loud, and a
tempo that is too slow, and nothing else.
-/
import TextMusic.Proofs.Accounting
import TextMusic.Proofs.ClosedForm
import TextMusic.Proofs.Ledger
import TextMusic.Proofs.Program
import TextMusic.Proofs.Tempo
import TextMusic.Random.Stream

namespace TextMusic

variable {σ : Type}

/-! ## Notes -/

/-- The wire carries both events of a note or neither. -/
theorem Block.fits_note (channel pitch velocity : UInt8) (onset : Nat) :
    (note channel pitch velocity onset).fits =
      (decide (channel ≤ 15) && decide (pitch ≤ 127) && decide (velocity ≤ 127)) := by
  have hon : (Event.noteOn channel pitch velocity onset).fits =
      (decide (channel ≤ 15) && decide (pitch ≤ 127) && decide (velocity ≤ 127)) :=
    isOk_channelMessage _ channel pitch velocity
  have hoff := fits_noteOff channel pitch velocity (onset + 4) onset
  rw [fits, events, List.all_cons, List.all_cons, List.all_nil, hoff, hon, Bool.and_true,
    Bool.and_self]

namespace Voice

/-- In every octave of a voice a pitch is found by counting up from the lowest, as far as
the highest. -/
theorem toNat_pitchOf {octave : Int} (hoctave : -1 ≤ octave) (semitone : UInt8) :
    0 ≤ 12 * (octave + 1) + semitone.toNat ∧
      ((pitchOf octave semitone).toNat : Int) =
        min (12 * (octave + 1) + semitone.toNat) 127 := by
  have hmax : maxPitch.toNat = 127 := rfl
  unfold pitchOf
  refine ⟨by omega, ?_⟩
  dsimp only
  split_ifs with hpitch
  · omega
  · rw [UInt8.toNat_ofNat']
    omega

/-- Rests are silent, and every other note is played at the volume of the voice. -/
def noteVolume (voice : Voice) (action : Action) : UInt8 :=
  if action = .rest then 0 else voice.volume

theorem LedBy.octave_bounds {config : Config} {actions : List Action} {triggers : Nat}
    {voice : Voice} (h : voice.LedBy config actions triggers) :
    -1 ≤ voice.octave ∧ voice.octave ≤ 9 := by
  rw [h.octave]
  exact octaveAfter_bounds actions

/-- A voice is too loud only as it was configured, and only until the first doubling. -/
theorem LedBy.too_loud_iff {config : Config} {actions : List Action} {triggers : Nat}
    {voice : Voice} (h : voice.LedBy config actions triggers) :
    127 < voice.volume ↔ 127 < config.volume ∧ .doubleVolume ∉ actions := by
  have hvolume := h.volume
  rw [UInt8.lt_iff_toNat_lt, UInt8.lt_iff_toNat_lt, ← List.count_eq_zero]
  simp only [volumeAfter] at hvolume
  split_ifs at hvolume with hnone
  · rw [hvolume]
    exact (and_iff_left hnone).symm
  · have hle : voice.volume.toNat ≤ 127 := hvolume.trans_le (Nat.min_le_right _ _)
    exact iff_of_false (Nat.not_lt.mpr hle) fun h => hnone h.2

/-- The wire carries every pitch, so what decides of a note is its volume. -/
theorem LedBy.fits_note_iff {config : Config} (hchannel : config.channel ≤ 15)
    {actions : List Action} {triggers : Nat} {voice : Voice}
    (h : voice.LedBy config actions triggers) (action : Action) (semitone : UInt8)
    (onset : Nat) :
    (Block.note voice.channel (pitchOf voice.octave semitone) (voice.noteVolume action)
        onset).fits = false ↔
      127 < config.volume ∧ .doubleVolume ∉ actions ∧ action ≠ .rest := by
  have hpitch : pitchOf voice.octave semitone ≤ 127 := by
    rw [UInt8.le_iff_toNat_le]
    have hle := (toNat_pitchOf h.octave_bounds.1 semitone).2.trans_le (min_le_right _ _)
    exact Int.ofNat_le.mp hle
  rw [Block.fits_note, h.channel, decide_eq_true hchannel, decide_eq_true hpitch,
    Bool.and_self, Bool.true_and, decide_eq_false_iff_not, UInt8.not_le, ← and_assoc,
    ← h.too_loud_iff]
  by_cases hrest : action = .rest <;> simp [noteVolume, hrest]

theorem note_not_mem_tempoRequests (voice : Voice) (channel pitch velocity : UInt8) :
    .note channel pitch velocity ∉ voice.tempoRequests := by
  intro h
  rw [tempoRequests] at h
  split_ifs at h
  · exact absurd h List.not_mem_nil
  · exact Request.noConfusion (List.mem_singleton.mp h)

theorem filter_isNote_optional (semitone? : Option UInt8) (voice : Voice)
    (volume : UInt8) :
    ((semitone?.map (voice.note volume)).toList).filter Request.isNote =
      (semitone?.map (voice.note volume)).toList := by
  cases semitone? <;> rfl

/-- Carrying out a binding asks for the note of its semitone and for no other. -/
theorem filter_isNote_bindingRequests [Dice σ] (rules : Rules) (binding : Binding)
    (voice : Voice) (dice : σ) :
    (voice.bindingRequests rules binding dice).filter Request.isNote =
      ((binding.semitone? rules dice).map
        (voice.note (voice.noteVolume binding.action))).toList := by
  unfold bindingRequests Binding.semitone? noteVolume
  cases binding.action with
  | newNote | randomNote | rest => exact filter_isNote_optional _ voice _
  | doubleVolume | increaseOctave | decreaseOctave => rfl
  | repeatNote =>
      dsimp only [repeatRequests]
      cases isNoteLetter binding.previousCharacter with
      | true => rfl
      | false => cases rules.variant <;> rfl
  | newInstrument =>
      dsimp only
      rw [programRequests_eq]
      rfl

/-- Every note that a reaction asks for is that of its action and of its semitone. -/
theorem note_mem_requests [Dice σ] {rules : Rules} {voice : Voice} {dice : σ}
    {reaction : Reaction} {channel pitch velocity : UInt8}
    (h : .note channel pitch velocity ∈ voice.requests rules dice reaction) :
    ∃ action semitone, reaction.action? = some action ∧
      reaction.semitone? rules dice = some semitone ∧
      Request.note channel pitch velocity =
        voice.note (voice.noteVolume action) semitone := by
  cases reaction with
  | trigger => exact absurd h (note_not_mem_tempoRequests _ channel pitch velocity)
  | bound binding | replay binding =>
      have hnote := List.mem_filter.mpr ⟨h, (rfl : Request.isNote (.note _ _ _) = true)⟩
      rw [requests, filter_isNote_bindingRequests, Option.mem_toList,
        Option.map_eq_some_iff] at hnote
      obtain ⟨semitone, hsemitone, hrequest⟩ := hnote
      exact ⟨binding.action, semitone, rfl, hsemitone, hrequest.symm⟩
  | ignored => exact absurd h List.not_mem_nil

end Voice

namespace Ledger

/-! ## What is kept -/

/-- What holds of an entry where the wire can carry the channel and the instruments: no
program is dropped, and a note only if it is as loud as was configured and that is too
loud.  A note has the volume of the voice or none, and its pitch is counted up from the
lowest. -/
structure Entry.Lawful (volume : UInt8) (entry : Entry) : Prop where
  tempo : ∀ micros tick, entry.block = .tempo micros tick →
    (entry.kept = false ↔ 0xFFFFFF < micros)
  program : ∀ channel instrument tick, entry.block = .program channel instrument tick →
    entry.kept = true
  note : ∀ channel pitch velocity onset,
    entry.block = .note channel pitch velocity onset →
    (entry.kept = false ↔ 127 < volume ∧ .doubleVolume ∉ Step.actions entry.before ∧
      entry.action? ≠ some .rest) ∧
    velocity = (if entry.action? = some .rest then 0 else entry.voice.volume) ∧
    ∃ semitone, entry.semitone? = some semitone ∧
      0 ≤ 12 * (entry.voice.octave + 1) + semitone.toNat ∧
      (pitch.toNat : Int) = min (12 * (entry.voice.octave + 1) + semitone.toNat) 127

theorem lawful_entries {config : Config} (hchannel : config.channel ≤ 15)
    {before : List Step} {triggers : Nat} {voice : Voice}
    (h : voice.LedBy config (Step.actions before) triggers)
    {action? : Option Action} {semitone? : Option UInt8} {tick : Nat}
    {requests : List Request}
    (hprogram : ∀ channel instrument, .program channel instrument ∈ requests →
      channel = voice.channel ∧ instrument ≤ 127)
    (hnote : ∀ channel pitch velocity, .note channel pitch velocity ∈ requests →
      ∃ action semitone, action? = some action ∧ semitone? = some semitone ∧
        Request.note channel pitch velocity =
          voice.note (voice.noteVolume action) semitone) :
    ∀ entry ∈ entries before voice action? semitone? tick requests,
      entry.Lawful config.volume := by
  intro entry hentry
  obtain ⟨block, hblock, rfl⟩ := List.mem_map.mp hentry
  obtain ⟨request, hrequest, onset, rfl⟩ := Request.mem_blocks hblock
  cases request with
  | tempo micros =>
      refine ⟨?_, fun _ _ _ h => Block.noConfusion h,
        fun _ _ _ _ h => Block.noConfusion h⟩
      intro _ _ heq
      obtain ⟨rfl, rfl⟩ := Block.tempo.inj heq
      rw [Entry.kept, Request.block, Block.fits, Block.events,
        List.all_cons, List.all_nil, Event.fits_tempoChange, Bool.and_true,
        decide_eq_false_iff_not, UInt32.not_le]
  | program channel instrument =>
      obtain ⟨rfl, hinstrument⟩ := hprogram channel instrument hrequest
      refine ⟨fun _ _ h => Block.noConfusion h, ?_, fun _ _ _ _ h => Block.noConfusion h⟩
      intro _ _ _ _
      rw [Entry.kept, Request.block, Block.fits, Block.events,
        List.all_cons, List.all_nil, Timeline.fits_programChange, h.channel]
      simp [hchannel, hinstrument]
  | note channel pitch velocity =>
      refine ⟨fun _ _ h => Block.noConfusion h, fun _ _ _ h => Block.noConfusion h, ?_⟩
      intro _ _ _ _ heq
      obtain ⟨rfl, rfl, rfl, rfl⟩ := Block.note.inj heq
      obtain ⟨action, semitone, rfl, rfl, hasked⟩ := hnote channel pitch velocity hrequest
      obtain ⟨rfl, rfl, rfl⟩ := Request.note.inj hasked
      obtain ⟨hlow, hpitch⟩ := Voice.toNat_pitchOf h.octave_bounds.1 semitone
      simp only [ne_eq, Option.some.injEq]
      exact ⟨h.fits_note_iff hchannel action semitone onset, rfl, semitone,
        rfl, hlow, hpitch⟩

theorem lawful_opening {config : Config} (hchannel : config.channel ≤ 15)
    (hinstrument : config.instrument ≤ 127) :
    ∀ entry ∈ opening config, entry.Lawful config.volume := by
  have hvoice : (Voice.ofConfig config).LedBy config (Step.actions []) 0 :=
    .ofConfig config
  apply lawful_entries hchannel hvoice
  · intro channel instrument hmem
    rcases List.mem_append.mp hmem with htempo | hprogram
    · exact absurd htempo
        (Voice.program_not_mem (Voice.filterMap_program?_tempoRequests _) _ _)
    · obtain ⟨rfl, rfl⟩ := Request.program.inj (List.mem_singleton.mp hprogram)
      exact ⟨rfl, hinstrument⟩
  · intro channel pitch velocity hmem
    rcases List.mem_append.mp hmem with htempo | hprogram
    · exact absurd htempo (Voice.note_not_mem_tempoRequests _ channel pitch velocity)
    · exact Request.noConfusion (List.mem_singleton.mp hprogram)

/-- At a volume that the wire can carry, an entry drops nothing but a tempo. -/
theorem Entry.Lawful.length_dropped {volume : UInt8} (hvolume : volume ≤ 127)
    {entry : Entry} (h : entry.Lawful volume) :
    (if entry.kept then 0 else entry.events.length) =
      if entry.isTooSlow then 1 else 0 := by
  have hquiet : ¬ 127 < volume := UInt8.not_lt.mpr hvolume
  cases hblock : entry.block with
  | tempo micros tick =>
      have hkept := h.tempo micros tick hblock
      rw [events, isTooSlow, hblock]
      by_cases hslow : 0xFFFFFF < micros
      · rw [hkept.mpr hslow]
        simp [hslow, Block.events]
      · have hfits : entry.kept = true := by rwa [← Bool.not_eq_false, hkept]
        rw [hfits]
        simp [hslow]
  | program channel instrument tick =>
      rw [h.program channel instrument tick hblock, isTooSlow, hblock]
      rfl
  | note channel pitch velocity onset =>
      have hkept : entry.kept = true := by
        rw [← Bool.not_eq_false, (h.note channel pitch velocity onset hblock).1]
        exact fun hloud => hquiet hloud.1
      rw [hkept, isTooSlow, hblock]
      rfl

theorem length_dropped {volume : UInt8} (hvolume : volume ≤ 127) {ledger : List Entry}
    (h : ∀ entry ∈ ledger, entry.Lawful volume) :
    ((ledger.filter (!·.kept)).flatMap Entry.events).length =
      ledger.countP Entry.isTooSlow := by
  induction ledger with
  | nil => rfl
  | cons entry rest ih =>
      obtain ⟨hentry, hrest⟩ := List.forall_mem_cons.mp h
      have hlength := hentry.length_dropped hvolume
      rw [List.countP_cons, ← ih hrest, ← hlength, List.filter_cons]
      cases entry.kept <;> simp [Nat.add_comm]

/-! ## Runs -/

variable [Dice σ]

/-- A session that goes on as it was configured, on an instrument that the wire can
carry. -/
structure Regular (config : Config) (before : List Step) (session : Session σ) :
    Prop where
  ledBy : session.LedBy config before
  instrument : session.voice.instrument ≤ 127

theorem Regular.act {config : Config} {before : List Step} {session : Session σ}
    (h : Regular config before session) {deed : Deed}
    (hdeed : ∀ instrument, deed = .instrument instrument → instrument ≤ 127) :
    Regular config (before ++ session.deedSteps deed) (session.act deed) := by
  cases deed with
  | character c =>
      refine ⟨h.ledBy.feed c, ?_⟩
      rcases session.performance.instrument_respond_le_or_eq session.config.rules
          (session.memory.react c) with hafter | hsame
      · exact hafter
      · exact hsame ▸ h.instrument
  | instrument instrument =>
      refine ⟨?_, hdeed instrument rfl⟩
      rw [Session.deedSteps, List.append_nil]
      exact ⟨h.ledBy.rules, h.ledBy.voice.setInstrument instrument⟩

theorem Regular.lawful {config : Config} (hchannel : config.channel ≤ 15)
    {before : List Step} {session : Session σ} (h : Regular config before session)
    {deed : Deed}
    (hdeed : ∀ instrument, deed = .instrument instrument → instrument ≤ 127) :
    ∀ entry ∈ ofDeed before session deed, entry.Lawful config.volume := by
  cases deed with
  | character c =>
      apply lawful_entries hchannel h.ledBy.voice
      · intro channel instrument hmem
        obtain ⟨hown, hcarried | rfl⟩ := Voice.program_mem_requests hmem
        · exact ⟨hown, hcarried⟩
        · exact ⟨hown, h.instrument⟩
      · intro channel pitch velocity hmem
        exact Voice.note_mem_requests hmem
  | instrument instrument =>
      apply lawful_entries hchannel h.ledBy.voice
      · intro channel other hmem
        obtain ⟨rfl, rfl⟩ := Request.program.inj (List.mem_singleton.mp hmem)
        exact ⟨rfl, hdeed _ rfl⟩
      · intro channel pitch velocity hmem
        exact Request.noConfusion (List.mem_singleton.mp hmem)

theorem lawful_ofDeeds {config : Config} (hchannel : config.channel ≤ 15)
    {before : List Step} {session : Session σ} (h : Regular config before session)
    {deeds : List Deed}
    (hdeeds : ∀ instrument, .instrument instrument ∈ deeds → instrument ≤ 127) :
    ∀ entry ∈ ofDeeds before session deeds, entry.Lawful config.volume := by
  induction deeds generalizing before session with
  | nil => exact List.forall_mem_nil _
  | cons deed rest ih =>
      have hdeed : ∀ instrument, deed = .instrument instrument → instrument ≤ 127 := by
        rintro instrument rfl
        exact hdeeds instrument List.mem_cons_self
      have hrest := ih (h.act hdeed) fun instrument hmem =>
        hdeeds instrument (List.mem_cons_of_mem deed hmem)
      exact List.forall_mem_append.mpr ⟨h.lawful hchannel hdeed, hrest⟩

theorem lawful_ofRun {config : Config} (hchannel : config.channel ≤ 15)
    (hinstrument : config.instrument ≤ 127) (dice : σ) {operations : List Operation}
    (hset : ∀ instrument, .setInstrument instrument ∈ operations → instrument ≤ 127) :
    ∀ entry ∈ ofRun config dice operations, entry.Lawful config.volume := by
  have hstart : Regular config [] (Session.start config dice) :=
    ⟨Session.ledBy_start config dice, hinstrument⟩
  rw [ofRun, List.forall_mem_append]
  refine ⟨lawful_opening hchannel hinstrument, lawful_ofDeeds hchannel hstart ?_⟩
  intro instrument hmem
  obtain ⟨operation, hoperation, hdeed⟩ := List.mem_flatMap.mp hmem
  apply hset instrument
  cases operation with
  | setInstrument other =>
      obtain rfl := Deed.instrument.inj (List.mem_singleton.mp hdeed)
      exact hoperation
  | feed | feedText | readFrom =>
      obtain ⟨c, -, hcharacter⟩ := List.mem_map.mp hdeed
      exact Deed.noConfusion hcharacter

/-- Where the wire can carry the channel and the instruments, the events of a run are
those of the entries that are kept, and the others are counted as dropped.  No program is
dropped, and a tempo only if it is too slow.  A note is dropped exactly if it is too loud
as configured, before any doubling, and no rest.  Its pitch is counted up from the lowest,
which it never goes below.  So at a volume that the wire can carry, only tempos are
dropped. -/
theorem dropped_exactly (config : Config) (dice : σ) (operations : List Operation)
    (hchannel : config.channel ≤ 15) (hinstrument : config.instrument ≤ 127)
    (hset : ∀ instrument, .setInstrument instrument ∈ operations → instrument ≤ 127) :
    let timeline := ((Session.start config dice).performAll operations).timeline
    let ledger := ofRun config dice operations
    timeline.events.toList = (ledger.filter Entry.kept).flatMap Entry.events ∧
      timeline.dropped = ((ledger.filter (!·.kept)).flatMap Entry.events).length ∧
      (∀ entry ∈ ledger, ∀ channel instrument tick,
        entry.block = .program channel instrument tick → entry.kept = true) ∧
      (∀ entry ∈ ledger, ∀ micros tick,
        entry.block = .tempo micros tick → (entry.kept = false ↔ 0xFFFFFF < micros)) ∧
      (∀ entry ∈ ledger, ∀ channel pitch velocity onset,
        entry.block = .note channel pitch velocity onset →
        (entry.kept = false ↔ 127 < config.volume ∧
          .doubleVolume ∉ Step.actions entry.before ∧ entry.action? ≠ some .rest) ∧
        velocity = (if entry.action? = some .rest then 0 else entry.voice.volume) ∧
        ∃ semitone, entry.semitone? = some semitone ∧
          0 ≤ 12 * (entry.voice.octave + 1) + semitone.toNat ∧
          (pitch.toNat : Int) =
            min (12 * (entry.voice.octave + 1) + semitone.toNat) 127) ∧
      (config.volume ≤ 127 → timeline.dropped = ledger.countP Entry.isTooSlow) := by
  intro timeline ledger
  have hlawful : ∀ entry ∈ ledger, entry.Lawful config.volume :=
    lawful_ofRun hchannel hinstrument dice hset
  obtain ⟨hevents, hdropped⟩ := goesOnBy_performAll config dice operations
  have hcount :
      timeline.dropped = ((ledger.filter (!·.kept)).flatMap Entry.events).length := by
    rw [List.filter_map, List.flatMap_map] at hdropped
    exact hdropped.trans (Nat.zero_add _)
  refine ⟨?_, hcount, ?_, ?_, ?_, ?_⟩
  · rw [List.filter_map, List.flatMap_map] at hevents
    exact hevents.trans (List.nil_append _)
  · intro entry hentry
    exact (hlawful entry hentry).program
  · intro entry hentry
    exact (hlawful entry hentry).tempo
  · intro entry hentry
    exact (hlawful entry hentry).note
  · intro hvolume
    rw [hcount]
    exact length_dropped hvolume hlawful

theorem dropped_exactly_too_loud :
    let config : Config := { volume := 200, instrument := 5, bpm := 1.0 }
    let operations : List Operation :=
      [.feedText ['C', ';', ' ', 'D'], .setInstrument 40, .feed 'x']
    let timeline :=
      ((Session.start config (RandomStream.ofSeed 1)).performAll operations).timeline
    let ledger := ofRun config (RandomStream.ofSeed 1) operations
    config.channel ≤ 15 ∧ config.instrument ≤ 127 ∧
      (∀ instrument, .setInstrument instrument ∈ operations → instrument ≤ 127) ∧
      timeline.dropped = 3 ∧ ledger.countP Entry.isTooSlow = 1 ∧
      timeline.events.toList =
        [.programChange 0 5 24, .noteOn 0 0 0 28, .noteOff 0 0 0 32, .noteOn 0 2 127 32,
          .noteOff 0 2 127 36, .programChange 0 40 36, .noteOn 0 2 127 36,
          .noteOff 0 2 127 40] := by
  intro config operations timeline ledger
  have hset :
      ∀ instrument, .setInstrument instrument ∈ operations → instrument ≤ 127 := by
    intro instrument hmem
    simp only [operations, List.mem_cons, Operation.setInstrument.injEq, reduceCtorEq,
      List.not_mem_nil, or_false, false_or] at hmem
    rw [hmem]
    decide
  obtain ⟨hevents, hdropped, -⟩ :=
    dropped_exactly config (RandomStream.ofSeed 1) operations (by decide) (by decide) hset
  refine ⟨by decide, by decide, hset, ?_, ?_, ?_⟩
  · exact hdropped.trans (by decide +kernel)
  · decide +kernel
  · exact hevents.trans (by decide +kernel)

end Ledger

end TextMusic
