/-
The wire: which events it carries, what is said of the others, and how a stream of
messages is read back.  All of an event is in its message except the tick.
-/
import Mathlib.Data.List.Forall2
import TextMusic.Message.Encoding

namespace TextMusic

/-! ## Fields -/

/-- A number in an event that has to fit its place on the wire. -/
inductive Field where
  | channel (value : UInt8)
  | data (value : UInt8)
  | tempo (micros : UInt32)
deriving DecidableEq, Repr

namespace Field

def value : Field → Nat
  | channel value | data value => value.toNat
  | tempo micros => micros.toNat

/-- There are sixteen channels, a data byte has seven bits, and a tempo three bytes. -/
def limit : Field → Nat
  | channel _ => 15
  | data _ => 127
  | tempo _ => 0xFFFFFF

def fits (field : Field) : Bool :=
  field.value ≤ field.limit

/-- What is said of a field that does not fit. -/
def refusal : Field → EncodeError
  | channel value => .invalidChannel value
  | data value => .invalidData value
  | tempo micros => .tempoOutOfRange micros

@[simp] theorem fits_channel (value : UInt8) :
    (channel value).fits = decide (value ≤ 15) := by
  rw [fits, decide_eq_decide]
  exact Iff.rfl

@[simp] theorem fits_data (value : UInt8) : (data value).fits = decide (value ≤ 127) := by
  rw [fits, decide_eq_decide]
  exact Iff.rfl

@[simp] theorem fits_tempo (micros : UInt32) :
    (tempo micros).fits = decide (micros ≤ 0xFFFFFF) := by
  rw [fits, decide_eq_decide]
  exact Iff.rfl

end Field

namespace Event

/-- The fields of an event, in the order in which they are looked at. -/
def fields : Event → List Field
  | noteOn channel pitch velocity _ | noteOff channel pitch velocity _ =>
      [.channel channel, .data pitch, .data velocity]
  | programChange channel instrument _ => [.channel channel, .data instrument]
  | tempoChange micros _ => [.tempo micros]

/-- The first field that does not fit. -/
def misfit? (event : Event) : Option Field :=
  event.fields.find? fun field => !field.fits

/-- The message of an event all of whose fields fit. -/
def message : Event → Message
  | noteOn channel pitch velocity _ =>
      .short (Message.noteOnStatus + channel) pitch velocity
  | noteOff channel pitch velocity _ =>
      .short (Message.noteOffStatus + channel) pitch velocity
  | programChange channel instrument _ =>
      .short (Message.programStatus + channel) instrument 0
  | tempoChange micros _ =>
      .metadata Message.tempoKind (UInt8.ofNat (micros.toNat / 65536))
        (UInt8.ofNat (micros.toNat / 256)) (UInt8.ofNat micros.toNat)

end Event

theorem channelMessage_eq (status channel data1 data2 : UInt8) :
    channelMessage status channel data1 data2 =
      match [Field.channel channel, .data data1, .data data2].find? (!·.fits) with
      | some field => .error field.refusal
      | none => .ok (.short (status + channel) data1 data2) := by
  unfold channelMessage checkChannel checkData
  by_cases hchannel : channel ≤ 15
  · by_cases hdata1 : data1 ≤ 127
    · by_cases hdata2 : data2 ≤ 127 <;>
        simp [hchannel, hdata1, hdata2, bind, Except.bind, pure, Except.pure,
          Field.refusal]
    · simp [hchannel, hdata1, bind, Except.bind, Field.refusal]
  · simp [hchannel, bind, Except.bind, Field.refusal]

namespace Event

/-- An event is refused for the first field that does not fit. -/
theorem encode_eq (event : Event) :
    event.encode = match event.misfit? with
      | some field => .error field.refusal
      | none => .ok event.message := by
  cases event with
  | noteOn channel pitch velocity => exact channelMessage_eq _ channel pitch velocity
  | noteOff channel pitch velocity => exact channelMessage_eq _ channel pitch velocity
  | programChange channel instrument =>
      -- The second data byte of a program change is zero, which always fits.
      rw [encode, channelMessage_eq]
      by_cases hchannel : channel ≤ 15 <;> by_cases hinstrument : instrument ≤ 127 <;>
        simp [misfit?, fields, message, hchannel, hinstrument]
  | tempoChange micros =>
      by_cases hmicros : micros ≤ 0xFFFFFF <;>
        simp [encode, misfit?, fields, message, hmicros, Field.refusal]

theorem encode_eq_ok_iff {event : Event} {message : Message} :
    event.encode = .ok message ↔ event.misfit? = none ∧ message = event.message := by
  rw [encode_eq]
  cases event.misfit? with
  | none => simp [eq_comm]
  | some field => simp

theorem encode_eq_error_iff {event : Event} {error : EncodeError} :
    event.encode = .error error ↔ event.misfit?.map Field.refusal = some error := by
  rw [encode_eq]
  cases event.misfit? <;> simp

theorem misfit?_eq_none_iff {event : Event} :
    event.misfit? = none ↔ ∀ field ∈ event.fields, field.value ≤ field.limit := by
  simp [misfit?, Field.fits]

/-- The tempo that an event sets, if it sets one. -/
def micros? : Event → Option UInt32
  | tempoChange micros _ => some micros
  | noteOn .. | noteOff .. | programChange .. => none

/-- The first byte of a message tells the kind of its event. -/
def HasStatus (event : Event) (status : UInt8) : Prop :=
  match event with
  | noteOff .. => 0x80 ≤ status ∧ status ≤ 0x8F
  | noteOn .. => 0x90 ≤ status ∧ status ≤ 0x9F
  | programChange .. => 0xC0 ≤ status ∧ status ≤ 0xCF
  | tempoChange .. => status = 0xFF

/-- The same event at another tick. -/
def moved (tick : Nat) : Event → Event
  | noteOn channel pitch velocity _ => .noteOn channel pitch velocity tick
  | noteOff channel pitch velocity _ => .noteOff channel pitch velocity tick
  | programChange channel instrument _ => .programChange channel instrument tick
  | tempoChange micros _ => .tempoChange micros tick

theorem moved_eq_of_moved_eq {event other : Event} {tick : Nat}
    (h : event.moved tick = other.moved tick) : event.moved other.tick = other := by
  cases event <;> cases other <;> simp_all [moved, Event.tick]

end Event

/-! ## Messages -/

namespace Message

/-- The status bytes that leave their low half to the channel. -/
def channelStatuses : List UInt8 :=
  [noteOffStatus, noteOnStatus, programStatus]

/-- A channel stays in the low half of a status byte. -/
theorem status_add {status channel : UInt8} (hstatus : status ∈ channelStatuses)
    (hchannel : channel ≤ 15) :
    (status + channel) &&& 0xF0 = status ∧ (status + channel) &&& 0x0F = channel ∧
      status ≤ status + channel ∧ status + channel ≤ status + 15 := by
  have hall : ∀ status ∈ channelStatuses, ∀ n ≤ 15,
      (status + UInt8.ofNat n) &&& 0xF0 = status ∧
        (status + UInt8.ofNat n) &&& 0x0F = UInt8.ofNat n ∧
        status ≤ status + UInt8.ofNat n ∧ status + UInt8.ofNat n ≤ status + 15 := by
    decide +kernel
  have h := hall status hstatus channel.toNat hchannel
  rwa [UInt8.ofNat_toNat] at h

theorem bytes_short {status channel : UInt8} (hstatus : status ∈ channelStatuses)
    (hchannel : channel ≤ 15) (data1 data2 : UInt8) :
    (short (status + channel) data1 data2).bytes =
      (status + channel) ::
        if status = programStatus then [data1] else [data1, data2] := by
  rw [bytes, (status_add hstatus hchannel).1]
  split_ifs <;> rfl

/-- Three bytes carry a tempo that fits them. -/
theorem tempo?_metadata {micros : UInt32} (hmicros : micros ≤ 0xFFFFFF) :
    (metadata tempoKind (UInt8.ofNat (micros.toNat / 65536))
      (UInt8.ofNat (micros.toNat / 256)) (UInt8.ofNat micros.toNat)).tempo? =
      some micros := by
  have hle : micros.toNat ≤ 0xFFFFFF := hmicros
  have hsum : micros.toNat / 65536 % 256 * 65536 + micros.toNat / 256 % 256 * 256 +
      micros.toNat % 256 = micros.toNat := by
    omega
  simp only [tempo?, if_true, UInt8.toNat_ofNat', hsum, UInt32.ofNat_toNat]

end Message

/-! ## Reading back -/

namespace Wire

/-- The event, at tick zero, of the halves of a status byte and what follows it, with
the rest of the stream. -/
def behindStatus? (kind channel : UInt8) (stream : List UInt8) :
    Option (Event × List UInt8) :=
  match kind, stream with
  | 0x80, pitch :: velocity :: rest => some (.noteOff channel pitch velocity 0, rest)
  | 0x90, pitch :: velocity :: rest => some (.noteOn channel pitch velocity 0, rest)
  | 0xC0, instrument :: rest => some (.programChange channel instrument 0, rest)
  | 0xF0, kind :: _ :: high :: middle :: low :: rest =>
      (Message.metadata kind high middle low).tempo?.map fun micros =>
        (.tempoChange micros 0, rest)
  | _, _ => none

/-- The event whose message a stream begins with, at tick zero, and the rest of the
stream. -/
def read? : List UInt8 → Option (Event × List UInt8)
  | [] => none
  | status :: stream => behindStatus? (status &&& 0xF0) (status &&& 0x0F) stream

theorem read?_status_add {status channel : UInt8}
    (hstatus : status ∈ Message.channelStatuses) (hchannel : channel ≤ 15)
    (stream : List UInt8) :
    read? ((status + channel) :: stream) = behindStatus? status channel stream := by
  obtain ⟨hkind, hlow, -⟩ := Message.status_add hstatus hchannel
  rw [read?, hkind, hlow]

/-- A message begins with a status byte of its event's kind, and that byte with what is
behind it spells the event. -/
theorem exists_status {event : Event} {message : Message}
    (h : event.encode = .ok message) :
    ∃ status data, message.bytes = status :: data ∧ event.HasStatus status ∧
      ∀ rest, read? (status :: (data ++ rest)) = some (event.moved 0, rest) := by
  obtain ⟨hfits, rfl⟩ := Event.encode_eq_ok_iff.mp h
  rw [Event.misfit?_eq_none_iff] at hfits
  cases event with
  | noteOn channel pitch velocity =>
      have hchannel : channel ≤ 15 := hfits (.channel channel) List.mem_cons_self
      have hstatus : Message.noteOnStatus ∈ Message.channelStatuses := by decide
      have hrange := (Message.status_add hstatus hchannel).2.2
      refine ⟨_, _, Message.bytes_short hstatus hchannel _ _, hrange, fun rest => ?_⟩
      exact read?_status_add hstatus hchannel _
  | noteOff channel pitch velocity =>
      have hchannel : channel ≤ 15 := hfits (.channel channel) List.mem_cons_self
      have hstatus : Message.noteOffStatus ∈ Message.channelStatuses := by decide
      have hrange := (Message.status_add hstatus hchannel).2.2
      refine ⟨_, _, Message.bytes_short hstatus hchannel _ _, hrange, fun rest => ?_⟩
      exact read?_status_add hstatus hchannel _
  | programChange channel instrument =>
      have hchannel : channel ≤ 15 := hfits (.channel channel) List.mem_cons_self
      have hstatus : Message.programStatus ∈ Message.channelStatuses := by decide
      have hrange := (Message.status_add hstatus hchannel).2.2
      refine ⟨_, _, Message.bytes_short hstatus hchannel _ _, hrange, fun rest => ?_⟩
      exact read?_status_add hstatus hchannel _
  | tempoChange micros =>
      have hmicros : micros ≤ 0xFFFFFF := hfits (.tempo micros) List.mem_cons_self
      have htempo := Message.tempo?_metadata hmicros
      refine ⟨_, _, rfl, rfl, fun rest => ?_⟩
      exact congrArg (Option.map fun micros => (Event.tempoChange micros 0, rest)) htempo

/-- A message is read back as its event, whatever follows it in the stream. -/
theorem read?_bytes_append {event : Event} {message : Message}
    (h : event.encode = .ok message) (rest : List UInt8) :
    read? (message.bytes ++ rest) = some (event.moved 0, rest) := by
  obtain ⟨status, data, hbytes, -, hread⟩ := exists_status h
  rw [hbytes, List.cons_append]
  exact hread rest

theorem tempo?_eq_micros? {event : Event} {message : Message}
    (h : event.encode = .ok message) :
    message.tempo? = event.micros? := by
  obtain ⟨hfits, rfl⟩ := Event.encode_eq_ok_iff.mp h
  cases event with
  | noteOn | noteOff | programChange => rfl
  | tempoChange micros =>
      rw [Event.misfit?_eq_none_iff] at hfits
      exact Message.tempo?_metadata (hfits (.tempo micros) List.mem_cons_self)

/-- A stream tells all of its events but their ticks, since the first of them is read
back and leaves the stream of the others. -/
theorem forall₂_of_bytes_eq {events others : List Event}
    {messages otherMessages : List Message}
    (hevents : List.Forall₂ (fun event message => event.encode = .ok message)
      events messages)
    (hothers : List.Forall₂ (fun event message => event.encode = .ok message)
      others otherMessages)
    (hbytes : messages.flatMap Message.bytes = otherMessages.flatMap Message.bytes) :
    List.Forall₂ (fun event other => event.moved other.tick = other) events others := by
  induction hevents generalizing others otherMessages with
  | nil =>
      cases hothers with
      | nil => exact .nil
      | cons hother hrest =>
          obtain ⟨status, data, hstatus, -, -⟩ := exists_status hother
          simp [hstatus] at hbytes
  | cons hevent hlater ih =>
      cases hothers with
      | nil =>
          obtain ⟨status, data, hstatus, -, -⟩ := exists_status hevent
          simp [hstatus] at hbytes
      | cons hother hrest =>
          have hread := congrArg read? hbytes
          rw [List.flatMap_cons, List.flatMap_cons, read?_bytes_append hevent,
            read?_bytes_append hother, Option.some.injEq, Prod.mk.injEq] at hread
          obtain ⟨hmoved, hstream⟩ := hread
          exact .cons (Event.moved_eq_of_moved_eq hmoved) (ih hrest hstream)

/-- The wire carries an event exactly if each of its fields fits, and otherwise names
the first that does not.  The first byte of a message tells the kind of its event, the
message of a tempo change and no other carries a tempo, and two lists of events with
the same stream of bytes differ in nothing but ticks. -/
theorem stream_uniquely_decodable :
    (∀ event : Event, (∃ message, event.encode = .ok message) ↔
      ∀ field ∈ event.fields, field.value ≤ field.limit) ∧
    (∀ (event : Event) (error : EncodeError), event.encode = .error error ↔
      event.misfit?.map Field.refusal = some error) ∧
    (∀ (event : Event) (message : Message), event.encode = .ok message →
      (∃ status data, message.bytes = status :: data ∧ event.HasStatus status) ∧
        message.tempo? = event.micros?) ∧
    ∀ (events others : List Event) (messages otherMessages : List Message),
      List.Forall₂ (fun event message => event.encode = .ok message) events messages →
      List.Forall₂ (fun event message => event.encode = .ok message) others
        otherMessages →
      messages.flatMap Message.bytes = otherMessages.flatMap Message.bytes →
      events.length = others.length ∧
        List.Forall₂ (fun event other => event.moved other.tick = other)
          events others := by
  refine ⟨?_, ?_, ?_, ?_⟩
  · intro event
    rw [← Event.misfit?_eq_none_iff]
    constructor
    · rintro ⟨message, hmessage⟩
      exact (Event.encode_eq_ok_iff.mp hmessage).1
    · intro hfits
      exact ⟨event.message, Event.encode_eq_ok_iff.mpr ⟨hfits, rfl⟩⟩
  · intro event error
    exact Event.encode_eq_error_iff
  · intro event message hmessage
    obtain ⟨status, data, hbytes, hstatus, -⟩ := exists_status hmessage
    exact ⟨⟨status, data, hbytes, hstatus⟩, tempo?_eq_micros? hmessage⟩
  · intro events others messages otherMessages hevents hothers hbytes
    have hall := forall₂_of_bytes_eq hevents hothers hbytes
    exact ⟨hall.length_eq, hall⟩

/-- A tempo whose three bytes all look like status bytes, and a program whose number is
that of the tempo's kind. -/
theorem stream_uniquely_decodable_lookalikes :
    let events : List Event := [.tempoChange 0x90C0FF 4, .programChange 1 0x51 8]
    let others : List Event := [.tempoChange 0x90C0FF 5, .programChange 1 0x51 5]
    let messages : List Message := [.metadata 0x51 0x90 0xC0 0xFF, .short 0xC1 0x51 0]
    List.Forall₂ (fun event message => event.encode = .ok message) events messages ∧
      List.Forall₂ (fun event message => event.encode = .ok message) others messages ∧
      messages.flatMap Message.bytes = [0xFF, 0x51, 3, 0x90, 0xC0, 0xFF, 0xC1, 0x51] ∧
      List.Forall₂ (fun event other => event.moved other.tick = other) events others := by
  intro events others messages
  have hevents :
      List.Forall₂ (fun event message => event.encode = .ok message) events messages :=
    .cons rfl (.cons rfl .nil)
  have hothers :
      List.Forall₂ (fun event message => event.encode = .ok message) others messages :=
    .cons rfl (.cons rfl .nil)
  have hdecodable := stream_uniquely_decodable.2.2.2 events others messages messages
  exact ⟨hevents, hothers, by decide, (hdecodable hevents hothers rfl).2⟩

end Wire

end TextMusic
