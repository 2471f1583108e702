/-
Agreement: a timeline, the document that describes it and a playback of it tell of
the same messages.  A timeline takes nothing that the wire cannot carry, so neither
the document nor the playback ever meets an event without a message.
-/
import TextMusic.Playback
import TextMusic.Proofs.Delivery
import TextMusic.Proofs.Pieces
import TextMusic.Proofs.Request

namespace TextMusic

variable {σ : Type}

/-! ## Timelines hold what the wire can carry -/

theorem Event.fits_iff {event : Event} :
    event.fits = true ↔ ∃ message, event.encode = .ok message := by
  unfold fits
  cases event.encode <;> simp [Except.isOk, Except.toBool]

namespace Timeline

/-- What can be done to a timeline. -/
inductive Edit where
  | append (event : Event)
  | emitNote (channel pitch velocity : UInt8) (length : Nat)
deriving DecidableEq, Repr

def edit (timeline : Timeline) : Edit → Timeline
  | .append event => timeline.append event
  | .emitNote channel pitch velocity length =>
      timeline.emitNote channel pitch velocity length

def editAll (timeline : Timeline) (edits : List Edit) : Timeline :=
  edits.foldl edit timeline

/-- The wire can carry every event. -/
def Encodable (timeline : Timeline) : Prop :=
  ∀ event ∈ timeline.events.toList, ∃ message, event.encode = .ok message

theorem encodable_startingAt (tick : Nat) : (startingAt tick).Encodable := by
  intro event hevent
  simp [startingAt] at hevent

theorem Encodable.append {timeline : Timeline} (h : timeline.Encodable) (event : Event) :
    (timeline.append event).Encodable := by
  unfold Timeline.append
  split_ifs with hfits
  · intro other hother
    simp only [Array.toList_push, List.mem_append, List.mem_singleton] at hother
    rcases hother with hold | rfl
    · exact h other hold
    · exact Event.fits_iff.mp hfits
  · exact h

theorem Encodable.edit {timeline : Timeline} (h : timeline.Encodable) (edit : Edit) :
    (timeline.edit edit).Encodable := by
  cases edit with
  | append event => exact h.append event
  | emitNote channel pitch velocity length => exact (h.append _).append _

theorem Encodable.editAll {timeline : Timeline} (h : timeline.Encodable)
    (edits : List Edit) :
    (timeline.editAll edits).Encodable := by
  induction edits generalizing timeline with
  | nil => exact h
  | cons edit rest ih => exact ih (h.edit edit)

/-- A request is granted by one edit. -/
theorem exists_edit_eq_grant (timeline : Timeline) (request : Request) :
    ∃ edit, timeline.grant request = timeline.edit edit := by
  cases request with
  | tempo micros => exact ⟨.append (.tempoChange micros timeline.cursor), rfl⟩
  | program channel instrument =>
      exact ⟨.append (.programChange channel instrument timeline.cursor), rfl⟩
  | note channel pitch velocity =>
      exact ⟨.emitNote channel pitch velocity noteLength, rfl⟩

theorem Encodable.grant {timeline : Timeline} (h : timeline.Encodable)
    (request : Request) :
    (timeline.grant request).Encodable := by
  obtain ⟨edit, hedit⟩ := timeline.exists_edit_eq_grant request
  rw [hedit]
  exact h.edit edit

end Timeline

/-! ## Schedules pass nothing over -/

/-- The item stands for the event: at its tick, with its message. -/
def Scheduled.StandsFor (item : Scheduled) (event : Event) : Prop :=
  item.tick = event.tick ∧ event.encode = .ok item.message

theorem Schedule.from?_encodable {resolution : UInt16} {clock : Clock}
    {events : List Event} {schedule : List Scheduled}
    (hencodable : ∀ event ∈ events, ∃ message, event.encode = .ok message)
    (h : from? resolution clock events = some schedule) :
    List.Forall₂ Scheduled.StandsFor schedule events := by
  induction events generalizing clock schedule with
  | nil =>
      obtain rfl : [] = schedule := Option.some.inj h
      exact .nil
  | cons event rest ih =>
      rw [List.forall_mem_cons] at hencodable
      obtain ⟨⟨message, hmessage⟩, hrest⟩ := hencodable
      simp only [from?, hmessage] at h
      obtain ⟨due, -, h⟩ := Option.bind_eq_some_iff.mp h
      obtain ⟨later, hlater, h⟩ := Option.bind_eq_some_iff.mp h
      obtain rfl : ⟨due, event.tick, message⟩ :: later = schedule := Option.some.inj h
      exact .cons ⟨rfl, hmessage⟩ (ih hrest hlater)

namespace Playback

variable {β : Type}

theorem ofTimeline_eq_ok {timeline : Timeline} {resolution : UInt16} {playback : Playback}
    (h : ofTimeline timeline resolution = .ok playback) :
    ∃ schedule, Schedule.ofTimeline? timeline resolution = some schedule ∧
      playback = ⟨schedule.toArray, 0, false⟩ := by
  unfold ofTimeline at h
  cases hschedule : Schedule.ofTimeline? timeline resolution with
  | none => simp [hschedule] at h
  | some schedule =>
      simp only [hschedule, Except.ok.injEq] at h
      exact ⟨schedule, rfl, h.symm⟩

/-- Without a pace to keep and without a pause every message is handed over. -/
theorem handOver_unpaused (hear : β → Message → β) (start : Duration) (n : Nat)
    (listener : β) (items : List Scheduled) :
    handOver (fun listener message => (hear listener message, false))
      .immediate start n false listener items =
      ⟨(items.map (·.message)).foldl hear listener, false,
        List.replicate items.length .zero, none⟩ := by
  induction items generalizing n listener with
  | nil => rfl
  | cons item rest ih =>
      have hwait : Pace.immediate.wait? start n item.due = some .zero := rfl
      rw [handOver_cons _ hwait]
      simp only [ih]
      rfl

theorem run_unpaused (schedule : List Scheduled) (hear : β → Message → β) (listener : β) :
    let outcome := (Playback.mk schedule.toArray 0 false).run
      (fun listener message => (hear listener message, false)) .immediate listener
    outcome.listener = (schedule.map (·.message)).foldl hear listener ∧
      outcome.sent = schedule.length ∧ outcome.failure? = none ∧
      outcome.playback.isFinished = true := by
  simp [run, remaining, Outcome.sent, handOver_unpaused, isFinished]

end Playback

/-! ## Documents -/

theorem exists_mapM_encode {events : List Event}
    (hencodable : ∀ event ∈ events, ∃ message, event.encode = .ok message) :
    ∃ messages, events.mapM Event.encode = .ok messages ∧
      List.Forall₂ (fun event message => event.encode = .ok message) events messages := by
  induction events with
  | nil => exact ⟨[], rfl, .nil⟩
  | cons event rest ih =>
      rw [List.forall_mem_cons] at hencodable
      obtain ⟨⟨message, hmessage⟩, hrest⟩ := hencodable
      obtain ⟨messages, hmessages, hall⟩ := ih hrest
      refine ⟨message :: messages, ?_, .cons hmessage hall⟩
      rw [List.mapM_cons, hmessage, hmessages]
      rfl

theorem Document.exists_ofTimeline {timeline : Timeline} (h : timeline.Encodable)
    (program : String) (config : Config) :
    ∃ messages,
      ofTimeline program config timeline = .ok ⟨program, config, timeline, messages⟩ ∧
      List.Forall₂ (fun event message => event.encode = .ok message)
        timeline.events.toList messages := by
  obtain ⟨messages, hmessages, hall⟩ := exists_mapM_encode h
  refine ⟨messages, ?_, hall⟩
  rw [ofTimeline, hmessages]
  rfl

/-- Two readings of the same events have the same messages. -/
theorem messages_eq {schedule : List Scheduled} {events : List Event}
    {messages : List Message}
    (hschedule : List.Forall₂ Scheduled.StandsFor schedule events)
    (hmessages : List.Forall₂ (fun event message => event.encode = .ok message)
      events messages) :
    schedule.map (·.message) = messages := by
  induction hschedule generalizing messages with
  | nil =>
      cases hmessages
      rfl
  | cons hitem hrest ih =>
      cases hmessages with
      | cons hmessage hlater =>
          obtain ⟨-, hitem⟩ := hitem
          rw [hitem] at hmessage
          rw [List.map_cons, ih hlater, Except.ok.inj hmessage]

/-- A fresh playback of a timeline is of the messages of its events. -/
theorem Playback.exists_of_ofTimeline {timeline : Timeline}
    (hencodable : timeline.Encodable) {resolution : UInt16} {playback : Playback}
    (h : ofTimeline timeline resolution = .ok playback) {messages : List Message}
    (hmessages : List.Forall₂ (fun event message => event.encode = .ok message)
      timeline.events.toList messages) :
    ∃ schedule : List Scheduled, playback = ⟨schedule.toArray, 0, false⟩ ∧
      schedule.map (·.message) = messages := by
  obtain ⟨schedule, hschedule, hplayback⟩ := ofTimeline_eq_ok h
  have hitems := Schedule.from?_encodable hencodable hschedule
  exact ⟨schedule, hplayback, messages_eq hitems hmessages⟩

/-! ## Sessions -/

namespace Session

variable [Dice σ]

theorem encodable_feedAll (config : Config) (dice : σ) (text : List Char) :
    ((start config dice).feedAll text).timeline.Encodable := by
  have hgrant : ∀ timeline request, Timeline.Encodable timeline →
      (timeline.grant request).Encodable := fun _ request h => h.grant request
  apply feedAll_timeline_induction hgrant
  rw [timeline_start]
  exact Timeline.grantAll_induction hgrant _
    (Timeline.encodable_startingAt config.startTick) _

end Session

theorem render_sourceOfText [Dice σ] (program : String) (config : Config) (dice : σ) :
    render (sourceOfText program) config dice =
      .ok ((Session.start config dice).feedAll program.toList).timeline := by
  rw [render, Session.readFrom_of_delivers (Decoder.delivers_sourceOfText program)]

/-- The document of a text holds the rendering and a message for each of its events. -/
theorem exists_simulate [Dice σ] (program : String) (config : Config) (dice : σ) :
    let timeline := ((Session.start config dice).feedAll program.toList).timeline
    ∃ messages, simulate program config dice = .ok ⟨program, config, timeline, messages⟩ ∧
      List.Forall₂ (fun event message => event.encode = .ok message)
        timeline.events.toList messages := by
  intro timeline
  have hencodable := Session.encodable_feedAll config dice program.toList
  obtain ⟨messages, hdocument, hmessages⟩ :=
    Document.exists_ofTimeline hencodable program config
  refine ⟨messages, ?_, hmessages⟩
  rw [simulate, render_sourceOfText]
  exact hdocument

end TextMusic
