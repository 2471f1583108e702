/-
Record: a journal has one line for each event, in order, and each line is read back as the
object of its event, so that the text of a journal tells which events it is of.
-/
import TextMusic.Proofs.Lines
import TextMusic.Proofs.Pieces
import TextMusic.Proofs.RoundTrip

namespace TextMusic

/-! ## Events as objects -/

namespace Event

theorem legible_toJson (event : Event) : event.toJson.Legible := by
  cases event <;>
    simp [toJson, toJson.note, Json.legible_object_iff, Json.legible_ofNat]

theorem toJson_injective : Function.Injective toJson := by
  intro left right h
  cases left <;> cases right <;>
    simp_all [toJson, toJson.note, UInt8.toNat_inj, UInt32.toNat_inj]

end Event

namespace Journal

/-! ## Lines -/

/-- The kinds of events, with the name that the data of each has and the tag of its
line. -/
def kinds : List (String × String) :=
  [("NoteOn", "note_on"), ("NoteOff", "note_off"), ("ProgramChange", "program"),
    ("TempoChange", "tempo")]

/-- The object of a line: it tags the kind of its data and has the tick of its data. -/
structure Describes (value : Json) (event : Event) (name : String)
    (fields : List (List Json.Symbol × Json)) : Prop where
  data : event.toJson = .object [Json.member name (.object fields)]
  tick : Json.member "tick" (.ofNat event.tick) ∈ fields
  tag : (name, event.tag) ∈ kinds
  value : value = .object
    [ Json.member "tick" (.ofNat event.tick),
      Json.member "tag" (.ofString event.tag),
      Json.member "data" (.object [Json.member name (.object fields)]) ]

theorem entry_describes (event : Event) :
    ∃ name fields, Describes (entry event) event name fields := by
  cases event <;> exact ⟨_, _, rfl, by simp [Event.tick], by simp [kinds, Event.tag], rfl⟩

theorem legible_entry (event : Event) : (entry event).Legible := by
  simp [entry, Json.legible_object_iff, Json.legible_ofNat, Json.legible_ofString,
    Event.legible_toJson]

theorem read?_entry (event : Event) :
    Json.read? (entry event).write = some (entry event) :=
  Json.read?_write (legible_entry event)

/-- The line of an event tells which event it is of. -/
theorem write_entry_injective : Function.Injective fun event => (entry event).write := by
  intro left right h
  have hentry := Json.write_injective (legible_entry left) (legible_entry right) h
  simp only [entry, Json.object.injEq, List.cons.injEq, Json.member_inj] at hentry
  exact Event.toJson_injective hentry.2.2.1.2

/-! ## Texts -/

theorem text_cons (event : Event) (rest : List Event) :
    text (event :: rest) = (entry event).write ++ '\n' :: text rest := by
  simp [text, line]

/-- Between the newlines of a text are the objects of its events, and behind the last
newline there is nothing. -/
theorem splitOn_text (events : List Event) :
    (text events).splitOn '\n' =
      events.map (fun event => (entry event).write) ++ [[]] := by
  induction events with
  | nil => rfl
  | cons event rest ih =>
      rw [text_cons,
        List.splitOn_append_cons_self_of_not_mem (newline_not_mem_entry event), ih]
      rfl

theorem count_newline_text (events : List Event) :
    (text events).count '\n' = events.length := by
  induction events with
  | nil => rfl
  | cons event rest ih =>
      have hentry := List.count_eq_zero.mpr (newline_not_mem_entry event)
      rw [text_cons, List.count_append, hentry, List.count_cons_self, ih, Nat.zero_add]
      rfl

theorem text_injective : Function.Injective text := by
  intro left right h
  have hlines := congrArg (List.splitOn '\n') h
  rw [splitOn_text, splitOn_text, List.append_left_inj] at hlines
  exact write_entry_injective.list_map hlines

/-- Each line is read back as an object that describes its event. -/
theorem lines_describe (events : List Event) :
    ∃ lines, (text events).splitOn '\n' = lines ++ [[]] ∧
      List.Forall₂ (fun event line => ∃ value name fields,
        Json.read? line = some value ∧
          Describes value event name fields) events lines := by
  refine ⟨_, splitOn_text events, ?_⟩
  rw [List.forall₂_map_right_iff, List.forall₂_same]
  intro event _
  obtain ⟨name, fields, hentry⟩ := entry_describes event
  exact ⟨entry event, name, fields, read?_entry event, hentry⟩

/-! ## Whole journals -/

theorem logTimeline_fst_eq_ok_iff (writer : Writer) (timeline : Timeline) :
    (logTimeline writer timeline).1 = .ok () ↔
      writer.HasRoom (utf8Bytes (text timeline.events.toList)).length ∧
        writer.flushFails = false := by
  constructor
  · intro hok
    exact (logTimeline_ok_iff.mp (Prod.ext hok rfl)).1
  · intro htakes
    exact congrArg Prod.fst (logTimeline_ok_iff.mpr ⟨htakes, rfl⟩)

theorem written_of_logTimeline_ok {writer : Writer} {timeline : Timeline}
    (h : (logTimeline writer timeline).1 = .ok ()) :
    (logTimeline writer timeline).2.written =
      writer.written ++ utf8Bytes (text timeline.events.toList) :=
  congrArg Writer.written (logTimeline_ok_iff.mp (Prod.ext h rfl)).2

/-- A journal is a faithful record.  A writer that has room for it and passes it on takes
it without a failure, and no other writer does; its lines are as many as the events, and
each is read back as the object of its event; the bytes of a journal tell the events, and
those of events one after the other are their journals one after the other. -/
theorem logTimeline_faithful (timeline : Timeline) :
    (∀ writer, ((logTimeline writer timeline).1 = .ok () ↔
        writer.HasRoom (utf8Bytes (text timeline.events.toList)).length ∧
          writer.flushFails = false) ∧
      ((logTimeline writer timeline).1 = .ok () →
        (logTimeline writer timeline).2.written =
          writer.written ++ utf8Bytes (text timeline.events.toList))) ∧
    (text timeline.events.toList).count '\n' = timeline.events.size ∧
    (∃ lines, (text timeline.events.toList).splitOn '\n' = lines ++ [[]] ∧
      List.Forall₂ (fun event line => ∃ value name fields,
        Json.read? line = some value ∧ Describes value event name fields)
        timeline.events.toList lines) ∧
    (∀ other : Timeline,
      utf8Bytes (text other.events.toList) = utf8Bytes (text timeline.events.toList) →
        other.events = timeline.events) ∧
    ∀ more : Array Event,
      utf8Bytes (text (timeline.events ++ more).toList) =
        utf8Bytes (text timeline.events.toList) ++ utf8Bytes (text more.toList) := by
  refine ⟨?_, count_newline_text timeline.events.toList,
    lines_describe timeline.events.toList, ?_, ?_⟩
  · intro writer
    exact ⟨logTimeline_fst_eq_ok_iff writer timeline, written_of_logTimeline_ok⟩
  · intro other h
    exact Array.toList_inj.mp (text_injective (utf8Bytes_injective h))
  · intro more
    rw [Array.toList_append, text_append, utf8Bytes_append]

end Journal

end TextMusic
