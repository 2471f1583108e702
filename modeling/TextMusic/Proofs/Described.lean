/-
Described: the text of a document is read back as an object whose members hold the
program, where the timeline has ended, its events and their messages, so that the text
tells all of these.
-/
import TextMusic.Proofs.OwnText

namespace TextMusic

open Json

/-- The value of the first member of that name. -/
def Json.member? (name : String) : Json → Option Json
  | .object members =>
      (members.find? fun entry => entry.1 == name.toList.map Symbol.scalar).map Prod.snd
  | _ => none

theorem Message.toJson_injective : Function.Injective toJson := by
  intro left right h
  cases left <;> cases right <;> simp_all [toJson, toJson.numbers, UInt8.toNat_inj]

namespace Document

/-- What is found in the object of a document. -/
structure Described (document : Document) (value : Json) : Prop where
  program : value.member? "program" = some (.ofString document.program)
  config : value.member? "config" = some document.config.toJson
  cursor : value.member? "cursor" = some (.ofNat document.timeline.cursor)
  dropped : value.member? "dropped" = some (.ofNat document.timeline.dropped)
  /-- The events of the timeline, in order. -/
  events : value.member? "events" =
    some (.array (document.timeline.events.toList.map Event.toJson))
  /-- The messages, in order. -/
  messages : value.member? "messages" =
    some (.array (document.messages.map Message.toJson))

theorem described_toJson (document : Document) : document.Described document.toJson where
  program := rfl
  config := rfl
  cursor := rfl
  dropped := rfl
  events := rfl
  messages := rfl

/-- The text of a document is read back as its description. -/
theorem exists_described (document : Document) :
    ∃ value, read? document.toJson.render.toList = some value ∧
      document.Described value :=
  ⟨document.toJson, document.read?_render, document.described_toJson⟩

/-- One object describes one program, one timeline and its messages. -/
theorem Described.unique {document other : Document} {value : Json}
    (h : document.Described value) (hother : other.Described value) :
    other.program = document.program ∧ other.timeline = document.timeline ∧
      other.messages = document.messages := by
  have hprogram : ofString other.program = ofString document.program :=
    Option.some.inj (hother.program.symm.trans h.program)
  have hcursor : ofNat other.timeline.cursor = ofNat document.timeline.cursor :=
    Option.some.inj (hother.cursor.symm.trans h.cursor)
  have hdropped : ofNat other.timeline.dropped = ofNat document.timeline.dropped :=
    Option.some.inj (hother.dropped.symm.trans h.dropped)
  have hevents := Json.array.inj (Option.some.inj (hother.events.symm.trans h.events))
  have hmessages :=
    Json.array.inj (Option.some.inj (hother.messages.symm.trans h.messages))
  refine ⟨ofString_inj.mp hprogram, ?_, Message.toJson_injective.list_map hmessages⟩
  have hsame := Array.toList_inj.mp (Event.toJson_injective.list_map hevents)
  exact (Timeline.mk.injEq _ _ _ _ _ _).mpr
    ⟨hsame, ofNat_inj.mp hcursor, ofNat_inj.mp hdropped⟩

/-- The text of a document tells its program, its timeline and its messages. -/
theorem of_render_eq {document other : Document}
    (h : other.toJson.render = document.toJson.render) :
    other.program = document.program ∧ other.timeline = document.timeline ∧
      other.messages = document.messages := by
  obtain ⟨value, hread, hvalue⟩ := document.exists_described
  obtain ⟨second, hsecond, hother⟩ := other.exists_described
  rw [h, hread] at hsecond
  obtain rfl := Option.some.inj hsecond
  exact hvalue.unique hother

end Document

end TextMusic
