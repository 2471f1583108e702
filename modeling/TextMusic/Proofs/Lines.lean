/-
Lines: what is written of a JSON value holds no control character, so that each line of a
journal is that of one event, and a journal that was written at all was written whole.
-/
import Mathlib.Data.List.Forall2
import TextMusic.Journal

namespace TextMusic

namespace Json

/-- A text without control characters. -/
def Plain (text : List Char) : Prop :=
  ∀ c ∈ text, 0x20 ≤ c.toNat

@[simp] theorem plain_nil : Plain [] := nofun

@[simp] theorem plain_cons {c : Char} {rest : List Char} :
    Plain (c :: rest) ↔ 0x20 ≤ c.toNat ∧ Plain rest :=
  List.forall_mem_cons

@[simp] theorem plain_append {front back : List Char} :
    Plain (front ++ back) ↔ Plain front ∧ Plain back :=
  List.forall_mem_append

theorem Plain.newline_not_mem {text : List Char} (h : Plain text) :
    '\n' ∉ text := fun hmem =>
  absurd (h '\n' hmem) (by decide)

theorem plain_digits (digits : List Digit) : Plain (digits.map digitChar) := by
  have hdigit : ∀ digit, 0x20 ≤ (digitChar digit).toNat := by decide
  intro c hc
  obtain ⟨digit, -, rfl⟩ := List.mem_map.mp hc
  exact hdigit digit

theorem plain_writeUnit (unit : Nat) : Plain (writeUnit unit) := by
  have hhex : ∀ n < 16, 0x20 ≤ (hexChar n).toNat := by decide
  have hlast : ∀ n, 0x20 ≤ (hexChar (n % 16)).toNat := fun n =>
    hhex _ (Nat.mod_lt n (by decide))
  simp only [writeUnit, plain_cons, hlast, plain_nil]
  decide

theorem plain_writeSymbol (symbol : Symbol) : Plain (writeSymbol symbol) := by
  fun_cases writeSymbol symbol
  case case8 => exact plain_writeUnit _
  case case9 c _ _ _ _ _ _ _ hc =>
      rw [plain_cons]
      exact ⟨Nat.le_of_not_lt hc, plain_nil⟩
  case case10 => exact plain_writeUnit _
  -- what is left is escaped by name
  all_goals simp

theorem plain_writeText (symbols : List Symbol) : Plain (writeText symbols) := by
  have hsymbols : Plain (symbols.flatMap writeSymbol) := by
    intro c hc
    obtain ⟨symbol, -, hc⟩ := List.mem_flatMap.mp hc
    exact plain_writeSymbol symbol c hc
  simp [writeText, hsymbols]

theorem plain_writeNumber (number : Number) : Plain number.write := by
  have hsign : ∀ negative : Bool, 0x20 ≤ (if negative then '-' else '+').toNat := by
    decide
  obtain ⟨negative, whole, fraction, exponent⟩ := number
  have hnegative : Plain (if negative then ['-'] else []) := by cases negative <;> simp
  have hfraction :
      Plain (if fraction = [] then [] else '.' :: fraction.map digitChar) := by
    split <;> simp [plain_digits]
  cases exponent with
  | none => simp [Number.write, hnegative, hfraction, plain_digits]
  | some exponent => simp [Number.write, hnegative, hfraction, hsign, plain_digits]

theorem plain_separated {items : List (List Char)} (h : ∀ item ∈ items, Plain item) :
    Plain (separated items) := by
  fun_induction separated items with
  | case1 => exact plain_nil
  | case2 item => exact h item (List.mem_singleton.mpr rfl)
  | case3 item rest hrest ih =>
      rw [List.forall_mem_cons] at h
      simp [h.1, ih h.2]

mutual

theorem plain_write : ∀ value : Json, Plain value.write
  | .null => by simp [write]
  | .bool true => by simp [write]
  | .bool false => by simp [write]
  | .number value => plain_writeNumber value
  | .text value => plain_writeText value
  | .array items => by
      simp [write, plain_separated (plain_writeItems items)]
  | .object members => by
      simp [write, plain_separated (plain_writeMembers members)]

theorem plain_writeItems : ∀ (items : List Json), ∀ text ∈ writeItems items, Plain text
  | [] => nofun
  | item :: rest => List.forall_mem_cons.mpr ⟨plain_write item, plain_writeItems rest⟩

theorem plain_writeMembers :
    ∀ (members : List (List Symbol × Json)), ∀ text ∈ writeMembers members, Plain text
  | [] => nofun
  | (name, value) :: rest => by
      refine List.forall_mem_cons.mpr ⟨?_, plain_writeMembers rest⟩
      simp [plain_writeText name, plain_write value]

end

end Json

namespace Journal

theorem newline_not_mem_entry (event : Event) : '\n' ∉ (entry event).write :=
  (Json.plain_write (entry event)).newline_not_mem

theorem text_append (front back : List Event) :
    text (front ++ back) = text front ++ text back :=
  List.flatMap_append

/-- A text as lines: each is the entry of an event and ends with the one newline it
has. -/
theorem text_eq_lines (events : List Event) :
    ∃ lines : List (List Char),
      text events = lines.flatMap (· ++ ['\n']) ∧
        List.Forall₂
          (fun event line => line = (entry event).write ∧ '\n' ∉ line) events lines := by
  refine ⟨events.map fun event => (entry event).write, ?_, ?_⟩
  · rw [text, List.flatMap_map]
    rfl
  · rw [List.forall₂_map_right_iff, List.forall₂_same]
    exact fun event _ => ⟨rfl, newline_not_mem_entry event⟩

end Journal

/-! ## Writing -/

theorem utf8Bytes_append (front back : List Char) :
    utf8Bytes (front ++ back) = utf8Bytes front ++ utf8Bytes back := by
  simp [utf8Bytes]

namespace Writer

/-- Whether there is room for a number of bytes. -/
def HasRoom (writer : Writer) (count : Nat) : Prop :=
  ∀ room ∈ writer.room, count ≤ room

/-- A writer behind bytes that it had room for. -/
def behind (writer : Writer) (bytes : List UInt8) : Writer :=
  { writer with
    room := writer.room.map (· - bytes.length)
    written := writer.written ++ bytes }

theorem behind_nil (writer : Writer) : writer.behind [] = writer := by
  simp [behind]

theorem behind_append (writer : Writer) (front back : List UInt8) :
    writer.behind (front ++ back) = (writer.behind front).behind back := by
  have hwritten : writer.written ++ (front ++ back) = writer.written ++ front ++ back :=
    Array.toList_inj.mp (by simp)
  simp [behind, Function.comp_def, Nat.sub_sub, hwritten]

theorem hasRoom_append (writer : Writer) (front back : List UInt8) :
    writer.HasRoom (front ++ back).length ↔
      writer.HasRoom front.length ∧ (writer.behind front).HasRoom back.length := by
  cases hroom : writer.room with
  | none => simp [HasRoom, behind, hroom]
  | some room =>
      simp only [HasRoom, behind, hroom, List.length_append, Option.mem_def,
        Option.some.injEq, Option.map_some, forall_eq']
      omega

/-- Bytes are taken without a failure if there is room for all of them. -/
theorem writeAll_ok_iff {writer last : Writer} {bytes : List UInt8} :
    writer.writeAll bytes = (.ok (), last) ↔
      writer.HasRoom bytes.length ∧ last = writer.behind bytes := by
  cases hroom : writer.room with
  | none => simp [writeAll, HasRoom, behind, hroom, eq_comm]
  | some room =>
      by_cases hfits : bytes.length ≤ room
      · simp [writeAll, HasRoom, behind, hroom, hfits, List.take_of_length_le, eq_comm]
      · simp [writeAll, HasRoom, hroom, hfits]

end Writer

namespace Journal

/-- Lines are written without a failure if there is room for all of them. -/
theorem logAll_ok_iff {writer last : Writer} {events : List Event} :
    logAll writer events = (.ok (), last) ↔
      writer.HasRoom (utf8Bytes (text events)).length ∧
        last = writer.behind (utf8Bytes (text events)) := by
  induction events generalizing writer with
  | nil =>
      have hroom : writer.HasRoom 0 := fun _ _ => Nat.zero_le _
      simp [logAll, text, utf8Bytes, hroom, Writer.behind_nil, eq_comm]
  | cons event rest ih =>
      have htext : utf8Bytes (text (event :: rest)) =
          utf8Bytes (line event) ++ utf8Bytes (text rest) :=
        utf8Bytes_append (line event) (text rest)
      rw [htext, Writer.hasRoom_append, Writer.behind_append, and_assoc, ← ih, logAll]
      rcases hfirst : log writer event with ⟨failure | ⟨⟩, next⟩
      · have hroom : ¬ writer.HasRoom (utf8Bytes (line event)).length := by
          intro hroom
          have hok := Writer.writeAll_ok_iff.mpr ⟨hroom, rfl⟩
          rw [← log, hfirst] at hok
          simp at hok
        simp [hroom]
      · obtain ⟨hroom, rfl⟩ := Writer.writeAll_ok_iff.mp hfirst
        simp [hroom]

/-- The journal of a timeline is written without a failure if there is room for it and
what is written is passed on, and then it is written whole. -/
theorem logTimeline_ok_iff {writer last : Writer} {timeline : Timeline} :
    logTimeline writer timeline = (.ok (), last) ↔
      (writer.HasRoom (utf8Bytes (text timeline.events.toList)).length ∧
        writer.flushFails = false) ∧
        last = writer.behind (utf8Bytes (text timeline.events.toList)) := by
  rw [logTimeline]
  rcases hlines : logAll writer timeline.events.toList with ⟨failure | ⟨⟩, next⟩
  · have hroom : ¬ writer.HasRoom (utf8Bytes (text timeline.events.toList)).length := by
      intro hroom
      have hok := logAll_ok_iff.mpr ⟨hroom, rfl⟩
      rw [hlines] at hok
      simp at hok
    simp [hroom]
  · obtain ⟨hroom, rfl⟩ := logAll_ok_iff.mp hlines
    cases hflush : writer.flushFails <;>
      simp [hroom, Writer.flush, Writer.behind, hflush, eq_comm]

end Journal

end TextMusic
