/-
Sinks: each console in a sink prints the line of every message it is given, each memory
keeps every message, and how many there are of both is settled by the names that the sink
is made of.  Lines tell their messages apart and end where they break.
-/
import Mathlib.Data.List.Forall2
import TextMusic.Decimal.Digits
import TextMusic.Sink

namespace TextMusic

/-! ## Lines -/

theorem toString_byte (byte : UInt8) : toString byte = byte.toNat.repr := rfl

/-- A byte in a text ends where something comes that is no digit. -/
theorem byte_append_cons_inj {c : Char} (hc : c.isDigit = false) {left right : UInt8}
    {rest later : List Char}
    (h : left.toNat.repr.toList ++ c :: rest = right.toNat.repr.toList ++ c :: later) :
    left = right ∧ rest = later := by
  have hdigits : ∀ (n : Nat) (behind : List Char),
      (n.repr.toList ++ c :: behind).takeWhile Char.isDigit = n.repr.toList := by
    intro n behind
    rw [List.takeWhile_append_of_pos fun _ => isDigit_of_mem_repr,
      List.takeWhile_cons_of_neg (by simp [hc]), List.append_nil]
  have hnumber := congrArg (List.takeWhile Char.isDigit) h
  rw [hdigits, hdigits] at hnumber
  rw [hnumber, List.append_cancel_left_eq, List.cons.injEq] at h
  exact ⟨UInt8.toNat_inj.mp (repr_inj (String.toList_injective hnumber)), h.2⟩

namespace Message

theorem toList_describe_short (status data1 data2 : UInt8) :
    (describe (.short status data1 data2)).toList =
      "Short(".toList ++ (status.toNat.repr.toList ++ ',' :: ' ' ::
        (data1.toNat.repr.toList ++ ',' :: ' ' ::
          (data2.toNat.repr.toList ++ [')']))) := by
  simp [describe, toString_byte]

theorem toList_describe_metadata (kind high middle low : UInt8) :
    (describe (.metadata kind high middle low)).toList =
      "Meta(".toList ++ (kind.toNat.repr.toList ++ ',' :: ' ' :: '[' ::
        (high.toNat.repr.toList ++ ',' :: ' ' ::
          (middle.toNat.repr.toList ++ ',' :: ' ' ::
            (low.toNat.repr.toList ++ [']', ')'])))) := by
  simp [describe, toString_byte]

/-- A description tells its message, whatever comes behind it. -/
theorem eq_of_describe_append {left right : Message} {rest later : List Char}
    (h : left.describe.toList ++ rest = right.describe.toList ++ later) :
    left = right := by
  cases left with
  | short status data1 data2 =>
      cases right with
      | short status' data1' data2' =>
          simp only [toList_describe_short, List.append_assoc, List.cons_append,
            List.append_cancel_left_eq] at h
          obtain ⟨hstatus, hbehind⟩ := byte_append_cons_inj rfl h
          obtain ⟨hdata1, hlast⟩ := byte_append_cons_inj rfl (List.cons.inj hbehind).2
          obtain ⟨hdata2, -⟩ := byte_append_cons_inj rfl (List.cons.inj hlast).2
          rw [hstatus, hdata1, hdata2]
      | metadata kind high middle low =>
          rw [toList_describe_short, toList_describe_metadata] at h
          exact absurd (List.cons.inj h).1 (by decide)
  | metadata kind high middle low =>
      cases right with
      | short status data1 data2 =>
          rw [toList_describe_short, toList_describe_metadata] at h
          exact absurd (List.cons.inj h).1 (by decide)
      | metadata kind' high' middle' low' =>
          simp only [toList_describe_metadata, List.append_assoc, List.cons_append,
            List.append_cancel_left_eq] at h
          obtain ⟨hkind, hbehind⟩ := byte_append_cons_inj rfl h
          have hbytes := (List.cons.inj (List.cons.inj hbehind).2).2
          obtain ⟨hhigh, hbehind⟩ := byte_append_cons_inj rfl hbytes
          obtain ⟨hmiddle, hlast⟩ := byte_append_cons_inj rfl (List.cons.inj hbehind).2
          obtain ⟨hlow, -⟩ := byte_append_cons_inj rfl (List.cons.inj hlast).2
          rw [hkind, hhigh, hmiddle, hlow]

theorem newline_not_mem_describe (message : Message) :
    '\n' ∉ message.describe.toList := by
  have hnumber : ∀ n : Nat, '\n' ∉ n.repr.toList := not_mem_repr rfl
  cases message with
  | short status data1 data2 => simp [-Nat.toList_repr, toList_describe_short, hnumber]
  | metadata kind high middle low =>
      simp [-Nat.toList_repr, toList_describe_metadata, hnumber]

end Message

namespace Sink

theorem newline_not_mem_hexByte (byte : UInt8) : '\n' ∉ (hexByte byte).toList := by
  have hdigit : ∀ n < 16, hexByte.hexDigit n ≠ '\n' := by decide
  have hhigh := hdigit (byte.toNat / 16) (Nat.div_lt_of_lt_mul byte.toNat_lt)
  have hlow := hdigit (byte.toNat % 16) (Nat.mod_lt _ (by decide))
  simp [hexByte, hhigh.symm, hlow.symm]

theorem newline_not_mem_intercalate {parts : List (List Char)}
    (h : ∀ part ∈ parts, '\n' ∉ part) : '\n' ∉ [' '].intercalate parts := by
  induction parts with
  | nil => simp
  | cons part rest ih =>
      cases rest with
      | nil => simpa using h
      | cons second later =>
          rw [List.forall_mem_cons] at h
          rw [List.intercalate_cons_cons]
          simp [h.1, ih h.2]

/-- A line ends in its only newline. -/
theorem exists_line_eq (message : Message) :
    ∃ front, (line message).toList = front ++ ['\n'] ∧ '\n' ∉ front := by
  refine ⟨message.describe.toList ++ ' ' :: '[' ::
    ((" ".intercalate (message.bytes.map hexByte)).toList ++ [']']), ?_, ?_⟩
  · simp [line]
  · have hbytes :
        '\n' ∉ [' '].intercalate (message.bytes.map (String.toList ∘ hexByte)) :=
      newline_not_mem_intercalate
        (List.forall_mem_map.mpr fun byte _ => newline_not_mem_hexByte byte)
    simp [message.newline_not_mem_describe, hbytes]

/-- A line tells its message, whatever comes behind it. -/
theorem line_append_inj {left right : Message} {rest later : List Char}
    (h : (line left).toList ++ rest = (line right).toList ++ later) :
    left = right ∧ rest = later := by
  have hdescribed := h
  simp only [line, String.toList_append, List.append_assoc] at hdescribed
  obtain rfl := Message.eq_of_describe_append hdescribed
  exact ⟨rfl, List.append_cancel_left h⟩

/-- Lines one after the other tell their messages. -/
theorem lines_injective :
    Function.Injective fun messages : List Message =>
      messages.flatMap fun message => (line message).toList := by
  have hne : ∀ message rest, (line message).toList ++ rest ≠ [] := by
    intro message rest hnil
    obtain ⟨front, hline, -⟩ := exists_line_eq message
    simp [hline] at hnil
  intro left right h
  induction left generalizing right with
  | nil =>
      cases right with
      | nil => rfl
      | cons message rest => exact absurd h.symm (hne message _)
  | cons message rest ih =>
      cases right with
      | nil => exact absurd h (hne message _)
      | cons other later =>
          obtain ⟨rfl, hrest⟩ := line_append_inj h
          rw [ih hrest]

/-- The names of the console. -/
def isConsoleName (name : String) : Bool :=
  name = "console" || name = ""

/-- A text several times over. -/
def repeated (n : Nat) (text : String) : String :=
  String.join (List.replicate n text)

mutual

/-- How many consoles there are in a sink. -/
def consoles : Sink → Nat
  | .console => 1
  | .null => 0
  | .memory _ => 0
  | .composite inner => consolesAll inner

def consolesAll : List Sink → Nat
  | [] => 0
  | sink :: rest => consoles sink + consolesAll rest

end

theorem repeated_add (m n : Nat) (text : String) :
    repeated (m + n) text = repeated m text ++ repeated n text := by
  rw [repeated, List.replicate_add, String.join_append]
  rfl

/-! ## What becomes of messages -/

/-- The whole effect of a message on a sink. -/
structure Takes (message : Message) (before : Sink) (printed : String) (behind : Sink) :
    Prop where
  printed_eq : printed = repeated before.consoles (line message)
  consoles_eq : behind.consoles = before.consoles
  memories_eq : behind.memories = before.memories.map (· ++ [message])

mutual

theorem takes_process (message : Message) :
    ∀ sink : Sink, Takes message sink (process message sink).2 (process message sink).1
  | .console => ⟨by simp [process, consoles, repeated], rfl, rfl⟩
  | .null => ⟨rfl, rfl, rfl⟩
  | .memory kept => ⟨rfl, rfl, by simp [process, memories]⟩
  | .composite inner => takes_processAll message inner

theorem takes_processAll (message : Message) :
    ∀ inner : List Sink, Takes message (.composite inner) (processAll message inner).2
      (.composite (processAll message inner).1)
  | [] => ⟨rfl, rfl, rfl⟩
  | sink :: rest => by
      have hsink := takes_process message sink
      have hrest := takes_processAll message rest
      refine ⟨?_, ?_, ?_⟩
      · rw [consoles, consolesAll, repeated_add]
        exact congrArg₂ (· ++ ·) hsink.printed_eq hrest.printed_eq
      · exact congrArg₂ (· + ·) hsink.consoles_eq hrest.consoles_eq
      · refine (congrArg₂ (· ++ ·) hsink.memories_eq hrest.memories_eq).trans ?_
        exact List.map_append.symm

end

/-- Of several messages each is printed once by every console, and every memory keeps them
all, in order. -/
theorem processEach_eq (sink : Sink) (messages : List Message) :
    (processEach sink messages).2 =
        messages.map (fun message => repeated sink.consoles (line message)) ∧
      (processEach sink messages).1.memories = sink.memories.map (· ++ messages) := by
  induction messages generalizing sink with
  | nil => simp [processEach]
  | cons message rest ih =>
      have hfirst := takes_process message sink
      obtain ⟨hprinted, hmemories⟩ := ih (process message sink).1
      rw [hfirst.consoles_eq] at hprinted
      rw [hfirst.memories_eq, List.map_map] at hmemories
      constructor
      · rw [List.map_cons, ← hfirst.printed_eq, ← hprinted]
        rfl
      · refine hmemories.trans (List.map_congr_left fun kept _ => ?_)
        exact List.append_assoc kept [message] rest

/-! ## Sinks of names -/

/-- A sink of a name is new: it keeps nothing yet. -/
theorem ofName_ok {name : String} {sink : Sink} (h : ofName name = .ok sink) :
    sink.consoles = (if isConsoleName name then 1 else 0) ∧
      sink.memories = List.replicate (if name = "memory" then 1 else 0) [] := by
  rw [ofName] at h
  split_ifs at h with hconsole hnull hmemory
  · cases h
    rcases hconsole with rfl | rfl <;> exact ⟨rfl, rfl⟩
  · cases h
    subst hnull
    exact ⟨rfl, rfl⟩
  · cases h
    subst hmemory
    exact ⟨rfl, rfl⟩

theorem mapM_eq_ok_iff {names : List String} {sinks : List Sink} :
    names.mapM ofName = .ok sinks ↔
      List.Forall₂ (fun name sink => ofName name = .ok sink) names sinks := by
  induction names generalizing sinks with
  | nil => cases sinks <;> simp [pure, Except.pure]
  | cons name rest ih =>
      rw [List.mapM_cons]
      cases hname : ofName name with
      | error error => cases sinks <;> simp [hname, bind, Except.bind]
      | ok sink =>
          cases hrest : rest.mapM ofName with
          | error error => cases sinks <;> simp [hname, hrest, ← ih, bind, Except.bind]
          | ok later =>
              cases sinks <;>
                simp [hname, hrest, ← ih, bind, Except.bind, pure, Except.pure]

/-- Sinks of names, taken together, have as many consoles and memories as are named. -/
theorem composite_ofName {names : List String} {sinks : List Sink}
    (h : List.Forall₂ (fun name sink => ofName name = .ok sink) names sinks) :
    (composite sinks).consoles = names.countP isConsoleName ∧
      (composite sinks).memories = List.replicate (names.count "memory") [] := by
  induction h with
  | nil => exact ⟨rfl, rfl⟩
  | @cons name sink rest later hname hrest ih =>
      obtain ⟨hconsoles, hmemories⟩ := ofName_ok hname
      constructor
      · rw [List.countP_cons, Nat.add_comm]
        exact congrArg₂ (· + ·) hconsoles ih.1
      · rw [List.count_cons, Nat.add_comm, List.replicate_add]
        simp only [beq_iff_eq]
        exact congrArg₂ (· ++ ·) hmemories ih.2

/-- Several sinks as one: a single sink stands for itself. -/
def together : List Sink → Sink
  | [sink] => sink
  | sinks => .composite sinks

theorem together_consoles (sinks : List Sink) :
    (together sinks).consoles = (composite sinks).consoles := by
  rcases sinks with _ | ⟨sink, _ | ⟨second, rest⟩⟩ <;> rfl

theorem together_memories (sinks : List Sink) :
    (together sinks).memories = (composite sinks).memories := by
  rcases sinks with _ | ⟨sink, _ | ⟨second, rest⟩⟩
  · rfl
  · exact (List.append_nil sink.memories).symm
  · rfl

theorem ofNames_of_mapM {names : String} {sinks : List Sink}
    (h : (listedNames names).mapM ofName = .ok sinks) :
    ofNames names = .ok (together sinks) := by
  rw [ofNames, h]
  rcases sinks with _ | ⟨sink, _ | ⟨second, rest⟩⟩ <;> rfl

/-- A list of names is the sinks of its names, in order, as one. -/
theorem ofNames_eq_ok_iff {names : String} {sink : Sink} :
    ofNames names = .ok sink ↔
      ∃ sinks,
        List.Forall₂ (fun name sink => ofName name = .ok sink) (listedNames names) sinks ∧
        sink = together sinks := by
  cases hsinks : (listedNames names).mapM ofName with
  | error error => simp [ofNames, ← mapM_eq_ok_iff, hsinks, bind, Except.bind]
  | ok sinks =>
      simp only [ofNames_of_mapM hsinks, ← mapM_eq_ok_iff, hsinks, Except.ok.injEq,
        exists_eq_left']
      exact eq_comm

/-- A list of names makes as many consoles and memories as it names. -/
theorem ofNames_ok {names : String} {sink : Sink} (h : ofNames names = .ok sink) :
    sink.consoles = (listedNames names).countP isConsoleName ∧
      sink.memories = List.replicate ((listedNames names).count "memory") [] := by
  obtain ⟨sinks, hsinks, rfl⟩ := ofNames_eq_ok_iff.mp h
  rw [together_consoles, together_memories]
  exact composite_ofName hsinks

end Sink

end TextMusic
