/-
Memory is a function of the text.  What is remembered after any number of
characters, and what becomes of the next one, is read off the whole text at
once.
-/
import Mathlib.Data.List.Induction
import TextMusic.Session

namespace TextMusic

variable {σ : Type}

/-- The semitone of the last note letter in a text. -/
def lastSemitone? (text : List Char) : Option UInt8 :=
  text.findSomeRev? semitone?

/-- The action of the last bound character in a text. -/
def lastAction? (text : List Char) : Option Action :=
  text.findSomeRev? Action.ofChar?

/-- The characters that an operation feeds to a session. -/
def Operation.characters : Operation → List Char
  | feed c => [c]
  | feedText text => text
  | setInstrument _ => []
  | readFrom source => (Decoder.hear (Decoder.decode (signals source))).1

namespace Memory

@[simp] theorem observeAll_nil (memory : Memory) : memory.observeAll [] = memory := rfl

@[simp] theorem observeAll_cons (memory : Memory) (c : Char) (text : List Char) :
    memory.observeAll (c :: text) = (memory.observe c).observeAll text := rfl

theorem observeAll_append (memory : Memory) (first second : List Char) :
    memory.observeAll (first ++ second) = (memory.observeAll first).observeAll second :=
  List.foldl_append

/-! ## Each part of the memory -/

theorem previousCharacter_observeAll (memory : Memory) (text : List Char) :
    (memory.observeAll text).previousCharacter =
      text.getLastD memory.previousCharacter := by
  induction text generalizing memory with
  | nil => rfl
  | cons c rest ih => rw [observeAll_cons, ih, List.getLastD_cons]; rfl

theorem previousPitch_observeAll (memory : Memory) (text : List Char) :
    (memory.observeAll text).previousPitch =
      (lastSemitone? text).or memory.previousPitch := by
  induction text generalizing memory with
  | nil => rfl
  | cons c rest ih =>
      rw [observeAll_cons, ih]
      simp [lastSemitone?, observe, Option.or_assoc]

theorem action_memo_observeAll (memory : Memory) (text : List Char) :
    (memory.observeAll text).memo.map Binding.action =
      (lastAction? text).or (memory.memo.map Binding.action) := by
  induction text generalizing memory with
  | nil => rfl
  | cons c rest ih =>
      rw [observeAll_cons, ih]
      cases haction : Action.ofChar? c <;>
        simp [lastAction?, observe, bind, haction]

/-- Unbound characters leave the memo as it is. -/
theorem memo_observeAll_of_unbound (memory : Memory) {text : List Char}
    (hunbound : ∀ c ∈ text, Action.ofChar? c = none) :
    (memory.observeAll text).memo = memory.memo := by
  induction text generalizing memory with
  | nil => rfl
  | cons c rest ih =>
      simp only [List.mem_cons, forall_eq_or_imp] at hunbound
      rw [observeAll_cons, ih _ hunbound.2]
      simp [observe, hunbound.1]

theorem memo_observeAll_eq_none_iff (text : List Char) :
    (empty.observeAll text).memo = none ↔ ∀ c ∈ text, Action.ofChar? c = none := by
  rw [← Option.map_eq_none_iff (f := Binding.action), action_memo_observeAll]
  simp [lastAction?, empty]

/-- The last bound character is remembered with what came before it. -/
theorem memo_observeAll_of_last_bound {before after : List Char} {c : Char}
    {action : Action} (hbound : Action.ofChar? c = some action)
    (hunbound : ∀ d ∈ after, Action.ofChar? d = none) :
    (empty.observeAll (before ++ c :: after)).memo =
      some ⟨action, c, before.getLastD '\x00', lastSemitone? before⟩ := by
  rw [observeAll_append, observeAll_cons, memo_observeAll_of_unbound _ hunbound]
  simp [observe, hbound, bind, previousCharacter_observeAll,
    previousPitch_observeAll, empty]

/-! ## The window -/

/-- The window shows the end of the text, behind blanks where the text is too
short. -/
theorem window_observeAll (text : List Char) :
    (empty.observeAll text).window =
      ⟨text.reverse.getD 3 ' ', text.reverse.getD 2 ' ', text.reverse.getD 1 ' ',
        text.reverse.getD 0 ' '⟩ := by
  induction text using List.reverseRecOn with
  | nil => rfl
  | append_singleton text c ih =>
      rw [observeAll_append, observeAll_cons, observeAll_nil, observe, ih]
      simp [Window.push]

theorem push_window_eq_trigger_iff (text : List Char) (c : Char) :
    (empty.observeAll text).window.push c = Window.trigger ↔
      ['B', 'P', 'M', '+'] <:+ text ++ [c] := by
  rw [window_observeAll, ← List.reverse_prefix, List.reverse_append]
  generalize text.reverse = recent
  match recent with
  | [] => simp [Window.push, Window.trigger]
  | [m] => simp [Window.push, Window.trigger]
  | [m, p] => simp [Window.push, Window.trigger]
  | m :: p :: b :: older =>
      simp only [Window.push, Window.trigger, Window.mk.injEq, List.reverse_cons,
        List.reverse_nil, List.nil_append, List.cons_append, List.cons_prefix_cons,
        List.nil_prefix, and_true]
      constructor
      · rintro ⟨rfl, rfl, rfl, rfl⟩
        exact ⟨rfl, rfl, rfl, rfl⟩
      · rintro ⟨rfl, rfl, rfl, rfl⟩
        exact ⟨rfl, rfl, rfl, rfl⟩

/-- What becomes of a character that follows a text. -/
theorem step_react_observeAll (text : List Char) (c : Char) :
    ((empty.observeAll text).react c).step =
      if ['B', 'P', 'M', '+'] <:+ text ++ [c] then .trigger
      else match Action.ofChar? c with
        | some action => .bound action
        | none => match lastAction? text with
          | some action => .replay action
          | none => .ignored := by
  have haction : (empty.observeAll text).memo.map Binding.action = lastAction? text := by
    rw [action_memo_observeAll]
    exact Option.or_none
  rw [← haction, react]
  by_cases htrigger : ['B', 'P', 'M', '+'] <:+ text ++ [c]
  · rw [if_pos htrigger, if_pos ((push_window_eq_trigger_iff text c).mpr htrigger)]
    rfl
  · rw [if_neg htrigger, if_neg (mt (push_window_eq_trigger_iff text c).mp htrigger)]
    cases Action.ofChar? c with
    | some action => rfl
    | none => cases (empty.observeAll text).memo <;> rfl

end Memory

/-! ## Sessions -/

namespace Session

variable [Dice σ]

theorem memory_feedAll (session : Session σ) (text : List Char) :
    (session.feedAll text).memory = session.memory.observeAll text := by
  induction text generalizing session with
  | nil => rfl
  | cons c rest ih => exact ih (session.feed c)

/-- The memory of a session knows nothing but the characters that were fed. -/
theorem memory_performAll (session : Session σ) (operations : List Operation) :
    (session.performAll operations).memory =
      session.memory.observeAll (operations.flatMap Operation.characters) := by
  induction operations generalizing session with
  | nil => rfl
  | cons operation rest ih =>
      have hperform : (session.perform operation).memory =
          session.memory.observeAll operation.characters := by
        cases operation with
        | feed c => rfl
        | feedText text => exact memory_feedAll session text
        | setInstrument instrument => rfl
        | readFrom source => exact memory_feedAll session _
      rw [List.flatMap_cons, Memory.observeAll_append, ← hperform]
      exact ih (session.perform operation)

/-- All that a session remembers, and the step that the next character makes, is
a function of the text fed to it so far, however it was fed and whatever
instruments were set in between. -/
theorem memory_eq_history (config : Config) (dice : σ) (operations : List Operation) :
    let session := (start config dice).performAll operations
    let text := operations.flatMap Operation.characters
    session.memory.previousPitch = lastSemitone? text ∧
      (session.memory.memo = none ↔ ∀ c ∈ text, Action.ofChar? c = none) ∧
      (∀ before c after action, text = before ++ c :: after →
        Action.ofChar? c = some action → (∀ d ∈ after, Action.ofChar? d = none) →
        session.memory.memo =
          some ⟨action, c, before.getLastD '\x00', lastSemitone? before⟩) ∧
      ∀ c, session.stepOf c =
        if ['B', 'P', 'M', '+'] <:+ text ++ [c] then .trigger
        else match Action.ofChar? c with
          | some action => .bound action
          | none => match lastAction? text with
            | some action => .replay action
            | none => .ignored := by
  intro session text
  have hmemory : session.memory = Memory.empty.observeAll text :=
    memory_performAll (start config dice) operations
  refine ⟨?_, ?_, ?_, ?_⟩
  · rw [hmemory, Memory.previousPitch_observeAll]
    exact Option.or_none
  · rw [hmemory]
    exact Memory.memo_observeAll_eq_none_iff text
  · intro before c after action htext hbound hunbound
    rw [hmemory, htext]
    exact Memory.memo_observeAll_of_last_bound hbound hunbound
  · intro c
    rw [stepOf, hmemory]
    exact Memory.step_react_observeAll text c

end Session

end TextMusic
