/-
What is remembered of the characters read so far, and what the next character
therefore stands for.  Nothing here depends on how the performance sounds.
-/
import TextMusic.Action

namespace TextMusic

/-! ## The window -/

/-- The last four characters, the oldest first. -/
structure Window where
  first : Char
  second : Char
  third : Char
  fourth : Char
deriving DecidableEq, Repr

namespace Window

def blank : Window := ⟨' ', ' ', ' ', ' '⟩

def push (window : Window) (c : Char) : Window :=
  ⟨window.second, window.third, window.fourth, c⟩

/-- These four characters in a row raise the tempo. -/
def trigger : Window := ⟨'B', 'P', 'M', '+'⟩

end Window

/-! ## Memory -/

/-- What a performer remembers of the characters read so far. -/
structure Memory where
  window : Window
  previousCharacter : Char
  /-- The semitone of the last note letter. -/
  previousPitch : Option UInt8
  /-- The last bound character, as it was bound. -/
  memo : Option Binding
deriving DecidableEq, Repr

/-- What a character stands for. -/
inductive Reaction where
  /-- It completes the tempo trigger. -/
  | trigger
  /-- It is bound to an action. -/
  | bound (binding : Binding)
  /-- It is not bound and stands for the last bound one. -/
  | replay (binding : Binding)
  /-- It is not bound, and no bound one has come before it. -/
  | ignored
deriving DecidableEq, Repr

/-- What became of a character, as told to the caller. -/
inductive Step where
  | trigger
  | bound (action : Action)
  | replay (action : Action)
  | ignored
deriving DecidableEq, Repr

def Reaction.step : Reaction → Step
  | trigger => .trigger
  | bound binding => .bound binding.action
  | replay binding => .replay binding.action
  | ignored => .ignored

/-- The binding that is carried out, if any is. -/
def Reaction.binding? : Reaction → Option Binding
  | bound binding | replay binding => some binding
  | trigger | ignored => none

namespace Memory

/-- Nothing has been read. -/
def empty : Memory :=
  ⟨Window.blank, '\x00', none, none⟩

/-- A character with what is known just before it. -/
def bind (memory : Memory) (action : Action) (c : Char) : Binding :=
  ⟨action, c, memory.previousCharacter, memory.previousPitch⟩

/-- What the next character stands for.  The trigger comes before the action of
its last character. -/
def react (memory : Memory) (c : Char) : Reaction :=
  if memory.window.push c = Window.trigger then .trigger
  else match Action.ofChar? c with
    | some action => .bound (memory.bind action c)
    | none => match memory.memo with
      | some binding => .replay binding
      | none => .ignored

/-- The memory behind the next character.  A bound character is remembered with
what was known before it, even when it completes the trigger. -/
def observe (memory : Memory) (c : Char) : Memory where
  window := memory.window.push c
  previousCharacter := c
  previousPitch := (semitone? c).or memory.previousPitch
  memo := ((Action.ofChar? c).map (memory.bind · c)).or memory.memo

/-- The memory behind a text. -/
def observeAll (memory : Memory) (text : List Char) : Memory :=
  text.foldl observe memory

end Memory

example : (Memory.empty.observeAll ['B', 'P', 'M']).react '+' = .trigger := by
  decide

example : (Memory.empty.observeAll ['D', 'o', 'x']).react 'y' =
    .replay ⟨.repeatNote, 'o', 'D', some 2⟩ := by
  decide

end TextMusic
