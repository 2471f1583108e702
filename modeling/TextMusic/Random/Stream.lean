/-
A stream of random words that a seed determines, and uniform draws from it.
-/
import TextMusic.Dice
import TextMusic.Random.Cipher

namespace TextMusic

/-- The words of all blocks of a key, one after the other, of which some have
been drawn. -/
structure RandomStream where
  key : Cipher.Key
  drawn : Nat
deriving DecidableEq

namespace RandomStream

/-! ## From a seed -/

/-- The state behind the key words moves on by one multiplication and one
addition. -/
def nextState (state : UInt64) : UInt64 :=
  state * 6364136223846793005 + 11634580027462260723

/-- The key word of a state: its high bits are folded onto the middle ones, and
the topmost say how far the result is rotated. -/
def keyWord (state : UInt64) : UInt32 :=
  let folded := (((state >>> 18) ^^^ state) >>> 27).toUInt32
  let turn := (state >>> 59).toUInt32
  (folded >>> turn) ||| (folded <<< ((32 - turn) % 32))

/-- The first key words behind a state. -/
def keyWords : Nat → UInt64 → List UInt32
  | 0, _ => []
  | n + 1, state => keyWord (nextState state) :: keyWords n (nextState state)

theorem length_keyWords (n : Nat) (state : UInt64) : (keyWords n state).length = n := by
  induction n generalizing state with
  | zero => rfl
  | succ n ih => simp [keyWords, ih]

def ofSeed (seed : UInt64) : RandomStream :=
  ⟨⟨(keyWords 8 seed).toArray, by simp [length_keyWords]⟩, 0⟩

/-! ## Words and draws -/

/-- Draw a word. -/
def word (stream : RandomStream) : UInt32 × RandomStream :=
  let block := Cipher.block stream.key (stream.drawn / 16)
  (block[stream.drawn % 16], { stream with drawn := stream.drawn + 1 })

/-- Draw two words as one of 64 bits, the low one first. -/
def doubleWord (stream : RandomStream) : UInt64 × RandomStream :=
  let (low, stream) := stream.word
  let (high, stream) := stream.word
  (high.toUInt64 <<< 32 ||| low.toUInt64, stream)

/-- The words of a key start over after this many. -/
def period : Nat := Nat.pow 2 68

/-- Draw until a draw is accepted.  After a whole period the same draws come
again, so that none is accepted later if none was before. -/
def firstAccepted {α : Type} (fallback : α)
    (draw : RandomStream → Option α × RandomStream) :
    Nat → RandomStream → α × RandomStream
  | 0, stream => (fallback, stream)
  | n + 1, stream =>
      match draw stream with
      | (some value, stream) => (value, stream)
      | (none, stream) => firstAccepted fallback draw n stream

/-- A draw below `span` from a word of `bits` bits: the high half of the product
of both, accepted only when the low half is at most `zone`, which makes all
outcomes equally likely. -/
def spread (bits span zone word : Nat) : Option Nat :=
  let product := word * span
  if product % Nat.pow 2 bits ≤ zone then some (product / Nat.pow 2 bits) else none

def letter (stream : RandomStream) : Fin 8 × RandomStream :=
  firstAccepted 0 (fun stream =>
    let (word, stream) := stream.doubleWord
    ((spread 64 8 (Nat.pow 2 63 - 1) word.toNat).map (Fin.ofNat 8), stream)) period stream

def program (stream : RandomStream) : Fin 127 × RandomStream :=
  firstAccepted 0 (fun stream =>
    let (word, stream) := stream.word
    let zone := Nat.pow 2 32 - 1 - (Nat.pow 2 32 - 127) % 127
    ((spread 32 127 zone word.toNat).map (Fin.ofNat 127), stream)) period stream

end RandomStream

instance : Dice RandomStream where
  letter := RandomStream.letter
  program := RandomStream.program

end TextMusic
