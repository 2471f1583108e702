/-
The block function behind the random words: twelve rounds of mixing over
sixteen words, as in the ChaCha family of ciphers.
-/

namespace TextMusic

namespace Cipher

/-- The sixteen words that are mixed. -/
abbrev Block := Vector UInt32 16

/-- The eight words that choose a stream of blocks. -/
abbrev Key := Vector UInt32 8

/-- Move the bits of a word up by less than 32 places; those that leave it at the
top come back in at the bottom. -/
def rotateLeft (word places : UInt32) : UInt32 :=
  (word <<< places) ||| (word >>> (32 - places))

/-- Mix four words of a block. -/
def quarterRound (block : Block) (i j k l : Fin 16) : Block :=
  let a := block[i]
  let b := block[j]
  let c := block[k]
  let d := block[l]
  let a := a + b
  let d := rotateLeft (d ^^^ a) 16
  let c := c + d
  let b := rotateLeft (b ^^^ c) 12
  let a := a + b
  let d := rotateLeft (d ^^^ a) 8
  let c := c + d
  let b := rotateLeft (b ^^^ c) 7
  (((block.set i a).set j b).set k c).set l d

/-- Mix the columns of a block, then its diagonals. -/
def doubleRound (block : Block) : Block :=
  let block := quarterRound block 0 4 8 12
  let block := quarterRound block 1 5 9 13
  let block := quarterRound block 2 6 10 14
  let block := quarterRound block 3 7 11 15
  let block := quarterRound block 0 5 10 15
  let block := quarterRound block 1 6 11 12
  let block := quarterRound block 2 7 8 13
  quarterRound block 3 4 9 14

/-- The block before mixing: four constant words, the key, the 64 bit number of
the block with the low word first, and two zero words. -/
def initialBlock (key : Key) (number : Nat) : Block :=
  #v[0x61707865, 0x3320646e, 0x79622d32, 0x6b206574,
     key[0], key[1], key[2], key[3], key[4], key[5], key[6], key[7],
     UInt32.ofNat number, UInt32.ofNat (number / Nat.pow 2 32), 0, 0]

/-- The block of a number: the initial one after six double rounds, added word
by word to itself before them. -/
def block (key : Key) (number : Nat) : Block :=
  let start := initialBlock key number
  let mixed := (List.range 6).foldl (fun block _ => doubleRound block) start
  Vector.zipWith (· + ·) mixed start

end Cipher

end TextMusic
