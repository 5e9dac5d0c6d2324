/-!
Contract: the integers that the variable `rand` yields.

Owns:
- sources given as a list, and sources determined by a seed;
- the keyed block function of the seeded source.

A source is the sequence of its draws.  A seeded source draws the 32-bit words
of a stream cipher with twelve rounds and a block counter from 0, as signed
numbers; its key comes from the seed through a linear congruential generator.
-/

namespace Scriptlet

/-- The draws of a source, first draw at 0. -/
abbrev RandomSource := Nat → Int64

namespace RandomSource

/-- The given integers in order, then zeros. -/
def ofArray (values : Array Int64) : RandomSource :=
  fun draw => values.getD draw 0

/-- Sixteen words. -/
abbrev Words := Vector UInt32 16

/-- Rotates the bits of a word to the left. -/
def rotateLeft (word : UInt32) (amount : UInt32) : UInt32 :=
  (word <<< amount) ||| (word >>> (32 - amount))

/-- Rotates the bits of a word to the right; an amount of zero keeps it. -/
def rotateRight (word : UInt32) (amount : UInt32) : UInt32 :=
  (word >>> amount) ||| (word <<< ((32 - amount) % 32))

/-- Adds the word at `other` to the one at `target`, then rotates the exclusive
or of that sum with the word at `mixed` into `mixed`. -/
def mixStep (words : Words) (target other mixed : Fin 16) (amount : UInt32) : Words :=
  let sum := words[target] + words[other]
  let words := words.set target sum
  words.set mixed (rotateLeft (words[mixed] ^^^ sum) amount)

/-- One quarter round on four words. -/
def quarterRound (words : Words) (a b c d : Fin 16) : Words :=
  let words := mixStep words a b d 16
  let words := mixStep words c d b 12
  let words := mixStep words a b d 8
  mixStep words c d b 7

/-- A round over the columns, then a round over the diagonals. -/
def doubleRound (words : Words) : Words :=
  let words := quarterRound words 0 4 8 12
  let words := quarterRound words 1 5 9 13
  let words := quarterRound words 2 6 10 14
  let words := quarterRound words 3 7 11 15
  let words := quarterRound words 0 5 10 15
  let words := quarterRound words 1 6 11 12
  let words := quarterRound words 2 7 8 13
  quarterRound words 3 4 9 14

/-- The input of a block: four constants, the key, the counter and zeros. -/
def blockInput (key : Vector UInt32 8) (counter : UInt64) : Words :=
  #v[0x61707865, 0x3320646e, 0x79622d32, 0x6b206574,
    key[0], key[1], key[2], key[3], key[4], key[5], key[6], key[7],
    counter.toUInt32, (counter >>> 32).toUInt32, 0, 0]

/-- A block of output words: six double rounds, added to the input. -/
def block (key : Vector UInt32 8) (counter : UInt64) : Words :=
  let input := blockInput key counter
  Vector.zipWith (· + ·) input (Nat.repeat doubleRound 6 input)

/-- The next state of the generator that key words are taken from. -/
def nextSeed (seed : UInt64) : UInt64 :=
  seed * 6364136223846793005 + 11634580027462260723

/-- The key word of a generator state. -/
def keyWord (seed : UInt64) : UInt32 :=
  rotateRight (((seed >>> 18) ^^^ seed) >>> 27).toUInt32 (seed >>> 59).toUInt32

/-- The key of a seed: the words of the next eight generator states. -/
def keyOfSeed (seed : UInt64) : Vector UInt32 8 :=
  Vector.ofFn fun index => keyWord (Nat.repeat nextSeed (index + 1) seed)

/-- The output words of a key as signed integers. -/
def ofKey (key : Vector UInt32 8) : RandomSource :=
  fun draw =>
    ((block key (UInt64.ofNat (draw / 16))).get (Fin.ofNat 16 draw)).toInt32.toInt64

/-- The source determined by a seed. -/
def ofSeed (seed : UInt64) : RandomSource :=
  ofKey (keyOfSeed seed)

end RandomSource

end Scriptlet
