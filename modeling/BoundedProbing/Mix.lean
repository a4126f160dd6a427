/-!
# Mixing Keys

Where a key lives in a table of a given size.

A key has 64 bits and a slot array far fewer places, so the key is first
folded to one 32-bit word and then scrambled, and its home is what the
scrambled word leaves when divided by the size of the array.

The scramble is written as a chain of two kinds of step, each of which can be
undone: adding a word to a left-shifted copy of itself, and xoring a word with
a right-shifted copy of itself. The last step multiplies by an odd number,
which can be undone too. So nothing is lost after the fold, and two keys meet
at every size of table exactly when their halves fold to the same word.

## Main definitions

* `foldHalves`: One word out of the two halves of a key.
* `shiftAdd`, `shiftXor`: The two kinds of invertible step.
* `scramble`: The chain of steps.
* `mix`: A key's scrambled word.
* `home`: The place a key asks for first in an array of a given size.

## Theorems

* `home_lt`: A home lies inside its array.
* `home_eq_of_mix_eq`: Keys that mix alike share a home at every size.
-/

namespace BoundedProbing

/-- The two halves of a key, xored into one word. Keys that differ only in
    their high halves still fold apart. -/
def foldHalves (key : UInt64) : UInt32 :=
  (key ^^^ (key >>> 32)).toUInt32

/-- A word plus its own copy shifted left, wrapping at 32 bits. -/
def shiftAdd (amount word : UInt32) : UInt32 :=
  word + (word <<< amount)

/-- A word xored with its own copy shifted right. -/
def shiftXor (amount word : UInt32) : UInt32 :=
  word ^^^ (word >>> amount)

/-- The odd multiplier of the last step, a prime number near 2^32 divided by the
    golden ratio. -/
def multiplier : UInt32 := 2654435761

/-- Eight shifted steps and one multiplication. Every step is a bijection of
    the 32-bit words, and so is the chain. -/
def scramble (word : UInt32) : UInt32 :=
  let word := shiftXor 22 (shiftAdd 12 word)
  let word := shiftXor 9 (shiftAdd 4 word)
  let word := shiftXor 2 (shiftAdd 10 word)
  let word := shiftXor 12 (shiftAdd 7 word)
  -- A product unfolds along its second factor, so the constant comes first.
  multiplier * word

/-- The scrambled word of a key. -/
def mix (key : UInt64) : UInt32 :=
  scramble (foldHalves key)

/-- The place a key asks for first in an array of `capacity` slots. -/
def home (key : UInt64) (capacity : Nat) : Nat :=
  (mix key).toNat % capacity

theorem home_lt (key : UInt64) {capacity : Nat} (h : 0 < capacity) :
    home key capacity < capacity :=
  Nat.mod_lt _ h

/-- Keys that mix to the same word share a home at every size. -/
theorem home_eq_of_mix_eq {left right : UInt64} (h : mix left = mix right) (capacity : Nat) :
    home left capacity = home right capacity := by
  rw [home, home, h]

end BoundedProbing
