/-!
# Digests

A running 64-bit digest of the parts of a value.

The digest multiplies two words into 128 bits and xors the halves together;
that product is the only mixing there is. Small numbers are not mixed one by
one. They are collected in a sponge of 128 bits, which is mixed in when the
next number does not fit any more and once more at the end. A number of 128
bits fills a sponge by itself and is mixed in at once.

The start value and the keys are fixed, so equal values have equal digests in
every run.

## Main definitions

* `foldedProduct`: The mixing of two words.
* `Digest`: The state, with `Digest.start`.
* `Digest.number`, `Digest.wide`: Taking in a number.
* `Digest.finish`: The digest of what was taken in.
-/

namespace BoundedProbing

/-- The product of two words, its high half xored into its low half. -/
def foldedProduct (left right : UInt64) : UInt64 :=
  let product := left.toNat * right.toNat
  UInt64.ofNat product ^^^ UInt64.ofNat (product / UInt64.size)

/-- The state of a digest. -/
structure Digest where
  /-- What has been mixed in so far. -/
  accumulator : UInt64
  /-- Numbers still to be mixed in, the earliest in the lowest bits. -/
  sponge : BitVec 128
  /-- How many bits of the sponge are in use. -/
  filled : Nat
  deriving Repr, DecidableEq

namespace Digest

/-- The key the high half of every product is xored with. -/
def key : UInt64 := 0xc0ac29b7c97c50dd

/-- The keys that tell the lanes of a long block apart. -/
def laneKeys : List UInt64 :=
  [0x3f84d5b5b5470917, 0x9216d5d98979fb1b, 0xd1310ba698dfb5ac, 0x2ffd72dbd01adfb7,
    0xb8e1afed6a267e96]

/-- A digest that has taken in nothing. -/
def start : Digest :=
  ⟨0x243f6a8885a308d3 ^^^ 0x082efa98ec4e6c89, 0, 0⟩

/-- The accumulator with 128 bits mixed in. -/
def mixed (accumulator : UInt64) (bits : BitVec 128) : UInt64 :=
  foldedProduct (UInt64.ofNat bits.toNat ^^^ accumulator)
    (UInt64.ofNat (bits.toNat / UInt64.size) ^^^ key)

/-- Takes in a number of the given width in bits, at most 64. -/
def number (digest : Digest) (width : Nat) (value : UInt64) : Digest :=
  let bits := BitVec.ofNat 128 value.toNat
  if 128 < digest.filled + width then
    ⟨mixed digest.accumulator digest.sponge, bits, width⟩
  else
    ⟨digest.accumulator, digest.sponge ||| (bits <<< digest.filled), digest.filled + width⟩

/-- Takes in a number of 128 bits. The sponge is left as it is. -/
def wide (digest : Digest) (value : BitVec 128) : Digest :=
  { digest with accumulator := mixed digest.accumulator value }

/-- The digest of what was taken in. -/
def finish (digest : Digest) : UInt64 :=
  if 0 < digest.filled then mixed digest.accumulator digest.sponge else digest.accumulator

end Digest

end BoundedProbing
