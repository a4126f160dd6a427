import BoundedProbing.Digest

/-!
# Digests of Byte Blocks

Taking a block of bytes into a digest.

A block of up to 16 bytes is covered by two words, one from its front and one
from its back, which overlap unless they meet exactly. A longer block is read
in stripes by several lanes side by side. A stripe gives every lane a word from
its first half and one from its second. While more than 256 bytes remain there
are six lanes; then two of them are xored into the first two, and four go on
while more than 128 bytes remain; then two are left. These read the rest from
both ends towards the middle, the last step overlapping, and are xored
together.

The length of the block goes in as a rotation of the accumulator beforehand.

## Main definitions

* `littleEndian`, `wordAt`: Words out of bytes.
* `shortBlock`, `longBlock`: The two kinds of block.
* `exceeds`: Whether a block is longer than a given size.
* `absorbStripes`, `narrow`: The striped part of a long block.
* `closing`: The end of a long block.
* `Digest.block`: A block taken into a digest.
-/

namespace BoundedProbing

namespace Digest

/-- The word whose bytes, lowest first, are these. -/
def littleEndian (bytes : List UInt8) : UInt64 :=
  bytes.foldr (fun byte word => byte.toUInt64 ||| (word <<< 8)) 0

/-- The eight bytes of a word, lowest first. -/
def bytesOf (word : UInt64) : List UInt8 :=
  (List.range 8).map fun index => (word >>> UInt64.ofNat (8 * index)).toUInt8

/-- The word that starts at an offset. -/
def wordAt (bytes : List UInt8) (offset : Nat) : UInt64 :=
  littleEndian ((bytes.drop offset).take 8)

/-- The accumulator with a block of at most 16 bytes mixed in. -/
def shortBlock (accumulator : UInt64) (bytes : List UInt8) : UInt64 :=
  let size := bytes.length
  let second := laneKeys.headD 0
  if 8 ≤ size then
    foldedProduct (accumulator ^^^ wordAt bytes 0) (second ^^^ wordAt bytes (size - 8))
  else if 4 ≤ size then
    foldedProduct (accumulator ^^^ littleEndian (bytes.take 4))
      (second ^^^ littleEndian (bytes.drop (size - 4)))
  else if 0 < size then
    -- One to three bytes: the first, the middle and the last, which may coincide.
    let middle := bytes.getD (size / 2) 0
    let last := bytes.getD (size - 1) 0
    foldedProduct (accumulator ^^^ (bytes.getD 0 0).toUInt64)
      (second ^^^ littleEndian [middle, last])
  else foldedProduct accumulator second

/-- One stripe: every lane takes a word from the first half and one from the
    second. -/
def absorbStripe (lanes : List UInt64) (bytes : List UInt8) : List UInt64 :=
  lanes.zipIdx.map fun (lane, index) =>
    foldedProduct (wordAt bytes (8 * index) ^^^ lane)
      (wordAt bytes (8 * lanes.length + 8 * index) ^^^ key)

/-- Whether a block has more bytes than a given number. Only so many bytes are
    looked at, however long the block is. -/
def exceeds (bytes : List UInt8) (size : Nat) : Bool :=
  !(bytes.drop size).isEmpty

/-- What `exceeds` sees is the length of the block. -/
theorem exceeds_iff {bytes : List UInt8} {size : Nat} :
    exceeds bytes size = true ↔ size < bytes.length := by
  rw [exceeds, Bool.not_eq_true', ← Bool.not_eq_true, List.isEmpty_iff,
    List.drop_eq_nil_iff, Nat.not_le]

/-- Stripe after stripe, while more than `floor` bytes remain. -/
def absorbStripes (floor : Nat) (lanes : List UInt64) (bytes : List UInt8) :
    List UInt64 × List UInt8 :=
  if _h : exceeds bytes floor ∧ 0 < lanes.length then
    absorbStripes floor (absorbStripe lanes bytes) (bytes.drop (16 * lanes.length))
  else (lanes, bytes)
termination_by bytes.length
decreasing_by
  have hlong := exceeds_iff.mp _h.1
  rw [List.length_drop]
  omega

/-- Two lanes fewer: the last two are xored into the first two. -/
def mergeLanes (lanes : List UInt64) : List UInt64 :=
  let kept := lanes.length - 2
  List.zipWith (· ^^^ ·) (lanes.take 2) (lanes.drop kept) ++ (lanes.take kept).drop 2

/-- Brings a block down to `floor` bytes with all lanes, if it is longer, and
    goes on with two lanes fewer. Lanes that never took a stripe are dropped,
    not merged. -/
def narrow (floor : Nat) (lanes : List UInt64) (bytes : List UInt8) :
    List UInt64 × List UInt8 :=
  if floor < bytes.length then
    let (lanes, bytes) := absorbStripes floor lanes bytes
    (mergeLanes lanes, bytes)
  else (lanes.take (lanes.length - 2), bytes)

/-- One step of the end of a block: each lane takes a word from the front and
    the matching one from the back. -/
def closingStep (bytes : List UInt8) (lanes : List UInt64) (step : Nat) : List UInt64 :=
  lanes.zipIdx.map fun (lane, index) =>
    foldedProduct (wordAt bytes (16 * step + 8 * index) ^^^ lane)
      (wordAt bytes (bytes.length - 16 * (step + 1) + 8 * index) ^^^ key)

/-- The last bytes of a block, at most 128, taken by two lanes from both ends:
    one step, and one more for every full 32 bytes short of 128. -/
def closing (lanes : List UInt64) (bytes : List UInt8) : UInt64 :=
  let steps := min (bytes.length / 32 + 1) 4
  ((List.range steps).foldl (closingStep bytes) lanes).foldl (· ^^^ ·) 0

/-- The accumulator with a block of more than 16 bytes mixed in. -/
def longBlock (accumulator : UInt64) (bytes : List UInt8) : UInt64 :=
  let lanes := accumulator :: laneKeys.map (accumulator + ·)
  let (lanes, bytes) := narrow 256 lanes bytes
  let (lanes, bytes) := narrow 128 lanes bytes
  closing lanes bytes

def rotated (word : UInt64) (amount : Nat) : UInt64 :=
  let amount := UInt64.ofNat (amount % 64)
  (word >>> amount) ||| (word <<< (64 - amount))

/-- Takes in a block of bytes. The sponge is left as it is. -/
def block (digest : Digest) (bytes : List UInt8) : Digest :=
  let turned := rotated digest.accumulator bytes.length
  { digest with
    accumulator := if bytes.length ≤ 16 then shortBlock turned bytes else longBlock turned bytes }

end Digest

end BoundedProbing
