import BoundedProbing.Text.Hex

/-!
# Faults

The ways an operation on a table or a set can be refused.

A key that is not stored is no fault: a look-up or a removal simply answers
with nothing. A fault says which request could not be met, and its message
carries every number of the fault, so that the text determines the fault.

## Main definitions

* `Fault`: The causes.
* `Fault.message`: The text of a fault.
-/

namespace BoundedProbing

/-- Why an operation was refused. -/
inductive Fault where
  /-- An array of this many slots is more than may be allocated. -/
  | outOfMemory (slots : Nat)
  /-- No power of two that fits in 64 bits lies beyond this capacity. -/
  | capacityOverflow (capacity : Nat)
  /-- The window of this key is full of keys that mix to the same word, so no
      capacity can make room for it. -/
  | windowSaturated (key : UInt64)
  /-- There is no slot with this index. -/
  | indexOutOfRange (index capacity : Nat)
  /-- Two items called equal have these different hashes. -/
  | contractViolation (left right : UInt64)
  deriving Repr, DecidableEq, Inhabited

/-- The text of a fault. -/
def Fault.message : Fault → String
  | .outOfMemory slots => s!"failed to allocate a table of {slots} slots"
  | .capacityOverflow capacity => s!"table capacity overflowed growing past {capacity} slots"
  | .windowSaturated key =>
    "probe window of key " ++ Text.hexWord key ++ " is full of keys with the same mix"
  | .indexOutOfRange index capacity =>
    s!"slot index {index} is out of range for a table of {capacity} slots"
  | .contractViolation left right =>
    "equivalent items hash to different identities (" ++ Text.hexWord left ++ " != "
      ++ Text.hexWord right ++ ")"

end BoundedProbing
