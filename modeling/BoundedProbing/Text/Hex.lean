/-!
# Hexadecimal Words

A 64-bit word is written as `0x` and sixteen lower-case digits, leading zeros
included, so that equal texts mean equal words and all of them line up.

## Main definitions

* `hexDigits`: A fixed number of digits, most significant first.
* `hexWord`: The text of a 64-bit word.

## Theorems

* `length_hexDigits`: The number of digits is the width.
-/

namespace BoundedProbing

namespace Text

/-- The lowest `width` hexadecimal digits of a number, most significant
    first. -/
def hexDigits : (width : Nat) → (number : Nat) → List Char
  | 0, _ => []
  | width + 1, number => hexDigits width (number / 16) ++ [Nat.digitChar (number % 16)]

/-- A 64-bit word as `0x` and sixteen digits. -/
def hexWord (word : UInt64) : String :=
  "0x" ++ String.ofList (hexDigits 16 word.toNat)

@[simp] theorem length_hexDigits (width number : Nat) :
    (hexDigits width number).length = width := by
  induction width generalizing number with
  | zero => rfl
  | succ width ih => rw [hexDigits, List.length_append, ih, List.length_singleton]

end Text

end BoundedProbing
