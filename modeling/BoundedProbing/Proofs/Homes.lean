import Mathlib.Data.Nat.Bitwise
import BoundedProbing.Proofs.Mixing

/-!
# Homes at Every Size

Which keys meet at every size of table, and where a key goes when a table
doubles.

In an array whose size is a power of two, the home of a key is made of the low
bits of its mix. So every doubling uncovers one more bit. The key keeps its home
or moves up by the old size, depending on that bit, and it never goes anywhere
else. At 2^32 slots all bits are uncovered, and the home is the mix itself.

Hence keys that meet at every size are those that mix alike. The scramble loses
nothing, so they are the keys whose halves fold to the same word, and no key of
32 bits is among them twice.

## Theorems

* `home_eq_mix`: The home in a large array.
* `home_eq_add_home`: The home in an array made of blocks of a smaller size.
* `home_two_pow_succ`, `home_two_mul`: The home after a doubling.
* `homes_eq_iff`: Keys meet at every size exactly if they mix alike.
* `mix_eq_mix_iff_mod`: Keys mix alike exactly if the low halves of their folds
  are equal.
* `keys_meet_iff_fold_alike`: All of it, for keys and sizes of 64 bits.
-/

namespace BoundedProbing

variable {left right : UInt64}

theorem home_eq_mix (key : UInt64) {capacity : Nat} (h : 2 ^ 32 ≤ capacity) :
    home key capacity = (mix key).toNat :=
  Nat.mod_eq_of_lt (Nat.lt_of_lt_of_le (UInt32.toNat_lt (mix key)) h)

/-- In a larger array, a key's home is at the same place of one of the blocks
    that are as large as the smaller one. -/
theorem home_eq_add_home {smaller larger : Nat} (h : smaller ∣ larger) (key : UInt64) :
    home key larger = smaller * (home key larger / smaller) + home key smaller := by
  have hmod : home key larger % smaller = home key smaller := Nat.mod_mod_of_dvd _ h
  rw [← hmod, Nat.div_add_mod]

/-- A doubling uncovers one more bit of the mix. -/
theorem home_two_pow_succ (key : UInt64) (exponent : Nat) :
    home key (2 ^ (exponent + 1)) =
      home key (2 ^ exponent) + 2 ^ exponent * ((mix key).toNat.testBit exponent).toNat := by
  rw [home, home, Nat.mod_pow_succ, Nat.toNat_testBit]

/-- After a doubling a key is at home where it was, or further up by the old
    size. -/
theorem home_two_mul (key : UInt64) (exponent : Nat) :
    home key (2 * 2 ^ exponent) = home key (2 ^ exponent) ∨
      home key (2 * 2 ^ exponent) = home key (2 ^ exponent) + 2 ^ exponent := by
  rw [← Nat.pow_succ', home_two_pow_succ]
  cases (mix key).toNat.testBit exponent with
  | false => exact Or.inl (by rw [Bool.toNat_false, Nat.mul_zero, Nat.add_zero])
  | true => exact Or.inr (by rw [Bool.toNat_true, Nat.mul_one])

/-- Keys meet at every size of 64 bits exactly if they mix alike. -/
theorem homes_eq_iff : (∀ exponent < 64, home left (2 ^ exponent) = home right (2 ^ exponent)) ↔
    mix left = mix right := by
  constructor
  · intro h
    -- One size is enough, the one that has a slot for every word.
    have hlarge := h 32 (by decide)
    rw [home_eq_mix left (Nat.le_refl (2 ^ 32)), home_eq_mix right (Nat.le_refl (2 ^ 32))] at hlarge
    exact UInt32.toNat_inj.mp hlarge
  · intro h exponent _
    exact home_eq_of_mix_eq h (2 ^ exponent)

/-- The fold in numbers: the low half of a key xored with its upper half. -/
theorem mix_eq_mix_iff_mod : mix left = mix right ↔
    (left ^^^ (left >>> 32)).toNat % 2 ^ 32 = (right ^^^ (right >>> 32)).toNat % 2 ^ 32 := by
  rw [mix_eq_mix_iff, ← UInt32.toNat_inj, foldHalves, foldHalves, UInt64.toNat_toUInt32,
    UInt64.toNat_toUInt32]

/-- Keys mix alike exactly if their halves fold to the same word, so the keys of
    32 bits mix to all words, each to its own. Keys have the same home at every
    size exactly if they fold alike. The home of a key is made of the low bits of
    its mix, so it lies in the array, and a doubling keeps it or moves it up by
    the old size. -/
theorem keys_meet_iff_fold_alike :
    (∀ left right : UInt64, mix left = mix right ↔
      (left ^^^ (left >>> 32)).toNat % 2 ^ 32 = (right ^^^ (right >>> 32)).toNat % 2 ^ 32) ∧
    Set.BijOn mix {key | key.toNat < 2 ^ 32} Set.univ ∧
    (∀ left right : UInt64,
      (∀ exponent < 64, home left (2 ^ exponent) = home right (2 ^ exponent)) ↔
        (left ^^^ (left >>> 32)).toNat % 2 ^ 32 = (right ^^^ (right >>> 32)).toNat % 2 ^ 32) ∧
    ∀ (key : UInt64) (exponent : Nat),
      home key (2 ^ exponent) = (mix key).toNat &&& (2 ^ exponent - 1) ∧
      home key (2 ^ exponent) < 2 ^ exponent ∧
      (home key (2 * 2 ^ exponent) = home key (2 ^ exponent) ∨
        home key (2 * 2 ^ exponent) = home key (2 ^ exponent) + 2 ^ exponent) := by
  refine ⟨fun left right => mix_eq_mix_iff_mod, mix_bijOn,
    fun left right => homes_eq_iff.trans mix_eq_mix_iff_mod, fun key exponent => ?_⟩
  exact ⟨(Nat.and_two_pow_sub_one_eq_mod (mix key).toNat exponent).symm,
    home_lt key (Nat.two_pow_pos exponent), home_two_mul key exponent⟩

end BoundedProbing
