import Mathlib.Data.FinEnum
import Mathlib.Data.Fintype.Card
import Mathlib.Data.Nat.ModEq
import Mathlib.Data.Nat.Prime.Basic
import Mathlib.Data.Set.Function
import Mathlib.Tactic.Ring
import BoundedProbing.Mix

/-!
# Nothing Is Lost in the Scramble

Each step of the scramble can be undone, and so can the chain of them.

Two of the three kinds of step are products. A word plus its own copy shifted
left is the word times one more than a power of two, and the last step is a
product as it stands. Both factors are odd, and an odd factor has no divisor in
common with 2^32, so it may be cancelled. The third kind, a word xored with its
own copy shifted right, goes through a difference: the xor of two words that
the step sends to one word is its own shifted copy, and only zero is that.

What is lost of a key is lost in the fold. A key of 32 bits has an empty upper
half and is not changed by the fold at all. So these keys mix to different
words, and since there are as many of them as words, every word is the mix of
one of them.

## Theorems

* `eq_of_odd_mul_mod_eq`: An odd factor cancels modulo 2^32.
* `shiftAdd_injective`, `shiftXor_injective`: Each kind of step is injective.
* `scramble_injective`, `scramble_bijective`: So is the chain, and it reaches
  every word.
* `mix_eq_mix_iff`: Keys mix alike exactly if they fold alike.
* `eq_of_mix_eq`: Keys of 32 bits mix differently.
* `mix_bijOn`: Each word is the mix of one key of 32 bits.
-/

namespace BoundedProbing

theorem eq_of_odd_mul_mod_eq {factor left right : Nat} (hodd : factor % 2 = 1)
    (hleft : left < 2 ^ 32) (hright : right < 2 ^ 32)
    (h : factor * left % 2 ^ 32 = factor * right % 2 ^ 32) : left = right := by
  have hcoprime : Nat.gcd (2 ^ 32) factor = 1 :=
    Nat.Coprime.pow_left 32 (Nat.coprime_two_left.mpr (Nat.odd_iff.mpr hodd))
  have hmod : left % 2 ^ 32 = right % 2 ^ 32 := Nat.ModEq.cancel_left_of_coprime hcoprime h
  rwa [Nat.mod_eq_of_lt hleft, Nat.mod_eq_of_lt hright] at hmod

variable {amount : UInt32}

/-- Adding the shifted copy is a product. -/
theorem toNat_shiftAdd (hlt : amount.toNat < 32) (word : UInt32) :
    (shiftAdd amount word).toNat = (2 ^ amount.toNat + 1) * word.toNat % 2 ^ 32 := by
  rw [shiftAdd, UInt32.toNat_add, UInt32.toNat_shiftLeft, Nat.mod_eq_of_lt hlt,
    Nat.shiftLeft_eq, Nat.add_mod_mod]
  congr 1
  ring

theorem shiftAdd_injective (hpos : 0 < amount.toNat) (hlt : amount.toNat < 32) :
    Function.Injective (shiftAdd amount) := by
  intro left right h
  have hnat := congrArg UInt32.toNat h
  rw [toNat_shiftAdd hlt, toNat_shiftAdd hlt] at hnat
  -- A positive power of two is even, so its successor is odd.
  have hodd : (2 ^ amount.toNat + 1) % 2 = 1 := by
    rcases Nat.exists_eq_succ_of_ne_zero (Nat.pos_iff_ne_zero.mp hpos) with ⟨lower, hlower⟩
    rw [hlower, pow_succ]
    omega
  exact UInt32.toNat_inj.mp
    (eq_of_odd_mul_mod_eq hodd (UInt32.toNat_lt left) (UInt32.toNat_lt right) hnat)

/-- Only zero is its own copy shifted right. -/
theorem eq_zero_of_shiftRight_eq (hpos : 0 < amount.toNat) (hlt : amount.toNat < 32)
    {word : UInt32} (h : word = word >>> amount) : word = 0 := by
  have hnat := congrArg UInt32.toNat h
  rw [UInt32.toNat_shiftRight, Nat.mod_eq_of_lt hlt, Nat.shiftRight_eq_div_pow] at hnat
  by_contra hne
  have hword : 0 < word.toNat := by
    refine Nat.pos_of_ne_zero fun hzero => hne (UInt32.toNat_inj.mp ?_)
    rw [hzero]
    rfl
  -- A positive number is larger than its half.
  have hless := Nat.div_lt_self hword (Nat.one_lt_two_pow (Nat.pos_iff_ne_zero.mp hpos))
  omega

theorem shiftXor_injective (hpos : 0 < amount.toNat) (hlt : amount.toNat < 32) :
    Function.Injective (shiftXor amount) := by
  intro left right h
  unfold shiftXor at h
  -- The step takes the xor of two words to the xor of their images, which is zero here.
  have hdifference : (left ^^^ right) ^^^ ((left ^^^ right) >>> amount) = 0 := by
    rw [← UInt32.xor_eq_zero_iff.mpr h, UInt32.shiftRight_xor]
    ac_rfl
  rw [UInt32.xor_eq_zero_iff] at hdifference
  exact UInt32.xor_eq_zero_iff.mp (eq_zero_of_shiftRight_eq hpos hlt hdifference)

theorem multiplier_mul_injective : Function.Injective fun word : UInt32 => multiplier * word := by
  intro left right h
  have hnat := congrArg UInt32.toNat h
  simp only [UInt32.toNat_mul] at hnat
  exact UInt32.toNat_inj.mp (eq_of_odd_mul_mod_eq (by decide) (UInt32.toNat_lt left)
    (UInt32.toNat_lt right) hnat)

/-- Every step can be undone, from the last to the first. -/
theorem scramble_injective : Function.Injective scramble := by
  intro left right h
  unfold scramble at h
  have hproduct := multiplier_mul_injective h
  have hfourth := shiftAdd_injective (by decide) (by decide)
    (shiftXor_injective (by decide) (by decide) hproduct)
  have hthird := shiftAdd_injective (by decide) (by decide)
    (shiftXor_injective (by decide) (by decide) hfourth)
  have hsecond := shiftAdd_injective (by decide) (by decide)
    (shiftXor_injective (by decide) (by decide) hthird)
  exact shiftAdd_injective (by decide) (by decide)
    (shiftXor_injective (by decide) (by decide) hsecond)

/-- There are finitely many words, so none is left out. -/
theorem scramble_bijective : Function.Bijective scramble :=
  Finite.injective_iff_bijective.mp scramble_injective

/-- Keys mix alike exactly if they fold alike. -/
theorem mix_eq_mix_iff {left right : UInt64} :
    mix left = mix right ↔ foldHalves left = foldHalves right :=
  scramble_injective.eq_iff

/-- A key of 32 bits is its own fold. -/
theorem toNat_foldHalves {key : UInt64} (h : key.toNat < 2 ^ 32) :
    (foldHalves key).toNat = key.toNat := by
  have hupper : key >>> 32 = 0 := by
    refine UInt64.toNat_inj.mp ?_
    rw [UInt64.toNat_shiftRight, Nat.shiftRight_eq_div_pow]
    exact Nat.div_eq_of_lt h
  rw [foldHalves, hupper, UInt64.xor_zero, UInt64.toNat_toUInt32, Nat.mod_eq_of_lt h]

/-- Keys of 32 bits mix differently. -/
theorem eq_of_mix_eq {left right : UInt64} (hleft : left.toNat < 2 ^ 32)
    (hright : right.toNat < 2 ^ 32) (h : mix left = mix right) : left = right := by
  have hfold := congrArg UInt32.toNat (mix_eq_mix_iff.mp h)
  rw [toNat_foldHalves hleft, toNat_foldHalves hright] at hfold
  exact UInt64.toNat_inj.mp hfold

theorem toNat_toUInt64_lt (word : UInt32) : word.toUInt64.toNat < 2 ^ 32 := by
  rw [UInt32.toNat_toUInt64]
  exact UInt32.toNat_lt word

/-- A word is the fold of the key it is by itself. -/
theorem foldHalves_toUInt64 (word : UInt32) : foldHalves word.toUInt64 = word := by
  rw [← UInt32.toNat_inj, toNat_foldHalves (toNat_toUInt64_lt word), UInt32.toNat_toUInt64]

/-- Each word is the mix of one key of 32 bits. -/
theorem mix_bijOn : Set.BijOn mix {key | key.toNat < 2 ^ 32} Set.univ := by
  refine ⟨fun key _ => Set.mem_univ (mix key),
    fun left hleft right hright h => eq_of_mix_eq hleft hright h, fun word _ => ?_⟩
  rcases scramble_bijective.surjective word with ⟨folded, hfolded⟩
  refine ⟨folded.toUInt64, toNat_toUInt64_lt folded, ?_⟩
  rw [mix, foldHalves_toUInt64, hfolded]

end BoundedProbing
