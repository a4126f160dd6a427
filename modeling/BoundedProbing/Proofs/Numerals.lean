import Mathlib.Data.List.Basic
import Mathlib.Data.Nat.Digits.Defs
import BoundedProbing.Text.Hex

/-!
# Numerals

What a numeral is worth, whoever wrote it, and that there is one way to write a
word and one to write a count.

A numeral is read without regard to how it came about. A character is worth its
place among the sixteen digits, and a row of characters is worth what its digits
are worth in the base. Two numerals of one base that have the same length and
the same worth are the same text. A word always has sixteen digits, and of the
numerals of a count the shortest is written, so neither leaves a choice.

A numeral inside a text must also end somewhere. The end of a word is known from
its length. A count goes on as long as there are digits, so it ends at the space
behind it.

## Main definitions

* `digitValue`, `numeralValue`: The worth of a character and of a row of them.
* `Spells`: A row of digits with its worth.
* `IsHexWord`: The text of a 64-bit word.
* `IsDecimal`: The shortest decimal numeral of a number.

## Theorems

* `Spells.eq_of_length_eq`: Numerals of one length and worth are the same.
* `spells_hexDigits`, `spells_toDigits`: The worth of a fixed number of digits,
  and of the digits without leading zeros.
* `isHexWord_hexWord`, `isDecimal_toString`: The texts of a word and of a count.
* `IsHexWord.text_unique`, `IsDecimal.text_unique`: There are no others.
* `IsHexWord.append_inj`, `IsDecimal.append_inj`: Where a numeral ends in a text.
-/

namespace BoundedProbing

namespace Text

/-- The digits of the bases up to sixteen, each at the place of its worth. -/
def digitChars : List Char :=
  ['0', '1', '2', '3', '4', '5', '6', '7', '8', '9', 'a', 'b', 'c', 'd', 'e', 'f']

/-- What a character is worth. One that is no digit is worth sixteen, which is
    more than any digit. -/
def digitValue (char : Char) : Nat :=
  digitChars.idxOf char

/-- What a row of characters is worth, the most significant one first. -/
def numeralValue (base : Nat) (numeral : List Char) : Nat :=
  Nat.ofDigits base (numeral.reverse.map digitValue)

/-- A row of digits of a base that is worth the number. -/
structure Spells (base : Nat) (numeral : List Char) (number : Nat) : Prop where
  lt_base : ∀ char ∈ numeral, digitValue char < base
  value_eq : numeralValue base numeral = number

/-- The text is `0x` and sixteen hexadecimal digits that are worth the word. -/
def IsHexWord (word : UInt64) (text : String) : Prop :=
  ∃ digits, text.toList = '0' :: 'x' :: digits ∧ digits.length = 16 ∧
    Spells 16 digits word.toNat

/-- The text is a decimal numeral of the number, and no numeral of that number
    is shorter. -/
structure IsDecimal (number : Nat) (text : String) : Prop where
  ne_nil : text.toList ≠ []
  spells : Spells 10 text.toList number
  shortest : ∀ numeral, numeral ≠ [] → Spells 10 numeral number →
    text.toList.length ≤ numeral.length

section Digits

variable {base number : Nat} {char : Char} {numeral left right rest : List Char}

theorem digitValue_digitChar : ∀ value < 16, digitValue (Nat.digitChar value) = value := by
  decide

/-- A digit can be told from its worth. -/
theorem digitChar_digitValue (h : digitValue char < 16) :
    Nat.digitChar (digitValue char) = char := by
  have hmem : char ∈ digitChars := List.idxOf_lt_length_iff.mp h
  exact ((List.idxOf_inj hmem).mp (digitValue_digitChar (digitValue char) h).symm).symm

theorem numeralValue_concat (base : Nat) (numeral : List Char) (char : Char) :
    numeralValue base (numeral ++ [char]) = base * numeralValue base numeral + digitValue char := by
  rw [numeralValue, List.reverse_concat, List.map_cons, Nat.ofDigits_cons, Nat.add_comm]
  rfl

theorem spells_nil (base : Nat) : Spells base [] 0 :=
  ⟨fun _ hmem => absurd hmem List.not_mem_nil, rfl⟩

/-- One more digit behind a numeral. -/
theorem Spells.concat (h : Spells base numeral number) {digit : Nat} (hlt : digit < base)
    (hle : base ≤ 16) : Spells base (numeral ++ [Nat.digitChar digit]) (base * number + digit) := by
  have hdigit : digitValue (Nat.digitChar digit) = digit :=
    digitValue_digitChar digit (Nat.lt_of_lt_of_le hlt hle)
  refine ⟨fun char hmem => ?_, ?_⟩
  · rcases List.mem_append.mp hmem with hearlier | hlast
    · exact h.lt_base char hearlier
    · rw [List.mem_singleton.mp hlast, hdigit]
      exact hlt
  · rw [numeralValue_concat, h.value_eq, hdigit]

theorem Spells.map_lt (h : Spells base numeral number) :
    ∀ value ∈ numeral.reverse.map digitValue, value < base := by
  intro value hmem
  rcases List.mem_map.mp hmem with ⟨char, hchar, rfl⟩
  exact h.lt_base char (List.mem_reverse.mp hchar)

/-- A numeral of so many digits is worth less than that power of the base. -/
theorem Spells.lt_pow (h : Spells base numeral number) (hone : 1 < base) :
    number < base ^ numeral.length := by
  have hlt := Nat.ofDigits_lt_base_pow_length hone h.map_lt
  rw [List.length_map, List.length_reverse] at hlt
  rwa [← h.value_eq]

/-- A numeral can be told from the worth of its digits. -/
theorem Spells.map_digitChar (h : Spells base numeral number) (hle : base ≤ 16) :
    (numeral.reverse.map digitValue).map Nat.digitChar = numeral.reverse := by
  rw [List.map_map]
  refine (List.map_congr_left fun char hmem => ?_).trans (List.map_id _)
  exact digitChar_digitValue
    (Nat.lt_of_lt_of_le (h.lt_base char (List.mem_reverse.mp hmem)) hle)

/-- Numerals of one length and worth are the same. -/
theorem Spells.eq_of_length_eq (hl : Spells base left number) (hr : Spells base right number)
    (hone : 1 < base) (hle : base ≤ 16) (hlength : left.length = right.length) : left = right := by
  have hvalues : left.reverse.map digitValue = right.reverse.map digitValue :=
    Nat.ofDigits_inj_of_len_eq hone
      (by rw [List.length_map, List.length_map, List.length_reverse, List.length_reverse, hlength])
      hl.map_lt hr.map_lt (hl.value_eq.trans hr.value_eq.symm)
  rw [← List.reverse_inj, ← hl.map_digitChar hle, ← hr.map_digitChar hle, hvalues]

/-- Digits in front of a space are the longest beginning that is made of digits. -/
theorem Spells.takeWhile_append (h : Spells base numeral number) (hle : base ≤ 16)
    (hrest : rest.head? = some ' ') :
    (numeral ++ rest).takeWhile (digitValue · < base) = numeral := by
  rcases List.head?_eq_some_iff.mp hrest with ⟨tail, rfl⟩
  have hspace : ¬ digitValue ' ' < base := Nat.not_lt.mpr hle
  rw [List.takeWhile_append_of_pos fun char hmem => decide_eq_true (h.lt_base char hmem),
    List.takeWhile_cons_of_neg (by rwa [decide_eq_true_eq]), List.append_nil]

/-- A fixed number of digits keeps what the number leaves of that power of the
    base. -/
theorem spells_hexDigits (width number : Nat) :
    Spells 16 (hexDigits width number) (number % 16 ^ width) := by
  induction width generalizing number with
  | zero =>
      rw [Nat.pow_zero, Nat.mod_one]
      exact spells_nil 16
  | succ width ih =>
      rw [Nat.pow_succ', Nat.mod_mul, Nat.add_comm (number % 16)]
      exact (ih (number / 16)).concat (Nat.mod_lt number (by decide)) (Nat.le_refl 16)

/-- The digits of a number without leading zeros. -/
theorem spells_toDigits (hone : 1 < base) (hle : base ≤ 16) (number : Nat) :
    Spells base (Nat.toDigits base number) number := by
  induction number using Nat.strong_induction_on with
  | _ number ih =>
      by_cases hlt : number < base
      · have hfirst := (spells_nil base).concat hlt hle
        rwa [Nat.mul_zero, Nat.zero_add, List.nil_append, ← Nat.toDigits_of_lt_base hlt] at hfirst
      · have hsmaller : number / base < number := Nat.div_lt_self (by omega) hone
        have hmore := (ih (number / base) hsmaller).concat
          (Nat.mod_lt number (show 0 < base by omega)) hle
        rwa [Nat.div_add_mod, ← Nat.toDigits_of_base_le hone (Nat.le_of_not_lt hlt)] at hmore

/-- No numeral is shorter than the one without leading zeros. -/
theorem Spells.length_toDigits_le (h : Spells base numeral number) (hone : 1 < base)
    (hne : numeral ≠ []) : (Nat.toDigits base number).length ≤ numeral.length :=
  (Nat.length_toDigits_le_iff hone (List.length_pos_iff.mpr hne)).mpr (h.lt_pow hone)

end Digits

section Words

variable {word other : UInt64} {before text more rest tail : String}

theorem toList_hexWord (word : UInt64) :
    (hexWord word).toList = '0' :: 'x' :: hexDigits 16 word.toNat := by
  have hfront : "0x".toList = ['0', 'x'] := rfl
  rw [hexWord, String.toList_append, hfront, String.toList_ofList, List.cons_append,
    List.singleton_append]

theorem isHexWord_hexWord (word : UInt64) : IsHexWord word (hexWord word) := by
  have hlt : word.toNat < 16 ^ 16 := by
    have hbits := UInt64.toNat_lt word
    omega
  have hspells := spells_hexDigits 16 word.toNat
  rw [Nat.mod_eq_of_lt hlt] at hspells
  exact ⟨_, toList_hexWord word, length_hexDigits 16 word.toNat, hspells⟩

/-- There is one way to write a word. -/
theorem IsHexWord.text_unique (hl : IsHexWord word text) (hr : IsHexWord word more) :
    text = more := by
  rcases hl with ⟨left, htext, hleft, hword⟩
  rcases hr with ⟨right, hmore, hright, hother⟩
  have hdigits : left = right :=
    hword.eq_of_length_eq hother (by decide) (Nat.le_refl 16) (hleft.trans hright.symm)
  rw [← String.toList_inj, htext, hmore, hdigits]

/-- Behind a common beginning, a word ends where its sixteen digits end, and they
    give the word. -/
theorem IsHexWord.append_inj (hl : IsHexWord word text) (hr : IsHexWord other more)
    (h : before ++ text ++ rest = before ++ more ++ tail) : word = other ∧ rest = tail := by
  rcases hl with ⟨left, htext, hleft, hword⟩
  rcases hr with ⟨right, hmore, hright, hother⟩
  rw [String.append_assoc, String.append_assoc, String.append_right_inj, ← String.toList_inj,
    String.toList_append, String.toList_append, htext, hmore] at h
  have hlength : ('0' :: 'x' :: left).length = ('0' :: 'x' :: right).length := by
    rw [List.length_cons, List.length_cons, List.length_cons, List.length_cons, hleft, hright]
  rcases List.append_inj h hlength with ⟨hsame, hrest⟩
  rw [List.cons.injEq, List.cons.injEq] at hsame
  refine ⟨UInt64.toNat_inj.mp ?_, String.toList_inj.mp hrest⟩
  rw [← hword.value_eq, ← hother.value_eq, hsame.2.2]

end Words

section Counts

variable {number other : Nat} {before text more rest tail : String}

theorem isDecimal_toString (number : Nat) : IsDecimal number (toString number) := by
  have htext : (toString number).toList = Nat.toDigits 10 number := by
    rw [Nat.toString_eq_repr, Nat.toList_repr]
  refine ⟨?_, ?_, fun numeral hne hspells => ?_⟩
  · rw [htext]
    exact Nat.toDigits_ne_nil
  · rw [htext]
    exact spells_toDigits (by decide) (by decide) number
  · rw [htext]
    exact hspells.length_toDigits_le (by decide) hne

/-- There is one shortest numeral of a number. -/
theorem IsDecimal.text_unique (hl : IsDecimal number text) (hr : IsDecimal number more) :
    text = more := by
  have hlength : text.toList.length = more.toList.length :=
    Nat.le_antisymm (hl.shortest _ hr.ne_nil hr.spells) (hr.shortest _ hl.ne_nil hl.spells)
  exact String.toList_inj.mp
    (hl.spells.eq_of_length_eq hr.spells (by decide) (by decide) hlength)

/-- Behind a common beginning, a count ends at the space that follows it, and its
    digits give the number. -/
theorem IsDecimal.append_inj (hl : IsDecimal number text) (hr : IsDecimal other more)
    (hrest : rest.toList.head? = some ' ') (htail : tail.toList.head? = some ' ')
    (h : before ++ text ++ rest = before ++ more ++ tail) : number = other ∧ rest = tail := by
  rw [String.append_assoc, String.append_assoc, String.append_right_inj] at h
  have hlists : text.toList ++ rest.toList = more.toList ++ tail.toList := by
    rw [← String.toList_append, h, String.toList_append]
  have hsame : text = more := by
    rw [← String.toList_inj, ← hl.spells.takeWhile_append (by decide) hrest, hlists,
      hr.spells.takeWhile_append (by decide) htail]
  rw [hsame, String.append_right_inj] at h
  refine ⟨?_, h⟩
  rw [← hl.spells.value_eq, ← hr.spells.value_eq, hsame]

end Counts

end Text

end BoundedProbing
