import BoundedProbing.Fault
import BoundedProbing.Proofs.Numerals

/-!
# Messages that Name the Fault

The text of a fault says which fault it is, down to every number of it.

`Fault.Worded` says how a fault is put into words and does not look at how the
text is made. A count stands in the words as its shortest decimal numeral, and a
key or a hash as a word of sixteen digits. Such a text can be read in one way
only. The five wordings begin with different letters, so the first letter tells
the cause. From there on the fixed words are the same on both sides of an
equation, a word of sixteen digits ends by its length, and behind each count
there is a space. So the numbers can be taken off one by one.

That texts are equal only for equal faults is one half of what is shown here.
The other is that the text that is printed is worded in this way, and that no
other text is.

## Main definitions

* `Fault.Worded`: How a fault is put into words.
* `Fault.initial`: The first letter of its text.

## Theorems

* `Fault.Worded.unique`: A text words at most one fault.
* `Fault.worded_iff`: The printed text is the only one that words its fault.
* `Fault.message_tells_fault`: Faults with one text are the same.
-/

namespace BoundedProbing

namespace Fault

/-- How a fault is put into words. Where there are two numerals, what follows the
    first is set apart, since it is what remains to be read. -/
def Worded : Fault → String → Prop
  | outOfMemory slots, text =>
    ∃ count, Text.IsDecimal slots count ∧
      text = "failed to allocate a table of " ++ count ++ " slots"
  | capacityOverflow capacity, text =>
    ∃ count, Text.IsDecimal capacity count ∧
      text = "table capacity overflowed growing past " ++ count ++ " slots"
  | windowSaturated key, text =>
    ∃ word, Text.IsHexWord key word ∧
      text = "probe window of key " ++ word ++ " is full of keys with the same mix"
  | indexOutOfRange index capacity, text =>
    ∃ place count, Text.IsDecimal index place ∧ Text.IsDecimal capacity count ∧
      text = "slot index " ++ place ++
        (" is out of range for a table of " ++ count ++ " slots")
  | contractViolation left right, text =>
    ∃ first second, Text.IsHexWord left first ∧ Text.IsHexWord right second ∧
      text = "equivalent items hash to different identities (" ++ first ++
        (" != " ++ second ++ ")")

/-- The letter that the text of a fault begins with. -/
def initial : Fault → Char
  | outOfMemory _ => 'f'
  | capacityOverflow _ => 't'
  | windowSaturated _ => 'p'
  | indexOutOfRange _ _ => 's'
  | contractViolation _ _ => 'e'

variable {fault left right : Fault} {text other : String}

/-- A text begins as its first part does. -/
theorem head?_append {front : String} {first : Char} (h : front.toList.head? = some first)
    (rest : String) : (front ++ rest).toList.head? = some first := by
  rw [String.toList_append, List.head?_append, h, Option.some_or]

theorem Worded.head?_eq (h : fault.Worded text) : text.toList.head? = some fault.initial := by
  cases fault with
  | outOfMemory slots =>
      rcases h with ⟨count, _, rfl⟩
      exact head?_append (head?_append rfl count) _
  | capacityOverflow capacity =>
      rcases h with ⟨count, _, rfl⟩
      exact head?_append (head?_append rfl count) _
  | windowSaturated key =>
      rcases h with ⟨word, _, rfl⟩
      exact head?_append (head?_append rfl word) _
  | indexOutOfRange index capacity =>
      rcases h with ⟨place, count, _, _, rfl⟩
      exact head?_append (head?_append rfl place) _
  | contractViolation left right =>
      rcases h with ⟨first, second, _, _, rfl⟩
      exact head?_append (head?_append rfl first) _

/-- A text words at most one fault. -/
theorem Worded.unique (hl : left.Worded text) (hr : right.Worded text) : left = right := by
  have hinitial : left.initial = right.initial :=
    Option.some.inj (hl.head?_eq.symm.trans hr.head?_eq)
  -- Faults of different causes differ in the first letter, which leaves five pairs.
  cases left with
  | outOfMemory slots =>
      cases right with
      | outOfMemory slots' =>
          rcases hl with ⟨count, hcount, hl⟩
          rcases hr with ⟨count', hcount', hr⟩
          have hslots := hcount.append_inj hcount' rfl rfl (hl.symm.trans hr)
          rw [hslots.1]
      | _ => exact absurd hinitial (by simp only [initial, Char.reduceEq, not_false_eq_true])
  | capacityOverflow capacity =>
      cases right with
      | capacityOverflow capacity' =>
          rcases hl with ⟨count, hcount, hl⟩
          rcases hr with ⟨count', hcount', hr⟩
          have hcapacity := hcount.append_inj hcount' rfl rfl (hl.symm.trans hr)
          rw [hcapacity.1]
      | _ => exact absurd hinitial (by simp only [initial, Char.reduceEq, not_false_eq_true])
  | windowSaturated key =>
      cases right with
      | windowSaturated key' =>
          rcases hl with ⟨word, hword, hl⟩
          rcases hr with ⟨word', hword', hr⟩
          have hkey := hword.append_inj hword' (hl.symm.trans hr)
          rw [hkey.1]
      | _ => exact absurd hinitial (by simp only [initial, Char.reduceEq, not_false_eq_true])
  | indexOutOfRange index capacity =>
      cases right with
      | indexOutOfRange index' capacity' =>
          rcases hl with ⟨place, count, hplace, hcount, hl⟩
          rcases hr with ⟨place', count', hplace', hcount', hr⟩
          have hend (count : String) : (" is out of range for a table of " ++ count ++
              " slots").toList.head? = some ' ' := head?_append (head?_append rfl count) _
          rcases hplace.append_inj hplace' (hend count) (hend count') (hl.symm.trans hr) with
            ⟨hindex, hrest⟩
          have hcapacity := hcount.append_inj hcount' rfl rfl hrest
          rw [hindex, hcapacity.1]
      | _ => exact absurd hinitial (by simp only [initial, Char.reduceEq, not_false_eq_true])
  | contractViolation first second =>
      cases right with
      | contractViolation first' second' =>
          rcases hl with ⟨word, more, hword, hmore, hl⟩
          rcases hr with ⟨word', more', hword', hmore', hr⟩
          rcases hword.append_inj hword' (hl.symm.trans hr) with ⟨hfirst, hrest⟩
          have hsecond := hmore.append_inj hmore' hrest
          rw [hfirst, hsecond.1]
      | _ => exact absurd hinitial (by simp only [initial, Char.reduceEq, not_false_eq_true])

theorem worded_message (fault : Fault) : fault.Worded fault.message := by
  cases fault with
  | outOfMemory slots => exact ⟨_, Text.isDecimal_toString slots, rfl⟩
  | capacityOverflow capacity => exact ⟨_, Text.isDecimal_toString capacity, rfl⟩
  | windowSaturated key => exact ⟨_, Text.isHexWord_hexWord key, rfl⟩
  | indexOutOfRange index capacity =>
      refine ⟨_, _, Text.isDecimal_toString index, Text.isDecimal_toString capacity, ?_⟩
      rw [← String.append_assoc, ← String.append_assoc]
      rfl
  | contractViolation left right =>
      refine ⟨_, _, Text.isHexWord_hexWord left, Text.isHexWord_hexWord right, ?_⟩
      rw [← String.append_assoc, ← String.append_assoc]
      rfl

/-- A fault is worded by one text. -/
theorem Worded.text_unique (hl : fault.Worded text) (hr : fault.Worded other) : text = other := by
  cases fault with
  | outOfMemory slots =>
      rcases hl with ⟨count, hcount, rfl⟩
      rcases hr with ⟨count', hcount', rfl⟩
      rw [hcount.text_unique hcount']
  | capacityOverflow capacity =>
      rcases hl with ⟨count, hcount, rfl⟩
      rcases hr with ⟨count', hcount', rfl⟩
      rw [hcount.text_unique hcount']
  | windowSaturated key =>
      rcases hl with ⟨word, hword, rfl⟩
      rcases hr with ⟨word', hword', rfl⟩
      rw [hword.text_unique hword']
  | indexOutOfRange index capacity =>
      rcases hl with ⟨place, count, hplace, hcount, rfl⟩
      rcases hr with ⟨place', count', hplace', hcount', rfl⟩
      rw [hplace.text_unique hplace', hcount.text_unique hcount']
  | contractViolation left right =>
      rcases hl with ⟨word, more, hword, hmore, rfl⟩
      rcases hr with ⟨word', more', hword', hmore', rfl⟩
      rw [hword.text_unique hword', hmore.text_unique hmore']

/-- The printed text is the only one that words its fault. -/
theorem worded_iff : fault.Worded text ↔ text = fault.message := by
  constructor
  · intro h
    exact h.text_unique fault.worded_message
  · intro h
    rw [h]
    exact fault.worded_message

/-- The text of a fault tells the fault, whatever its numbers are. In it each
    count is written as its shortest decimal numeral, and each key and each hash
    as `0x` with exactly sixteen hexadecimal digits that are worth it. -/
theorem message_tells_fault :
    (∀ left right : Fault, left.message = right.message ↔ left = right) ∧
      ∀ (fault : Fault) (text : String), fault.Worded text ↔ text = fault.message := by
  refine ⟨fun left right => ⟨fun h => ?_, fun h => by rw [h]⟩, fun fault text => worded_iff⟩
  have hleft : left.Worded right.message := worded_iff.mpr h.symm
  exact hleft.unique right.worded_message

example : (windowSaturated 0x100000001).message =
    "probe window of key 0x0000000100000001 is full of keys with the same mix" := by
  decide +kernel

end Fault

end BoundedProbing
