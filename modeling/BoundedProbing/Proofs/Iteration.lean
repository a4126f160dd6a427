import BoundedProbing.Proofs.Valid
import BoundedProbing.Table.Iter

/-!
# Iterators that Count Right

The number of values an iterator announces, and the slots it has not passed.

An iterator keeps the slots it has not passed, and the values in them are what
it has still to give. A step takes the first of these values, and once there is
none every step gives nothing.

An iterator never looks ahead. It takes the count of its table on trust and
lowers it with every value, so the number it announces is right if and only if
it was right at the start. `Iter.Exact` says that it is. It holds of a new
iterator over a valid table because the count of such a table agrees with its
slots, and no step loses it.

## Main definitions

* `Iter.Exact`: As many values are announced as are still to come.
* `Iter.pending`: The values an iterator has still to give.

## Theorems

* `Table.Valid.exact_iter`: A new iterator over a valid table is exact.
* `Iter.Exact.next`, `Iter.Exact.advance`: Exact iterators stay exact.
* `Iter.Exact.remaining_pos`: An exact iterator with a value to give announces
  one.
* `Iter.next_eq`, `Iter.pending_advance`, `Iter.map_snd_advance`: What a step
  and any number of steps give.
* `Iter.Exact.sizeHint_advance`: What is announced meanwhile.
-/

namespace BoundedProbing

universe u

variable {α : Type u}

namespace Iter

variable {iter : Iter α} {slots rest : List (Slot α)} {value : α}

/-- As many values are announced as are still to come. -/
def Exact (iter : Iter α) : Prop :=
  iter.remaining = iter.rest.countP Slot.isEntry

/-- The values an iterator has still to give, in order. -/
def pending (iter : Iter α) : List α :=
  iter.rest.filterMap Slot.value?

/-- The slots that are passed on the way to a value have none. -/
theorem filterMap_of_firstValue_eq_some (h : firstValue slots = some (value, rest)) :
    slots.filterMap Slot.value? = value :: rest.filterMap Slot.value? := by
  induction slots with
  | nil => exact absurd h (by simp only [firstValue, reduceCtorEq, not_false_eq_true])
  | cons slot behind ih =>
      cases slot with
      | empty => rw [List.filterMap_cons_none rfl, ih h]
      | tombstone => rw [List.filterMap_cons_none rfl, ih h]
      | entry key stored =>
          simp only [firstValue, Option.some.injEq, Prod.mk.injEq] at h
          simp only [List.filterMap_cons, Slot.value?, h.1, h.2]

theorem filterMap_of_firstValue_eq_none (h : firstValue slots = none) :
    slots.filterMap Slot.value? = [] := by
  induction slots with
  | nil => rfl
  | cons slot behind ih =>
      cases slot with
      | empty => rw [List.filterMap_cons_none rfl, ih h]
      | tombstone => rw [List.filterMap_cons_none rfl, ih h]
      | entry key stored =>
          exact absurd h (by simp only [firstValue, reduceCtorEq, not_false_eq_true])

/-- Every entry has a value, and no other slot has one. -/
theorem countP_isEntry_eq_length (slots : List (Slot α)) :
    slots.countP Slot.isEntry = (slots.filterMap Slot.value?).length := by
  rw [List.length_filterMap_eq_countP]
  refine List.countP_congr fun slot _ => ?_
  cases slot <;> rfl

theorem Exact.remaining_eq (h : iter.Exact) : iter.remaining = iter.pending.length := by
  rw [h, countP_isEntry_eq_length, pending]

/-- The value that is found first is one of those to be counted. -/
theorem countP_of_firstValue_eq_some (h : firstValue slots = some (value, rest)) :
    slots.countP Slot.isEntry = rest.countP Slot.isEntry + 1 := by
  rw [countP_isEntry_eq_length, countP_isEntry_eq_length, filterMap_of_firstValue_eq_some h,
    List.length_cons]

theorem countP_of_firstValue_eq_none (h : firstValue slots = none) :
    slots.countP Slot.isEntry = 0 := by
  rw [countP_isEntry_eq_length, filterMap_of_firstValue_eq_none h, List.length_nil]

/-- An exact iterator with a value to give announces one. -/
theorem Exact.remaining_pos (h : iter.Exact) (hfirst : firstValue iter.rest = some (value, rest)) :
    0 < iter.remaining := by
  rw [h, countP_of_firstValue_eq_some hfirst]
  exact Nat.succ_pos _

theorem Exact.next (h : iter.Exact) : iter.next.2.Exact := by
  unfold Iter.next
  cases hfirst : firstValue iter.rest with
  | none => exact h.trans (countP_of_firstValue_eq_none hfirst)
  | some found =>
      rcases found with ⟨value, rest⟩
      exact Nat.sub_eq_of_eq_add (h.trans (countP_of_firstValue_eq_some hfirst))

theorem Exact.advance (h : iter.Exact) (steps : Nat) : (iter.advance steps).2.Exact := by
  -- Every step leads from an exact iterator to an exact one.
  induction steps generalizing iter with
  | zero => exact h
  | succ steps ih => exact ih h.next

/-- A step gives the first of the pending values and leaves the others. -/
theorem next_eq (iter : Iter α) :
    iter.next.1 = iter.pending.head? ∧ iter.next.2.pending = iter.pending.tail := by
  unfold next pending
  cases hfirst : firstValue iter.rest with
  | none =>
      rw [filterMap_of_firstValue_eq_none hfirst]
      exact ⟨rfl, rfl⟩
  | some found =>
      rw [filterMap_of_firstValue_eq_some hfirst]
      exact ⟨rfl, rfl⟩

theorem pending_advance (iter : Iter α) (steps : Nat) :
    (iter.advance steps).2.pending = iter.pending.drop steps := by
  induction steps generalizing iter with
  | zero => rfl
  | succ steps ih => rw [advance, ih, iter.next_eq.2, List.drop_tail]

/-- The pending values come first, and then nothing. -/
theorem map_snd_advance (iter : Iter α) (steps : Nat) :
    (iter.advance steps).1.map Prod.snd =
      (iter.pending.take steps).map some ++
        List.replicate (steps - iter.pending.length) none := by
  induction steps generalizing iter with
  | zero =>
      simp only [advance, List.map_nil, List.take_zero, Nat.zero_sub, List.replicate_zero,
        List.append_nil]
  | succ steps ih =>
      rw [advance, List.map_cons, ih, iter.next_eq.1, iter.next_eq.2]
      -- A step takes one of the pending values, or gives nothing if there is none.
      cases iter.pending with
      | nil =>
          simp only [List.head?_nil, List.tail_nil, List.take_nil, List.map_nil, List.length_nil,
            Nat.sub_zero, List.nil_append, List.replicate_succ]
      | cons value others =>
          simp only [List.head?_cons, List.tail_cons, List.take_succ_cons, List.map_cons,
            List.length_cons, Nat.reduceSubDiff, List.cons_append]

/-- An exact iterator announces how many values are pending, at every step. -/
theorem Exact.sizeHint_advance (h : iter.Exact) (steps : Nat) :
    (iter.advance steps).2.sizeHint =
      ((iter.pending.drop steps).length, some (iter.pending.drop steps).length) := by
  rw [sizeHint, (h.advance steps).remaining_eq, pending_advance]

end Iter

/-- A new iterator over a valid table is exact. -/
theorem Table.Valid.exact_iter {table : Table α} (h : table.Valid) : table.iter.Exact :=
  h.count_eq.trans Array.countP_toList.symm

end BoundedProbing
