import BoundedProbing.Table.Basic

/-!
# Rebuilding a Table

Moving every entry into a fresh slot array.

The entries are placed in the order of their old slots, each in the window its
home has in the new array. That can fail: entries that wrapped past the end of
the old array come first and may take places the later ones need. Then the
array is thrown away and one twice as large is tried, until every entry has a
place, memory is refused, or the size no longer fits in 64 bits.

Nothing is written to the old array, so a rebuild either gives a table with the
same entries and no tombstone, or leaves the table as it is.

## Main definitions

* `doubled`: Twice a capacity, while that fits in 64 bits.
* `placeAll`: Placing a list of entries one after the other.
* `refit`: The sizes tried, and the array that took every entry.
* `Table.rebuild`: A table moved to a fresh array, and the layout it left.

## Theorems

* `doubled_eq_some_iff`: When doubling is possible.
* `size_placeAll`: Placing entries keeps the size of the array.
* `le_size_refit`: The new array is no smaller than the size asked for.
* `Table.rebuild_ok`: A rebuilt table has no tombstone, as many entries as
  before, and at least the capacity asked for.
-/

namespace BoundedProbing

universe u

variable {α : Type u}

/-- Twice a capacity, if that is a larger number of 64 bits. -/
def doubled (capacity : Nat) : Option Nat :=
  if 0 < capacity ∧ 2 * capacity < UInt64.size then some (2 * capacity) else none

theorem doubled_eq_some_iff {capacity larger : Nat} :
    doubled capacity = some larger ↔
      larger = 2 * capacity ∧ 0 < capacity ∧ 2 * capacity < UInt64.size := by
  unfold doubled
  by_cases h : 0 < capacity ∧ 2 * capacity < UInt64.size
  · rw [if_pos h, Option.some.injEq]
    exact ⟨fun heq => ⟨heq.symm, h⟩, fun hall => hall.1.symm⟩
  · rw [if_neg h]
    exact ⟨fun heq => absurd heq (Option.some_ne_none _).symm, fun hall => absurd hall.2 h⟩

/-- Places entries one after the other, none if one finds its window full. -/
def placeAll : List (UInt64 × α) → Slots α → Option (Slots α)
  | [], slots => some slots
  | (key, value) :: rest, slots =>
    match place slots key with
    | .found index => placeAll rest (slots.write index (.entry key value))
    | .vacant index => placeAll rest (slots.write index (.entry key value))
    | .exhausted => none

theorem size_placeAll (pairs : List (UInt64 × α)) (slots filled : Slots α)
    (h : placeAll pairs slots = some filled) : filled.size = slots.size := by
  induction pairs generalizing slots with
  | nil =>
      simp only [placeAll, Option.some.injEq] at h
      rw [h]
  | cons pair rest ih =>
      rcases pair with ⟨key, value⟩
      simp only [placeAll] at h
      split at h
      · simpa only [Slots.size_write] using ih _ h
      · simpa only [Slots.size_write] using ih _ h
      · exact absurd h (by simp only [reduceCtorEq, not_false_eq_true])

/-- Tries arrays of the given capacity, twice that, and so on, until one takes
    every entry. The first part lists the sizes asked for. -/
def refit (limit : Nat) (pairs : List (UInt64 × α)) (capacity : Nat) :
    List Nat × Except Fault (Slots α) :=
  if limit < capacity then
    ([capacity], .error (.outOfMemory capacity))
  else
    match placeAll pairs (Slots.blank capacity) with
    | some slots => ([capacity], .ok slots)
    | none =>
      match _h : doubled capacity with
      | none => ([capacity], .error (.capacityOverflow capacity))
      | some larger =>
        -- The attempt wrote to its own array only, so the next one starts afresh.
        let tried := refit limit pairs larger
        (capacity :: tried.1, tried.2)
termination_by UInt64.size - capacity
decreasing_by
  rcases doubled_eq_some_iff.mp _h with ⟨rfl, hpos, hlt⟩
  omega

theorem le_size_refit (limit : Nat) (pairs : List (UInt64 × α)) (capacity : Nat)
    (slots : Slots α) (h : (refit limit pairs capacity).2 = .ok slots) :
    capacity ≤ slots.size := by
  fun_induction refit limit pairs capacity with
  | case1 => exact absurd h (by simp only [reduceCtorEq, not_false_eq_true])
  | case2 capacity _ filled hfill =>
      simp only [Except.ok.injEq] at h
      have hsize := size_placeAll _ _ _ hfill
      rw [Slots.size_blank] at hsize
      exact Nat.le_of_eq (h ▸ hsize.symm)
  | case3 => exact absurd h (by simp only [reduceCtorEq, not_false_eq_true])
  | case4 capacity _ _ larger hlarger _ ih =>
      have hle := ih h
      have hdouble := (doubled_eq_some_iff.mp hlarger).1
      omega

namespace Table

/-- Moves every entry into a fresh array of the given capacity or the next
    power of two that can take them all, and answers with the layout that was
    left. A refused rebuild leaves the table as it is. -/
def rebuild (limit : Nat) (table : Table α) (capacity : Nat) :
    Outcome (Table α) (Layout α) :=
  let tried := refit limit table.slots.entries capacity
  let asked := tried.1.map Event.requested
  match tried.2 with
  | .ok slots =>
    ⟨⟨⟨slots, 0⟩, table.count⟩, .ok table.toLayout,
      asked ++ [.rebuilt table.count table.capacity slots.size table.tombstones]⟩
  | .error fault => ⟨table, .error fault, asked⟩

/-- A rebuild that succeeds leaves no tombstone, the same number of entries and
    at least the capacity asked for. -/
theorem rebuild_ok {limit : Nat} {table : Table α} {capacity : Nat} {left : Layout α}
    (h : (table.rebuild limit capacity).answer = .ok left) :
    (table.rebuild limit capacity).state.tombstones = 0 ∧
      (table.rebuild limit capacity).state.count = table.count ∧
      capacity ≤ (table.rebuild limit capacity).state.capacity := by
  unfold rebuild at h ⊢
  cases hfit : (refit limit table.slots.entries capacity).2 with
  | ok slots =>
      simp only [hfit, Table.capacity, true_and]
      exact le_size_refit _ _ _ _ hfit
  | error fault => simp only [hfit, reduceCtorEq] at h

end Table

end BoundedProbing
