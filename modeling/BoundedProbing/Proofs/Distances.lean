import Mathlib.Algebra.BigOperators.Group.Finset.Basic
import Mathlib.Algebra.Group.Action.Defs
import Mathlib.Algebra.Order.BigOperators.Group.List
import BoundedProbing.Proofs.Valid
import BoundedProbing.Table.Stats

/-!
# Distances and their Histogram

How far the entries of a valid table lie from their homes, and what eight
counts tell of it.

A histogram has no place for a distance of eight or more. In a valid table no
entry lies so far, so nothing is left out: there is one distance for every
entry, and what the counts add up to is what the distances add up to.

## Theorems

* `Table.mem_distances_iff`: The distances are those of the stored keys.
* `Table.Valid.distance_lt`: Every distance is short.
* `Table.Valid.length_distances`: There is one for every entry.
* `Table.Valid.distances_eq_of_sublist`: Places that have all of them.
* `Histogram.totalDistance_ofDistances`: Short distances are added up right.
* `Table.Valid.totalDistance_le`: How much they can come to.
-/

namespace BoundedProbing

universe u

variable {α : Type u}

namespace Histogram

theorem bins_ofDistances (distances : List Nat) :
    (ofDistances distances).bins =
      (List.range probeLimit).map fun distance => (distance, distances.count distance) :=
  rfl

theorem totalDistance_eq_sum (histogram : Histogram) :
    histogram.totalDistance = (histogram.bins.map fun bin => bin.1 * bin.2).sum := by
  rw [totalDistance, List.sum_eq_foldl, List.foldl_map]

/-- The counts of short distances add up to the distances. -/
theorem totalDistance_ofDistances {distances : List Nat}
    (h : ∀ distance ∈ distances, distance < probeLimit) :
    (ofDistances distances).totalDistance = distances.sum := by
  have hsubset : distances.toFinset ⊆ Finset.range probeLimit := by
    intro distance hmem
    exact Finset.mem_range.mpr (h distance (List.mem_toFinset.mp hmem))
  calc (ofDistances distances).totalDistance
      = ∑ distance ∈ Finset.range probeLimit, distance * distances.count distance := by
        rw [totalDistance_eq_sum, bins_ofDistances, List.map_map]
        rfl
    _ = ∑ distance ∈ Finset.range probeLimit, distances.count distance • distance :=
        Finset.sum_congr rfl fun distance _ => by rw [smul_eq_mul, Nat.mul_comm]
    _ = distances.sum := (Finset.sum_list_count_of_subset distances _ hsubset).symm

end Histogram

namespace Table

variable {table : Table α} {distance : Nat}

theorem distances_eq_filterMap (table : Table α) :
    table.distances = (List.range table.capacity).filterMap table.distanceAt := by
  rw [distances, Array.toList_filterMap, Array.toList_range]

theorem distanceAt_eq_some_iff {index : Nat} :
    table.distanceAt index = some distance ↔ ∃ key, table.slots.Holds index key ∧
      distanceFrom (home key table.capacity) index table.capacity = distance := by
  unfold distanceAt Slots.Holds
  cases table.slots.read index with
  | empty => simp only [reduceCtorEq, exists_false, false_and]
  | tombstone => simp only [reduceCtorEq, exists_false, false_and]
  | entry stored value =>
      simp only [Option.some.injEq, Slot.entry.injEq, exists_and_left, exists_eq', and_true,
        exists_eq_left']

/-- The distances are those of the stored keys. -/
theorem mem_distances_iff :
    distance ∈ table.distances ↔ ∃ index key, table.slots.Holds index key ∧
      distanceFrom (home key table.capacity) index table.capacity = distance := by
  rw [distances_eq_filterMap, List.mem_filterMap]
  constructor
  · intro hmem
    rcases hmem with ⟨index, _, hat⟩
    exact ⟨index, distanceAt_eq_some_iff.mp hat⟩
  · intro hholds
    rcases hholds with ⟨index, key, hholds, hdistance⟩
    exact ⟨index, List.mem_range.mpr hholds.lt,
      distanceAt_eq_some_iff.mpr ⟨key, hholds, hdistance⟩⟩

theorem Valid.distance_lt (h : table.Valid) (hmem : distance ∈ table.distances) :
    distance < probeLimit := by
  rcases mem_distances_iff.mp hmem with ⟨index, key, hholds, rfl⟩
  exact (h.sound.reached key index hholds).1

/-- There is one distance for every entry. -/
theorem Valid.length_distances (h : table.Valid) : table.distances.length = table.count := by
  have hslots : table.slots.countP Slot.isEntry =
      (List.range table.capacity).countP (Slot.isEntry ∘ table.slots.read) := by
    rw [← Array.countP_toList, Slots.toList_eq_map_read, List.countP_map, capacity]
  rw [h.count_eq, hslots, distances_eq_filterMap, List.length_filterMap_eq_countP]
  refine List.countP_congr fun index _ => ?_
  unfold distanceAt
  simp only [Function.comp_apply]
  cases table.slots.read index <;> rfl

/-- Places that have as many entries as the table counts have all of them. -/
theorem Valid.distances_eq_of_sublist (h : table.Valid) {places : List Nat}
    (hsub : places.Sublist (List.range table.capacity))
    (hall : (places.filterMap table.distanceAt).length = table.count) :
    table.distances = places.filterMap table.distanceAt := by
  have hlength : (places.filterMap table.distanceAt).length = table.distances.length :=
    hall.trans h.length_distances.symm
  rw [distances_eq_filterMap] at hlength ⊢
  exact ((hsub.filterMap table.distanceAt).eq_of_length hlength).symm
/-- No distance occurs more often than there are entries. -/
theorem Valid.count_distances_le (h : table.Valid) (distance : Nat) :
    table.distances.count distance ≤ table.count := by
  rw [← h.length_distances]
  exact List.count_le_length

/-- Every entry lies at most seven places from home. -/
theorem Valid.totalDistance_le (h : table.Valid) :
    table.histogram.totalDistance ≤ (probeLimit - 1) * table.count := by
  have hle := List.sum_le_card_nsmul table.distances (probeLimit - 1) fun distance hmem =>
    Nat.le_sub_one_of_lt (h.distance_lt hmem)
  rw [h.length_distances, smul_eq_mul, Nat.mul_comm] at hle
  rwa [histogram, Histogram.totalDistance_ofDistances fun _ => h.distance_lt]

end Table

end BoundedProbing
