import Mathlib.Data.Finset.Insert
import Mathlib.Data.Finset.Range
import Mathlib.Data.List.Perm.Basic
import BoundedProbing.Proofs.Window

/-!
# Parking

Places of an array that are taken one after the other, each the nearest free
one from its start.

This is what insertions do to an array when keys and windows are left aside. A
start is all that is known of a key, and a walk goes on around the end of the
array until it meets a free place, however far that is. Such a walk fails only
if no place is free, so it can be made in every order.

Two walks may be exchanged. If they end at different places, neither is in the
way of the other. If they would end at the same place, the second to come finds
it taken and goes on from there, whichever it is. Then the same two places are
taken, and the two walks together have gone the same distance: each has gone to
the common place, and one of them from there to the next. So neither the taken
places nor the distance gone depends on the order.

## Main definitions

* `Lot`: Taken places, and the distance gone to take them.
* `Lot.gap`: The distance to the nearest free place.
* `Lot.park`, `Lot.parkAll`: One walk, and walks from a list of starts.

## Theorems

* `Lot.gap_eq_some_iff`, `Lot.gap_eq_none_iff`: What a walk finds.
* `Lot.gap_insert`: A walk is not bothered by places taken elsewhere.
* `Lot.gap_eq_map_add`: A walk through taken places, from a place on its way.
* `Lot.park_comm`: Two walks may be exchanged.
* `Lot.parkAll_perm`: Starts may be taken in any order.
-/

namespace BoundedProbing

/-- The taken places of an array, and the distance gone in all to take them. -/
@[ext]
structure Lot where
  taken : Finset Nat
  gone : Nat

namespace Lot

variable {capacity start other distance : Nat} {taken : Finset Nat}

/-- How far the nearest free place lies from a start, around the end of the
    array. -/
def gap (capacity : Nat) (taken : Finset Nat) (start : Nat) : Option Nat :=
  (List.range capacity).find? fun distance => decide (ahead start distance capacity ∉ taken)

/-- Takes the nearest free place from a start, if there is one. -/
def park (capacity : Nat) (lot : Lot) (start : Nat) : Option Lot :=
  (gap capacity lot.taken start).map fun distance =>
    ⟨insert (ahead start distance capacity) lot.taken, lot.gone + distance⟩

/-- Takes a place from each of the starts, one after the other. -/
def parkAll (capacity : Nat) (lot : Lot) (starts : List Nat) : Option Lot :=
  starts.foldl (fun parked start => parked.bind fun lot => lot.park capacity start) (some lot)

theorem gap_eq_some_iff :
    gap capacity taken start = some distance ↔
      distance < capacity ∧ ahead start distance capacity ∉ taken ∧
        ∀ nearer, nearer < distance → ahead start nearer capacity ∈ taken := by
  simp only [gap, List.find?_range_eq_some, List.mem_range, decide_eq_true_iff,
    Bool.not_eq_true', decide_eq_false_iff_not, not_not]
  exact ⟨fun ⟨hfree, hlt, hnearer⟩ => ⟨hlt, hfree, hnearer⟩,
    fun ⟨hlt, hfree, hnearer⟩ => ⟨hfree, hlt, hnearer⟩⟩

/-- A walk fails only if every place is taken. -/
theorem gap_eq_none_iff (hs : start < capacity) :
    gap capacity taken start = none ↔ ∀ place, place < capacity → place ∈ taken := by
  simp only [gap, List.find?_range_eq_none, Bool.not_eq_true', decide_eq_false_iff_not, not_not]
  constructor
  · intro hnone place hplace
    rw [← ahead_distanceFrom hs hplace]
    exact hnone _ (distanceFrom_lt (by omega) start place)
  · exact fun hall distance _ => hall _ (ahead_lt (by omega) start distance)

/-- A place taken elsewhere is not in the way. -/
theorem gap_insert {place : Nat} (h : gap capacity taken start = some distance)
    (hne : ahead start distance capacity ≠ place) :
    gap capacity (insert place taken) start = some distance := by
  rcases gap_eq_some_iff.mp h with ⟨hlt, hfree, hnearer⟩
  refine gap_eq_some_iff.mpr ⟨hlt, ?_, fun nearer hless => ?_⟩
  · simp only [Finset.mem_insert, hne, hfree, or_self, not_false_eq_true]
  · exact Finset.mem_insert_of_mem (hnearer nearer hless)

/-- A walk that finds every place taken up to some distance goes on like a walk
    that starts there. -/
theorem gap_eq_map_add (hs : start < capacity) (hd : distance < capacity)
    (hpassed : ∀ nearer, nearer < distance → ahead start nearer capacity ∈ taken) :
    gap capacity taken start =
      (gap capacity taken (ahead start distance capacity)).map (distance + ·) := by
  have hpos : 0 < capacity := by omega
  cases hgap : gap capacity taken (ahead start distance capacity) with
  | none =>
      rw [gap_eq_none_iff (ahead_lt hpos start distance)] at hgap
      exact (gap_eq_none_iff hs).mpr hgap
  | some farther =>
      rcases gap_eq_some_iff.mp hgap with ⟨hlt, hfree, hnearer⟩
      rw [ahead_ahead] at hfree
      -- Otherwise the free place would be one of those passed before.
      have hshort : distance + farther < capacity := by
        by_contra hlong
        refine hfree ?_
        rw [← ahead_mod, Nat.mod_eq_sub_mod (by omega), Nat.mod_eq_of_lt (by omega)]
        exact hpassed _ (by omega)
      refine gap_eq_some_iff.mpr ⟨hshort, hfree, fun nearer hless => ?_⟩
      change nearer < distance + farther at hless
      by_cases hbefore : nearer < distance
      · exact hpassed nearer hbefore
      · have hlater := hnearer (nearer - distance) (by omega)
        rwa [ahead_ahead, Nat.add_sub_cancel' (Nat.le_of_not_lt hbefore)] at hlater

theorem park_eq_some {lot : Lot} (h : gap capacity lot.taken start = some distance) :
    lot.park capacity start =
      some ⟨insert (ahead start distance capacity) lot.taken, lot.gone + distance⟩ := by
  rw [park, h, Option.map_some]

/-- Two walks to different places are not in the way of each other. -/
theorem park_park_of_ne {lot : Lot} {far : Nat}
    (hgap : gap capacity lot.taken start = some distance)
    (hother : gap capacity lot.taken other = some far)
    (hne : ahead start distance capacity ≠ ahead other far capacity) :
    (lot.park capacity start).bind (fun lot => lot.park capacity other) =
      some ⟨insert (ahead other far capacity)
        (insert (ahead start distance capacity) lot.taken), lot.gone + distance + far⟩ := by
  rw [park_eq_some hgap, Option.bind_some]
  exact park_eq_some (gap_insert hother hne.symm)

/-- Of two walks to the same place, the second goes on from there. -/
theorem park_park_of_eq {lot : Lot} {far place : Nat} (ho : other < capacity)
    (hgap : gap capacity lot.taken start = some distance)
    (hother : gap capacity lot.taken other = some far)
    (hp : ahead start distance capacity = place) (hq : ahead other far capacity = place) :
    (lot.park capacity start).bind (fun lot => lot.park capacity other) =
      (gap capacity (insert place lot.taken) place).map fun farther =>
        ⟨insert (ahead place farther capacity) (insert place lot.taken),
          lot.gone + distance + far + farther⟩ := by
  rcases gap_eq_some_iff.mp hother with ⟨hlt, _, hnearer⟩
  have hgo : gap capacity (insert place lot.taken) other =
      (gap capacity (insert place lot.taken) place).map (far + ·) := by
    rw [← hq]
    exact gap_eq_map_add ho hlt fun nearer hless => Finset.mem_insert_of_mem (hnearer nearer hless)
  rw [park_eq_some hgap, Option.bind_some, hp, park, hgo, Option.map_map]
  refine congrArg (Option.map · _) (funext fun farther => ?_)
  rw [Function.comp_apply, ← ahead_ahead, hq, ← Nat.add_assoc]

/-- Two walks may be exchanged. -/
theorem park_comm (lot : Lot) (hs : start < capacity) (ho : other < capacity) :
    (lot.park capacity start).bind (fun lot => lot.park capacity other) =
      (lot.park capacity other).bind fun lot => lot.park capacity start := by
  cases hgap : gap capacity lot.taken start with
  | none =>
      have hother := (gap_eq_none_iff ho).mpr ((gap_eq_none_iff hs).mp hgap)
      simp only [park, hgap, hother, Option.map_none, Option.bind_none]
  | some distance =>
      cases hother : gap capacity lot.taken other with
      | none =>
          have hnone := (gap_eq_none_iff hs).mpr ((gap_eq_none_iff ho).mp hother)
          rw [hnone] at hgap
          cases hgap
      | some far =>
          by_cases heq : ahead start distance capacity = ahead other far capacity
          · rw [park_park_of_eq ho hgap hother heq rfl, park_park_of_eq hs hother hgap rfl heq]
            simp only [Nat.add_right_comm lot.gone distance far]
          · rw [park_park_of_ne hgap hother heq, park_park_of_ne hother hgap (Ne.symm heq),
              Finset.insert_comm, Nat.add_right_comm]

theorem parkAll_cons {lot next : Lot} {starts : List Nat}
    (h : lot.park capacity start = some next) :
    lot.parkAll capacity (start :: starts) = next.parkAll capacity starts := by
  rw [parkAll, List.foldl_cons, Option.bind_some, h, parkAll]

/-- Starts may be taken in any order. -/
theorem parkAll_perm {starts others : List Nat} (lot : Lot) (hperm : starts.Perm others)
    (hlt : ∀ start, start ∈ starts → start < capacity) :
    lot.parkAll capacity starts = lot.parkAll capacity others := by
  refine hperm.foldl_eq' (fun start hs other ho parked => ?_) (some lot)
  cases parked with
  | none => rfl
  | some lot => exact park_comm lot (hlt start hs) (hlt other ho)

end Lot

end BoundedProbing
