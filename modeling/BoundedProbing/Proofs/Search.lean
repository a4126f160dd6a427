import BoundedProbing.Proofs.Window

/-!
# What the Searches Find

The look-up and the search of an insertion, described by distances from home.

Both searches are recursions along a list of distances. Here each is restated
without recursion. A look-up finds the nearest place of the window that holds
the key, provided that no empty place comes before it. An insertion comes to
the same place when there is one, and otherwise to the nearest place of the
window that no entry takes. Nothing is assumed about the slots, so a tombstone
may stand anywhere and a key may be stored twice or out of reach.

## Main definitions

* `Slots.Holds`: The key is stored in the slot with this index.
* `Slots.Unbroken`: No empty place lies nearer than a distance.
* `firstFree`: The nearest place of some distances that no entry takes.

## Theorems

* `locate_eq_some_iff`: What a look-up finds.
* `place_eq_locate`: The search of an insertion in terms of the look-up.
* `place_eq_found_iff`, `place_eq_vacant_iff`, `place_eq_exhausted_iff`: Its
  three outcomes.
-/

namespace BoundedProbing

universe u

variable {α : Type u}

namespace Slots

/-- The slot with this index holds an entry under the key. -/
def Holds (slots : Slots α) (index : Nat) (key : UInt64) : Prop :=
  ∃ value, slots.read index = .entry key value

/-- A search from a start meets no empty place before it has gone this far. -/
def Unbroken (slots : Slots α) (start distance : Nat) : Prop :=
  ∀ nearer, nearer < distance → slots.read (ahead start nearer slots.size) ≠ .empty

end Slots

variable {slots : Slots α} {key : UInt64} {start distance index : Nat}

theorem locateFrom_cons_of_pass {farther : List Nat}
    (hempty : slots.read (ahead start distance slots.size) ≠ .empty)
    (hother : ¬ slots.Holds (ahead start distance slots.size) key) :
    locateFrom slots key start (distance :: farther) = locateFrom slots key start farther := by
  rw [locateFrom]
  cases hread : slots.read (ahead start distance slots.size) with
  | empty => exact absurd hread hempty
  | tombstone => rfl
  | entry stored value =>
      have hne : stored ≠ key := fun heq => hother ⟨value, heq ▸ hread⟩
      simp only [if_neg hne]

theorem locateFrom_cons_of_holds {farther : List Nat}
    (h : slots.Holds (ahead start distance slots.size) key) :
    locateFrom slots key start (distance :: farther) = some (ahead start distance slots.size) := by
  rcases h with ⟨value, hread⟩
  simp only [locateFrom, hread, if_true]

theorem locateFrom_cons_of_empty {farther : List Nat}
    (h : slots.read (ahead start distance slots.size) = .empty) :
    locateFrom slots key start (distance :: farther) = none := by
  simp only [locateFrom, h]

theorem locateFrom_append_cons {nearer farther : List Nat}
    (hpass : ∀ before ∈ nearer, slots.read (ahead start before slots.size) ≠ .empty ∧
      ¬ slots.Holds (ahead start before slots.size) key)
    (h : slots.Holds (ahead start distance slots.size) key) :
    locateFrom slots key start (nearer ++ distance :: farther) =
      some (ahead start distance slots.size) := by
  -- Each nearer place is passed, and the search goes on with the rest.
  induction nearer with
  | nil => exact locateFrom_cons_of_holds h
  | cons before rest ih =>
      rcases hpass before List.mem_cons_self with ⟨hempty, hother⟩
      rw [List.cons_append, locateFrom_cons_of_pass hempty hother]
      exact ih fun later hlater => hpass later (List.mem_cons_of_mem _ hlater)

/-- A place that is found comes after places that the search passed. -/
theorem exists_of_locateFrom_eq_some {distances : List Nat}
    (h : locateFrom slots key start distances = some index) :
    ∃ nearer distance farther, distances = nearer ++ distance :: farther ∧
      index = ahead start distance slots.size ∧ slots.Holds index key ∧
      ∀ before ∈ nearer, slots.read (ahead start before slots.size) ≠ .empty ∧
        ¬ slots.Holds (ahead start before slots.size) key := by
  induction distances with
  | nil => exact absurd h (by simp only [locateFrom, reduceCtorEq, not_false_eq_true])
  | cons first rest ih =>
      -- The first place ends the search, with the key or without, or is passed.
      by_cases hholds : slots.Holds (ahead start first slots.size) key
      · rw [locateFrom_cons_of_holds hholds, Option.some.injEq] at h
        exact ⟨[], first, rest, rfl, h.symm, h ▸ hholds, fun _ hmem => absurd hmem List.not_mem_nil⟩
      · by_cases hempty : slots.read (ahead start first slots.size) = .empty
        · rw [locateFrom_cons_of_empty hempty] at h
          exact absurd h (by simp only [reduceCtorEq, not_false_eq_true])
        · rw [locateFrom_cons_of_pass hempty hholds] at h
          rcases ih h with ⟨nearer, distance, farther, hrest, hindex, hkey, hpass⟩
          refine ⟨first :: nearer, distance, farther, by rw [hrest, List.cons_append], hindex, hkey,
            fun before hbefore => ?_⟩
          rcases List.mem_cons.mp hbefore with rfl | hlater
          · exact ⟨hempty, hholds⟩
          · exact hpass before hlater

/-- The distances of a window split at one of them into the smaller and the
    larger ones. -/
theorem offsets_eq_append_cons_iff {nearer farther : List Nat} :
    offsets = nearer ++ distance :: farther ↔
      distance < probeLimit ∧ nearer = List.range distance ∧
        farther = List.range' (distance + 1) (probeLimit - (distance + 1)) := by
  rw [offsets, List.range_eq_range', List.range'_eq_append_iff]
  constructor
  · intro hsplit
    rcases hsplit with ⟨size, hle, hnearer, hcons⟩
    rcases List.range'_eq_cons_iff.mp hcons.symm with ⟨hdistance, hpos, hfarther⟩
    -- The first part counts up from zero, so it is as long as its end says.
    have hsize : size = distance := by omega
    subst hsize
    refine ⟨by omega, by rw [hnearer, List.range_eq_range'], ?_⟩
    rw [hfarther, Nat.sub_add_eq]
  · intro hparts
    rcases hparts with ⟨hlt, hnearer, hfarther⟩
    refine ⟨distance, by omega, by rw [hnearer, List.range_eq_range'], ?_⟩
    refine (List.range'_eq_cons_iff.mpr ⟨by omega, by omega, ?_⟩).symm
    rw [hfarther, Nat.sub_add_eq]

/-- A look-up finds the nearest place that holds the key, if no empty place
    comes before it. -/
theorem locate_eq_some_iff :
    locate slots key = some index ↔
      ∃ distance, distance < probeLimit ∧ index = ahead (home key slots.size) distance slots.size ∧
        slots.Holds index key ∧ slots.Unbroken (home key slots.size) distance ∧
        ∀ nearer, nearer < distance →
          ¬ slots.Holds (ahead (home key slots.size) nearer slots.size) key := by
  constructor
  · intro h
    rcases exists_of_locateFrom_eq_some h with
      ⟨nearer, distance, farther, hsplit, hindex, hkey, hpass⟩
    rcases offsets_eq_append_cons_iff.mp hsplit with ⟨hlt, rfl, _⟩
    -- The smaller distances are those of the places that were passed.
    refine ⟨distance, hlt, hindex, hkey, ?_, ?_⟩
    · intro before hbefore
      exact (hpass before (List.mem_range.mpr hbefore)).1
    · intro before hbefore
      exact (hpass before (List.mem_range.mpr hbefore)).2
  · intro hfound
    rcases hfound with ⟨distance, hlt, rfl, hkey, hclear, hother⟩
    rw [locate, offsets_eq_append_cons_iff.mpr ⟨hlt, rfl, rfl⟩]
    refine locateFrom_append_cons ?_ hkey
    intro before hbefore
    have hnearer := List.mem_range.mp hbefore
    exact ⟨hclear before hnearer, hother before hnearer⟩

theorem locate_eq_none_of_absent (h : ∀ index, ¬ slots.Holds index key) :
    locate slots key = none := by
  rw [Option.eq_none_iff_forall_ne_some]
  intro index hlocate
  rcases locate_eq_some_iff.mp hlocate with ⟨_, _, _, hholds, _⟩
  exact h index hholds

/-- The nearest place at one of the given distances that no entry takes. -/
def firstFree (slots : Slots α) (start : Nat) (distances : List Nat) : Option Nat :=
  (distances.map fun distance => ahead start distance slots.size).find? fun index =>
    !(slots.read index).isEntry

theorem firstFree_cons {farther : List Nat} :
    firstFree slots start (distance :: farther) =
      if (slots.read (ahead start distance slots.size)).isEntry then
        firstFree slots start farther
      else some (ahead start distance slots.size) := by
  unfold firstFree
  rw [List.map_cons, List.find?_cons]
  cases (slots.read (ahead start distance slots.size)).isEntry with
  | true => simp only [Bool.not_true, if_true]
  | false => simp only [Bool.not_false, Bool.false_eq_true, if_false]

theorem firstFree_offsets_eq_some_iff :
    firstFree slots start offsets = some index ↔
      ∃ distance, distance < probeLimit ∧ index = ahead start distance slots.size ∧
        (slots.read index).isEntry = false ∧
        ∀ nearer, nearer < distance →
          (slots.read (ahead start nearer slots.size)).isEntry = true := by
  simp only [firstFree, offsets, List.find?_map, Option.map_eq_some_iff,
    List.find?_range_eq_some, List.mem_range, Function.comp_apply, Bool.not_not,
    Bool.not_eq_true']
  constructor
  · intro hfound
    rcases hfound with ⟨distance, ⟨hfree, hlt, hnearer⟩, rfl⟩
    exact ⟨distance, hlt, rfl, hfree, hnearer⟩
  · intro hnearest
    rcases hnearest with ⟨distance, hlt, rfl, hfree, hnearer⟩
    exact ⟨distance, ⟨hfree, hlt, hnearer⟩, rfl⟩

theorem firstFree_offsets_eq_none_iff :
    firstFree slots start offsets = none ↔
      ∀ distance, distance < probeLimit →
        (slots.read (ahead start distance slots.size)).isEntry = true := by
  simp only [firstFree, offsets, List.find?_map, Option.map_eq_none_iff,
    List.find?_range_eq_none, Function.comp_apply, Bool.not_not]

/-- The search of an insertion along a list of distances. It comes to the key
    where a look-up does, and to a free place otherwise: the remembered one, or
    else the nearest. -/
theorem placeFrom_eq (reusable : Option Nat) (distances : List Nat) :
    placeFrom slots key start reusable distances =
      match locateFrom slots key start distances with
      | some index => .found index
      | none =>
        match reusable.or (firstFree slots start distances) with
        | some index => .vacant index
        | none => .exhausted := by
  -- The remembered place is the only thing that changes on the way.
  induction distances generalizing reusable with
  | nil => cases reusable <;> rfl
  | cons distance farther ih =>
      rw [placeFrom, locateFrom, firstFree_cons]
      cases hread : slots.read (ahead start distance slots.size) with
      | empty => cases reusable <;> rfl
      | tombstone =>
          -- It is remembered if it is the first, and is then the nearest free place.
          simp only [ih]
          cases reusable <;> rfl
      | entry stored value =>
          by_cases heq : stored = key
          · simp only [if_pos heq]
          · simp only [if_neg heq, ih, Slot.isEntry, if_true]

/-- The search of an insertion comes to the key where a look-up does, and to
    the nearest free place of the window otherwise. -/
theorem place_eq_locate (slots : Slots α) (key : UInt64) :
    place slots key =
      match locate slots key with
      | some index => .found index
      | none =>
        match firstFree slots (home key slots.size) offsets with
        | some index => .vacant index
        | none => .exhausted := by
  rw [place, placeFrom_eq, locate, Option.none_or]

theorem place_eq_found_iff : place slots key = .found index ↔ locate slots key = some index := by
  rw [place_eq_locate]
  cases locate slots key with
  | some found => simp only [Place.found.injEq, Option.some.injEq]
  | none => cases firstFree slots (home key slots.size) offsets <;> simp only [reduceCtorEq]

theorem place_eq_vacant_iff :
    place slots key = .vacant index ↔
      locate slots key = none ∧ ∃ distance, distance < probeLimit ∧
        index = ahead (home key slots.size) distance slots.size ∧
        (slots.read index).isEntry = false ∧
        ∀ nearer, nearer < distance →
          (slots.read (ahead (home key slots.size) nearer slots.size)).isEntry = true := by
  rw [← firstFree_offsets_eq_some_iff, place_eq_locate]
  cases locate slots key with
  | some found => simp only [reduceCtorEq, false_and]
  | none =>
      cases firstFree slots (home key slots.size) offsets <;>
        simp only [reduceCtorEq, Place.vacant.injEq, Option.some.injEq, and_false, true_and]

theorem place_eq_exhausted_iff :
    place slots key = .exhausted ↔
      locate slots key = none ∧ ∀ distance, distance < probeLimit →
        (slots.read (ahead (home key slots.size) distance slots.size)).isEntry = true := by
  rw [← firstFree_offsets_eq_none_iff, place_eq_locate]
  cases locate slots key with
  | some found => simp only [reduceCtorEq, false_and]
  | none =>
      cases firstFree slots (home key slots.size) offsets <;>
        simp only [reduceCtorEq, and_false, and_self]

end BoundedProbing
