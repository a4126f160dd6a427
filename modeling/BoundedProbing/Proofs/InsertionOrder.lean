import BoundedProbing.Proofs.Distances
import BoundedProbing.Proofs.KeyMap
import BoundedProbing.Proofs.Log
import BoundedProbing.Proofs.Parking

/-!
# The Order of Insertions

Which places of a table are taken, and how far its entries lie from home in
all, does not depend on the order in which its keys came.

Which key lies where does depend on it. So a table is seen as a lot here, where
it only matters that a place is taken. An insertion that succeeds without a
rebuild parks the home of its key, since the nearest free place of the window is
the nearest free place of all. Some orders of the same keys may fill a window
and lead to a rebuild while others do not. This is why two insertions are never
exchanged in a table. Each of the two runs is turned into a series of walks, and
these can be exchanged whether or not a table would allow it.

## Main definitions

* `Table.lot`: A table seen as a lot.
* `Inserts`: Insertions that succeed without a rebuild.

## Theorems

* `Table.distances_sum_eq`: The distances, added up place by place.
* `Table.Valid.totalDistance_eq_gone`: The total distance is the one gone.
* `Table.lot_occupy`: Storing a new key is a walk from its home.
* `Table.plan_eq_occupy_of_put`: What an insertion without a rebuild does.
* `Inserts.contains_iff`: Which keys such insertions store.
* `Inserts.parkAll_eq`: They are walks from the homes of their keys.
* `Table.occupied_of_perm`: The taken places and the total distance do not
  depend on the order.
-/

namespace BoundedProbing

universe u

variable {α : Type u}

/-- The taken places of a table, and how far its entries lie from home in all. -/
def Table.lot (table : Table α) : Lot where
  taken := (Finset.range table.capacity).filter fun index => (table.slots.read index).isEntry
  gone := table.distances.sum

/-- Insertions of these pairs, in this order, that all succeed without a rebuild
    lead from the first table to the second. -/
inductive Inserts : Table α → List (UInt64 × α) → Table α → Prop where
  | done (table : Table α) : Inserts table [] table
  | more {table last : Table α} {key : UInt64} {value : α} {rest : List (UInt64 × α)}
      (limit : Nat) (previous : Option α)
      (hok : (table.put limit key value).answer = .ok previous)
      (hsame : rebuildTold (table.put limit key value).history = false)
      (hrest : Inserts (table.put limit key value).state rest last) :
      Inserts table ((key, value) :: rest) last

namespace Table

variable {table : Table α} {limit index : Nat} {key : UInt64} {value : α}

theorem mem_taken_lot_iff :
    index ∈ table.lot.taken ↔ (table.slots.read index).isEntry = true := by
  rw [lot, Finset.mem_filter, Finset.mem_range, and_iff_right_iff_imp]
  intro hentry
  rcases Slots.exists_holds_of_isEntry hentry with ⟨_, hholds⟩
  exact hholds.lt

theorem sum_filterMap_distanceAt (table : Table α) (places : List Nat) :
    (places.filterMap table.distanceAt).sum =
      (places.map fun index => (table.distanceAt index).getD 0).sum := by
  induction places with
  | nil => rfl
  | cons index rest ih =>
      rw [List.map_cons, List.sum_cons, ← ih]
      cases hat : table.distanceAt index with
      | none => rw [List.filterMap_cons_none hat, Option.getD_none, Nat.zero_add]
      | some distance => rw [List.filterMap_cons_some hat, List.sum_cons, Option.getD_some]

/-- The distances, added up place by place. -/
theorem distances_sum_eq (table : Table α) :
    table.distances.sum =
      ∑ index ∈ Finset.range table.capacity, (table.distanceAt index).getD 0 := by
  rw [distances_eq_filterMap, sum_filterMap_distanceAt]
  rfl

theorem Valid.totalDistance_eq_gone (h : table.Valid) :
    table.histogram.totalDistance = table.lot.gone :=
  Histogram.totalDistance_ofDistances fun _ => h.distance_lt

theorem distanceAt_occupy (hi : index < table.slots.size) (key : UInt64) (value : α) (other : Nat) :
    (table.occupy index key value).distanceAt other =
      if other = index then some (distanceFrom (home key table.capacity) index table.capacity)
      else table.distanceAt other := by
  rw [distanceAt, capacity_occupy, occupy_eq, Slots.read_write _ _ _ _ hi]
  by_cases hother : other = index
  · rw [if_pos hother, if_pos hother, hother]
  · rw [if_neg hother, if_neg hother, distanceAt]

/-- The distance of a new entry is added. -/
theorem distances_sum_occupy (hi : index < table.slots.size)
    (hfree : (table.slots.read index).isEntry = false) (key : UInt64) (value : α) :
    (table.occupy index key value).distances.sum =
      table.distances.sum + distanceFrom (home key table.capacity) index table.capacity := by
  have hmem : index ∈ Finset.range table.capacity := Finset.mem_range.mpr hi
  have hbefore : table.distanceAt index = none := by
    rw [Option.eq_none_iff_forall_ne_some]
    intro distance hat
    rcases distanceAt_eq_some_iff.mp hat with ⟨stored, hholds, _⟩
    rw [Slots.isEntry_of_holds hholds] at hfree
    exact Bool.false_ne_true hfree.symm
  have helsewhere : ∑ place ∈ (Finset.range table.capacity).erase index,
      ((table.occupy index key value).distanceAt place).getD 0 =
        ∑ place ∈ (Finset.range table.capacity).erase index, (table.distanceAt place).getD 0 :=
    Finset.sum_congr rfl fun place hplace => by
      rw [distanceAt_occupy hi, if_neg (Finset.ne_of_mem_erase hplace)]
  rw [distances_sum_eq, distances_sum_eq, capacity_occupy, ← Finset.add_sum_erase _ _ hmem,
    ← Finset.add_sum_erase _ _ hmem, helsewhere, distanceAt_occupy hi, if_pos rfl, hbefore,
    Option.getD_some, Option.getD_none, Nat.zero_add, Nat.add_comm]

theorem taken_lot_occupy (hi : index < table.slots.size) (key : UInt64) (value : α) :
    (table.occupy index key value).lot.taken = insert index table.lot.taken := by
  ext place
  rw [Finset.mem_insert, mem_taken_lot_iff, mem_taken_lot_iff, occupy_eq,
    Slots.read_write _ _ _ _ hi]
  by_cases hplace : place = index
  · simp only [hplace, ↓reduceIte, Slot.isEntry, true_or]
  · simp only [hplace, ↓reduceIte, false_or]

/-- The free place that an insertion comes to is the one that a walk from the
    home of its key comes to. -/
theorem gap_of_place_eq_vacant (hpos : 0 < table.capacity)
    (hplace : place table.slots key = .vacant index) :
    ∃ distance, Lot.gap table.capacity table.lot.taken (home key table.capacity) = some distance ∧
      ahead (home key table.capacity) distance table.capacity = index ∧
      distanceFrom (home key table.capacity) index table.capacity = distance := by
  rcases (place_eq_vacant_iff.mp hplace).2 with ⟨distance, _, rfl, hfree, hnearer⟩
  -- A walk around the array would have met the place before.
  have hlt : distance < table.capacity := by
    by_contra hlong
    have hmod : distance % table.capacity < table.capacity := Nat.mod_lt _ hpos
    have htaken := hnearer (distance % table.capacity) (by omega)
    rw [capacity, ahead_mod, hfree] at htaken
    exact Bool.false_ne_true htaken
  refine ⟨distance, Lot.gap_eq_some_iff.mpr ⟨hlt, ?_, fun nearer hless => ?_⟩, rfl, ?_⟩
  · rw [mem_taken_lot_iff, capacity, hfree]
    exact Bool.false_ne_true
  · rw [mem_taken_lot_iff]
    exact hnearer nearer hless
  · exact (distanceFrom_ahead (home_lt key hpos) distance).trans (Nat.mod_eq_of_lt hlt)

/-- Storing a new key is a walk from its home. -/
theorem lot_occupy (hpos : 0 < table.capacity) (hplace : place table.slots key = .vacant index)
    (value : α) :
    table.lot.park table.capacity (home key table.capacity) =
      some (table.occupy index key value).lot := by
  have hi := Slots.lt_of_vacant hpos hplace
  rcases place_eq_vacant_iff.mp hplace with ⟨_, _, _, _, hfree, _⟩
  rcases gap_of_place_eq_vacant hpos hplace with ⟨distance, hgap, hindex, hdistance⟩
  rw [Lot.park_eq_some hgap, Option.some.injEq, hindex, ← hdistance]
  exact Lot.ext (taken_lot_occupy hi key value).symm (distances_sum_occupy hi hfree key value).symm

/-- An insertion of a new key that succeeds without a rebuild takes a free
    place. -/
theorem plan_eq_occupy_of_put (habsent : locate table.slots key = none) {previous : Option α}
    (hok : (table.put limit key value).answer = .ok previous)
    (hsame : rebuildTold (table.put limit key value).history = false) :
    ∃ index, table.plan key = .occupy index := by
  rcases put_course limit table key value with ⟨events, last, hrebuilds, hend⟩
  rcases hend.told_eq with ⟨_, _, htold, _⟩ | ⟨fault, herror, _⟩
  · rw [← rebuildTold_told, htold, hrebuilds.rebuildTold_eq] at hsame
    cases hrebuilds with
    | more hplan hdone hrest =>
        have hsome := history_rebuild_ne_nil hdone
        rw [Bool.not_eq_false', List.isEmpty_iff, List.append_eq_nil_iff,
          List.append_eq_nil_iff] at hsame
        exact absurd hsame.1.2 hsome
    | done =>
        generalize table.put limit key value = outcome at hend hok
        cases hend with
        | overwrote hplan =>
            have hplanned := table.planned key
            rw [hplan] at hplanned
            cases hplanned with
            | overwrite hplace =>
                exact absurd (habsent.symm.trans (place_eq_found_iff.mp hplace))
                  (by simp only [reduceCtorEq, not_false_eq_true])
        | occupied hplan => exact ⟨_, hplan⟩
        | refused hplan =>
            exact absurd hok (by simp only [reduceCtorEq, not_false_eq_true])
        | stuck hplan hstuck =>
            exact absurd hok (by simp only [reduceCtorEq, not_false_eq_true])
  · exact absurd (hok.symm.trans herror) (by simp only [reduceCtorEq, not_false_eq_true])

end Table

namespace Inserts

variable {table last : Table α} {pairs : List (UInt64 × α)}

/-- The keys of such insertions are stored, and no others are added. -/
theorem contains_iff (h : Inserts table pairs last) (hvalid : table.Valid) (key : UInt64) :
    last.contains key = true ↔ table.contains key = true ∨ key ∈ pairs.map Prod.fst := by
  induction h with
  | done table => simp only [List.map_nil, List.not_mem_nil, or_false]
  | @more table last stored value rest limit previous hok hsame hrest ih =>
      have hnext := hvalid.put limit stored value
      have hput : (table.put limit stored value).state.contains key = true ↔
          key = stored ∨ table.contains key = true := by
        rw [hnext.contains_eq_isSome_get, hvalid.get_put_ok hok, hvalid.contains_eq_isSome_get]
        by_cases hkey : key = stored
        · simp only [hkey, ↓reduceIte, Option.isSome_some, true_or]
        · simp only [hkey, ↓reduceIte, false_or]
      rw [ih hnext, hput, List.map_cons, List.mem_cons, or_assoc, or_left_comm]

/-- Insertions of distinct new keys are walks from the homes of these. -/
theorem parkAll_eq (h : Inserts table pairs last) (hvalid : table.Valid)
    (hnodup : (pairs.map Prod.fst).Nodup)
    (habsent : ∀ key ∈ pairs.map Prod.fst, table.get key = none) :
    last.Valid ∧ last.capacity = table.capacity ∧
      table.lot.parkAll table.capacity
        ((pairs.map Prod.fst).map fun key => home key table.capacity) = some last.lot := by
  induction h with
  | done table => exact ⟨hvalid, rfl, rfl⟩
  | @more table last key value rest limit previous hok hsame hrest ih =>
      rw [List.map_cons, List.nodup_cons] at hnodup
      have hnone : locate table.slots key = none :=
        hvalid.get_eq_none_iff.mp (habsent key List.mem_cons_self)
      rcases Table.plan_eq_occupy_of_put hnone hok hsame with ⟨index, hplan⟩
      have hplace := (Table.place_of_plan_eq_occupy hplan).1
      -- No key still to come is stored by this insertion.
      have hlater : ∀ other ∈ rest.map Prod.fst,
          (table.put limit key value).state.get other = none := by
        intro other hmem
        have hne : other ≠ key := fun heq => hnodup.1 (heq ▸ hmem)
        rw [hvalid.get_put_ok hok, if_neg hne]
        exact habsent other (List.mem_cons_of_mem _ hmem)
      rcases ih (hvalid.put limit key value) hnodup.2 hlater with ⟨hlast, hcapacity, hrun⟩
      have hstate : (table.put limit key value).state = table.occupy index key value := by
        rw [Table.put_eq_of_plan_eq_occupy hplan]
      rw [hstate, Table.capacity_occupy] at hcapacity hrun
      refine ⟨hlast, hcapacity, ?_⟩
      rw [List.map_cons, List.map_cons,
        Lot.parkAll_cons (Table.lot_occupy hvalid.capacity_pos hplace value)]
      exact hrun

end Inserts

namespace Table

/-- Two runs of insertions into an empty table, with the same distinct keys in
    two orders and with any values, that all succeed without a rebuild, take the
    same places for these keys, and the entries lie as far from home in all. -/
theorem occupied_of_perm {capacity : Nat} {left right : Table α} {pairs others : List (UInt64 × α)}
    (hpow : capacity.isPowerOfTwo) (hnodup : (pairs.map Prod.fst).Nodup)
    (hperm : (pairs.map Prod.fst).Perm (others.map Prod.fst))
    (hleft : Inserts (blank capacity) pairs left)
    (hright : Inserts (blank capacity) others right) :
    left.capacity = right.capacity ∧
      (∀ key, (left.contains key = true ↔ key ∈ pairs.map Prod.fst) ∧
        (right.contains key = true ↔ key ∈ pairs.map Prod.fst)) ∧
      (∀ index, (left.slots.read index).isEntry = (right.slots.read index).isEntry) ∧
      left.histogram.totalDistance = right.histogram.totalDistance := by
  have hvalid : (blank capacity : Table α).Valid := valid_blank hpow
  have hfresh : ∀ key : UInt64, (blank capacity : Table α).get key = none := fun key =>
    hvalid.get_eq_none_iff.mpr (locate_eq_none_of_absent fun index =>
      Slots.not_holds_blank capacity index key)
  rcases hleft.parkAll_eq hvalid hnodup fun key _ => hfresh key with
    ⟨hvleft, hcleft, hpleft⟩
  rcases hright.parkAll_eq hvalid (hperm.nodup_iff.mp hnodup) fun key _ => hfresh key with
    ⟨hvright, hcright, hpright⟩
  have hnone : ∀ key : UInt64, (blank capacity : Table α).contains key = false := fun key => by
    rw [hvalid.contains_eq_isSome_get, hfresh, Option.isSome_none]
  -- The homes of the keys can be parked in either order.
  have hlot : left.lot = right.lot := by
    rw [Lot.parkAll_perm _ (hperm.map _) fun start hmem => ?_, hpright] at hpleft
    · exact (Option.some.inj hpleft).symm
    · rcases List.mem_map.mp hmem with ⟨key, _, rfl⟩
      exact home_lt key hvalid.capacity_pos
  refine ⟨hcleft.trans hcright.symm, fun key => ⟨?_, ?_⟩, fun index => ?_, ?_⟩
  · rw [hleft.contains_iff hvalid, hnone, or_iff_right Bool.false_ne_true]
  · rw [hright.contains_iff hvalid, hnone, or_iff_right Bool.false_ne_true, hperm.mem_iff]
  · rw [Bool.eq_iff_iff, ← mem_taken_lot_iff, ← mem_taken_lot_iff, hlot]
  · rw [hvleft.totalDistance_eq_gone, hvright.totalDistance_eq_gone, hlot]

/-- Four keys of two homes, the last slot and the second, in two orders. The
    same places are taken, but no key lies in the same one. -/
theorem occupied_of_perm_around :
    ∃ left right : Table Nat,
      Inserts (blank 8) [(1, 10), (2, 20), (3, 30), (4, 40)] left ∧
      Inserts (blank 8) [(2, 21), (1, 11), (4, 41), (3, 31)] right ∧
      [1, 2, 3, 4].map (locate left.slots) = [some 7, some 0, some 1, some 2] ∧
      [1, 2, 3, 4].map (locate right.slots) = [some 0, some 7, some 2, some 1] ∧
      (∀ index, (left.slots.read index).isEntry = (right.slots.read index).isEntry) ∧
      left.histogram.totalDistance = right.histogram.totalDistance := by
  have hleft : Inserts (blank 8 : Table Nat) [(1, 10), (2, 20), (3, 30), (4, 40)] _ :=
    .more 8 none (by decide +kernel) (by decide +kernel) <|
    .more 8 none (by decide +kernel) (by decide +kernel) <|
    .more 8 none (by decide +kernel) (by decide +kernel) <|
    .more 8 none (by decide +kernel) (by decide +kernel) (.done _)
  have hright : Inserts (blank 8 : Table Nat) [(2, 21), (1, 11), (4, 41), (3, 31)] _ :=
    .more 8 none (by decide +kernel) (by decide +kernel) <|
    .more 8 none (by decide +kernel) (by decide +kernel) <|
    .more 8 none (by decide +kernel) (by decide +kernel) <|
    .more 8 none (by decide +kernel) (by decide +kernel) (.done _)
  rcases occupied_of_perm ⟨3, rfl⟩ (by decide) (by decide) hleft hright with
    ⟨_, _, hplaces, htotal⟩
  exact ⟨_, _, hleft, hright, by decide +kernel, by decide +kernel, hplaces, htotal⟩

end Table

end BoundedProbing
