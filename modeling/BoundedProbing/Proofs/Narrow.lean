import BoundedProbing.Proofs.Homes
import BoundedProbing.Proofs.Requests
import BoundedProbing.Proofs.Saturation

/-!
# Keys of 32 Bits

A table with narrow keys never gets stuck.

Keys of 32 bits mix differently, so no two of them compete for a home once
there is a slot for every word. From 2^32 slots on, each entry lies at its home
and every search ends there: the home of a new key is free, because only the
key itself could be in it. So a rebuild cannot fail at such a size, and no
window is ever full. One more doubling may come from the load, since 2^32 slots
are half full with 2^31 entries. At 2^33 slots there are not enough keys of 32
bits to make it come again.

That each entry is at home does not follow from the reach of entries alone,
which would let an entry lie behind a tombstone. It is an invariant of its own,
and `Slots.Settled` asks it only of arrays that are large enough. In smaller
arrays it asks nothing but narrow keys, so it holds of every table on the way.

## Main definitions

* `Slots.Lands`: Where the search of an insertion ends.
* `Slots.Settled`: Keys are narrow, and in a large array all are at home.
* `Table.Narrow`: A valid table with a settled array.
* `Op.putKey?`: The key that an operation puts.

## Theorems

* `home_inj_of_narrow`: Narrow keys have different homes in a large array.
* `Slots.Settled.lands_home`: There every search ends at the home.
* `placeAll_settled`, `exists_placeAll_of_settled`: What placing entries keeps,
  and that it succeeds.
* `Table.Narrow.run`: Runs with narrow keys keep a table narrow.
* `Table.Narrow.put_ne_windowSaturated`: No narrow key is refused for its mix.
* `Table.Narrow.exists_put_ok`: With memory for 2^33 slots no key is refused.
* `Table.run_of_narrow_keys`: The same for whole runs.
-/

namespace BoundedProbing

universe u

variable {α : Type u}

/-- Narrow keys have different homes where every word has a slot. -/
theorem home_inj_of_narrow {left right : UInt64} {capacity : Nat} (hcapacity : 2 ^ 32 ≤ capacity)
    (hleft : left.toNat < 2 ^ 32) (hright : right.toNat < 2 ^ 32)
    (h : home left capacity = home right capacity) : left = right := by
  rw [home_eq_mix left hcapacity, home_eq_mix right hcapacity] at h
  exact eq_of_mix_eq hleft hright (UInt32.toNat_inj.mp h)

namespace Slots

variable {slots : Slots α} {key : UInt64} {value : α} {index : Nat} {slot : Slot α}

/-- The search of an insertion ends at this place: it holds the key, or the key
    may be written there. -/
def Lands (slots : Slots α) (key : UInt64) (index : Nat) : Prop :=
  place slots key = .found index ∨ place slots key = .vacant index

theorem Lands.eq {other : Nat} (h : slots.Lands key index) (ho : slots.Lands key other) :
    index = other := by
  rcases h with hfound | hvacant
  · rcases ho with hother | hother
    · exact Place.found.inj (hfound.symm.trans hother)
    · exact absurd (hfound.symm.trans hother) (by simp only [reduceCtorEq, not_false_eq_true])
  · rcases ho with hother | hother
    · exact absurd (hvacant.symm.trans hother) (by simp only [reduceCtorEq, not_false_eq_true])
    · exact Place.vacant.inj (hvacant.symm.trans hother)

theorem Lands.lt (h : slots.Lands key index) (hpos : 0 < slots.size) : index < slots.size := by
  rcases h with hfound | hvacant
  · rcases locate_eq_some_iff.mp (place_eq_found_iff.mp hfound) with ⟨_, _, rfl, _⟩
    exact ahead_lt hpos _ _
  · exact lt_of_vacant hpos hvacant

theorem Lands.ne_exhausted (h : slots.Lands key index) : place slots key ≠ .exhausted := by
  intro hexhausted
  rcases h with hfound | hvacant
  · exact absurd (hexhausted.symm.trans hfound) (by simp only [reduceCtorEq, not_false_eq_true])
  · exact absurd (hexhausted.symm.trans hvacant) (by simp only [reduceCtorEq, not_false_eq_true])

/-- All keys are narrow, and if every word has a slot, all entries are at home. -/
structure Settled (slots : Slots α) : Prop where
  narrow : ∀ index key, slots.Holds index key → key.toNat < 2 ^ 32
  atHome : 2 ^ 32 ≤ slots.size → ∀ index key, slots.Holds index key → index = home key slots.size

theorem settled_blank (capacity : Nat) : (blank capacity : Slots α).Settled :=
  ⟨fun _ _ h => absurd h (not_holds_blank _ _ _), fun _ _ _ h => absurd h (not_holds_blank _ _ _)⟩

/-- A key at home is found at once. -/
theorem locate_eq_home (h : slots.Holds (home key slots.size) key) :
    locate slots key = some (home key slots.size) := by
  refine locate_eq_some_iff.mpr ⟨0, Nat.zero_lt_succ 7, ?_, h, ?_, ?_⟩
  · rw [ahead, Nat.add_zero, Nat.mod_eq_of_lt h.lt]
  · exact fun nearer hlt => absurd hlt (Nat.not_lt_zero nearer)
  · exact fun nearer hlt => absurd hlt (Nat.not_lt_zero nearer)

/-- An absent key may be written at its home, if that is free. -/
theorem place_eq_vacant_home (hpos : 0 < slots.size) (hnone : locate slots key = none)
    (hfree : (slots.read (home key slots.size)).isEntry = false) :
    place slots key = .vacant (home key slots.size) := by
  refine place_eq_vacant_iff.mpr ⟨hnone, 0, Nat.zero_lt_succ 7, ?_, hfree, ?_⟩
  · rw [ahead, Nat.add_zero, Nat.mod_eq_of_lt (home_lt key hpos)]
  · exact fun nearer hlt => absurd hlt (Nat.not_lt_zero nearer)

/-- Where every word has a slot, a search ends at the home of its key. -/
theorem Settled.lands_home (h : slots.Settled) (hkey : key.toNat < 2 ^ 32)
    (hsize : 2 ^ 32 ≤ slots.size) : slots.Lands key (home key slots.size) := by
  have hhome : ∀ index stored, slots.Holds index stored → index = home stored slots.size :=
    h.atHome hsize
  by_cases hheld : slots.Holds (home key slots.size) key
  · exact Or.inl (place_eq_found_iff.mpr (locate_eq_home hheld))
  · refine Or.inr (place_eq_vacant_home (Nat.lt_of_lt_of_le (Nat.two_pow_pos 32) hsize) ?_ ?_)
    · -- The key is nowhere else, since it would be at home there.
      refine locate_eq_none_of_absent fun index hholds => ?_
      rw [hhome index key hholds] at hholds
      exact hheld hholds
    · -- And no other key is at its home, since that key would have to be the same.
      rw [← Bool.not_eq_true]
      intro hentry
      rcases exists_holds_of_isEntry hentry with ⟨stored, hholds⟩
      have hsame : stored = key := home_inj_of_narrow hsize (h.narrow _ stored hholds) hkey
        (hhome _ stored hholds).symm
      rw [hsame] at hholds
      exact hheld hholds

/-- An entry that is put where its search ended keeps an array settled. -/
theorem Settled.write_lands (h : slots.Settled) (hkey : key.toNat < 2 ^ 32)
    (hlands : slots.Lands key index) (hi : index < slots.size) (value : α) :
    (slots.write index (.entry key value)).Settled := by
  -- What the written slot holds is the key, and all other slots are as they were.
  constructor
  · intro other stored hholds
    rw [holds_write_entry_iff hi] at hholds
    by_cases hat : other = index
    · rw [if_pos hat] at hholds
      rw [hholds]
      exact hkey
    · rw [if_neg hat] at hholds
      exact h.narrow other stored hholds
  · rw [size_write]
    intro hsize other stored hholds
    rw [holds_write_entry_iff hi] at hholds
    by_cases hat : other = index
    · rw [if_pos hat] at hholds
      -- The search ended at the home, whether the key was there or not.
      rw [hholds, hat]
      exact hlands.eq (h.lands_home hkey hsize)
    · rw [if_neg hat] at hholds
      exact h.atHome hsize other stored hholds

theorem Settled.write_free (h : slots.Settled) (hi : index < slots.size)
    (hfree : slot.isEntry = false) : (slots.write index slot).Settled := by
  have hold : ∀ other stored, (slots.write index slot).Holds other stored →
      slots.Holds other stored := by
    intro other stored hholds
    rw [holds_write_iff hi] at hholds
    by_cases hat : other = index
    · rw [if_pos hat] at hholds
      rcases hholds with ⟨kept, heq⟩
      rw [heq] at hfree
      exact absurd hfree.symm Bool.false_ne_true
    · rwa [if_neg hat] at hholds
  refine ⟨fun other stored hholds => h.narrow other stored (hold other stored hholds), ?_⟩
  rw [size_write]
  exact fun hsize other stored hholds => h.atHome hsize other stored (hold other stored hholds)

end Slots

variable {slots filled : Slots α} {pairs : List (UInt64 × α)}

/-- Placing an entry is writing it where its search ended. -/
theorem placeAll_cons_of_lands {key : UInt64} {value : α} {index : Nat}
    (h : slots.Lands key index) :
    placeAll ((key, value) :: pairs) slots =
      placeAll pairs (slots.write index (.entry key value)) := by
  rw [placeAll]
  rcases h with hfound | hvacant
  · rw [hfound]
  · rw [hvacant]

/-- Placing narrow keys keeps an array settled. -/
theorem placeAll_settled (hsettled : slots.Settled) (hpos : 0 < slots.size)
    (hpairs : ∀ pair ∈ pairs, pair.1.toNat < 2 ^ 32) (h : placeAll pairs slots = some filled) :
    filled.Settled := by
  -- The array changes with every entry, so the induction is over all arrays.
  induction pairs generalizing slots with
  | nil =>
      rw [placeAll, Option.some.injEq] at h
      exact h ▸ hsettled
  | cons pair rest ih =>
      rcases pair with ⟨key, value⟩
      have hkey : key.toNat < 2 ^ 32 := hpairs (key, value) List.mem_cons_self
      have hrest : ∀ pair ∈ rest, pair.1.toNat < 2 ^ 32 :=
        fun pair hpair => hpairs pair (List.mem_cons_of_mem _ hpair)
      have hstep : ∀ index, slots.Lands key index → filled.Settled := by
        intro index hlands
        rw [placeAll_cons_of_lands hlands] at h
        refine ih (hsettled.write_lands hkey hlands (hlands.lt hpos) value) ?_ hrest h
        rwa [Slots.size_write]
      cases hplace : place slots key with
      | found index => exact hstep index (Or.inl hplace)
      | vacant index => exact hstep index (Or.inr hplace)
      | exhausted =>
          rw [placeAll, hplace] at h
          exact absurd h (by simp only [reduceCtorEq, not_false_eq_true])

/-- Where every word has a slot, there is a place for each narrow key. -/
theorem exists_placeAll_of_settled (hsettled : slots.Settled) (hsize : 2 ^ 32 ≤ slots.size)
    (hpairs : ∀ pair ∈ pairs, pair.1.toNat < 2 ^ 32) :
    ∃ filled, placeAll pairs slots = some filled := by
  -- Each array on the way is as large and settled, so the next search ends at a place as well.
  induction pairs generalizing slots with
  | nil => exact ⟨slots, rfl⟩
  | cons pair rest ih =>
      rcases pair with ⟨key, value⟩
      have hkey : key.toNat < 2 ^ 32 := hpairs (key, value) List.mem_cons_self
      have hlands := hsettled.lands_home hkey hsize
      have hi := hlands.lt (Nat.lt_of_lt_of_le (Nat.two_pow_pos 32) hsize)
      rw [placeAll_cons_of_lands hlands]
      refine ih (hsettled.write_lands hkey hlands hi value) ?_ fun pair hpair =>
        hpairs pair (List.mem_cons_of_mem _ hpair)
      rwa [Slots.size_write]

theorem settled_of_refit {limit capacity : Nat} (hpos : 0 < capacity)
    (hpairs : ∀ pair ∈ pairs, pair.1.toNat < 2 ^ 32)
    (h : (refit limit pairs capacity).2 = .ok slots) : slots.Settled := by
  rcases exists_placeAll_of_refit h with ⟨doublings, hfill⟩
  refine placeAll_settled (Slots.settled_blank _) ?_ hpairs hfill
  rw [Slots.size_blank]
  exact Nat.mul_pos hpos (Nat.two_pow_pos doublings)

/-- A rebuild with memory for 2^33 slots succeeds, since it need not try more
    than 2^32 slots unless it starts there. -/
theorem exists_refit_ok {limit capacity : Nat} (hpos : 0 < capacity) (hcapacity : capacity ≤ 2 ^ 33)
    (hlimit : 2 ^ 33 ≤ limit) (hpairs : ∀ pair ∈ pairs, pair.1.toNat < 2 ^ 32) :
    ∃ slots, (refit limit pairs capacity).2 = .ok slots ∧ slots.size ≤ 2 ^ 33 := by
  -- An attempt that fails was made with fewer slots than there are words.
  have hsmall : ∀ capacity, placeAll pairs (Slots.blank capacity) = none → capacity < 2 ^ 32 := by
    intro capacity hnone
    by_contra hc
    rcases exists_placeAll_of_settled (Slots.settled_blank capacity)
      (by rw [Slots.size_blank]; omega) hpairs with ⟨filled, hfill⟩
    exact absurd (hnone.symm.trans hfill) (by simp only [reduceCtorEq, not_false_eq_true])
  fun_induction refit limit pairs capacity with
  | case1 capacity hover => omega
  | case2 capacity _ filled hfill =>
      have hsize := size_placeAll _ _ _ hfill
      rw [Slots.size_blank] at hsize
      exact ⟨filled, rfl, by omega⟩
  | case3 capacity _ hnone hoverflow =>
      have hlt := hsmall capacity hnone
      have hdouble := doubled_of_lt hpos (by omega)
      exact absurd (hoverflow.symm.trans hdouble) (by simp only [reduceCtorEq, not_false_eq_true])
  | case4 capacity _ hnone larger hlarger tried ih =>
      have hlt := hsmall capacity hnone
      have hdouble := (doubled_eq_some_iff.mp hlarger).1
      exact ih (by omega) (by omega)

/-- Different keys below a bound are no more than the bound. -/
theorem length_le_of_toNat_lt {keys : List UInt64} {bound : Nat} (hnodup : keys.Nodup)
    (h : ∀ key ∈ keys, key.toNat < bound) : keys.length ≤ bound := by
  have hnumbers : (keys.map UInt64.toNat).Nodup :=
    hnodup.map fun left right heq => UInt64.toNat_inj.mp heq
  have hsub : keys.map UInt64.toNat ⊆ List.range bound := by
    intro number hmem
    rcases List.mem_map.mp hmem with ⟨key, hkey, rfl⟩
    exact List.mem_range.mpr (h key hkey)
  have hlength := (hnumbers.subperm hsub).length_le
  rwa [List.length_map, List.length_range] at hlength

namespace Table

variable {table : Table α} {limit capacity index : Nat} {key : UInt64} {value : α}

/-- A valid table with narrow keys, each of them at home if every word has a
    slot. -/
structure Narrow (table : Table α) : Prop where
  valid : table.Valid
  settled : table.slots.Settled

theorem Narrow.of_mem_entries (h : table.Narrow) :
    ∀ pair ∈ table.slots.entries, pair.1.toNat < 2 ^ 32 := by
  intro pair hmem
  rcases pair with ⟨key, value⟩
  rcases Slots.mem_entries_iff.mp hmem with ⟨index, hread⟩
  exact h.settled.narrow index key ⟨value, hread⟩

/-- There are 2^32 narrow keys, and one of them is absent. -/
theorem Narrow.count_lt (h : table.Narrow) (hkey : key.toNat < 2 ^ 32)
    (habsent : key ∉ table.slots.keys) : table.count < 2 ^ 32 := by
  have hnodup : (key :: table.slots.keys).Nodup :=
    List.nodup_cons.mpr ⟨habsent, Slots.nodup_keys h.valid.sound.distinct⟩
  have hnarrow : ∀ stored ∈ key :: table.slots.keys, stored.toNat < 2 ^ 32 := by
    intro stored hmem
    rcases List.mem_cons.mp hmem with rfl | hlater
    · exact hkey
    · rcases List.mem_map.mp hlater with ⟨pair, hpair, rfl⟩
      exact h.of_mem_entries pair hpair
  have hlength := length_le_of_toNat_lt hnodup hnarrow
  rwa [List.length_cons, Slots.length_keys, ← h.valid.count_eq] at hlength

/-- At 2^33 slots a narrow key finds its home, and the load leaves room for it. -/
theorem Narrow.capacity_lt_of_mustGrow (h : table.Narrow) (hkey : key.toNat < 2 ^ 32)
    (hgrow : table.MustGrow key) : table.capacity < 2 ^ 33 := by
  by_contra hc
  rcases hgrow with ⟨index, hplace, hload⟩ | ⟨hplace, _, _⟩
  · -- A free place is for an absent key, and then half of the slots are more than the entries.
    have habsent : key ∉ table.slots.keys := by
      rw [← h.valid.get_eq_none_iff_not_mem_keys, h.valid.get_eq_none_iff]
      exact (place_eq_vacant_iff.mp hplace).1
    have hcount := h.count_lt hkey habsent
    omega
  · have hsize : 2 ^ 32 ≤ table.slots.size := by
      unfold capacity at hc
      omega
    exact (h.settled.lands_home hkey hsize).ne_exhausted hplace

theorem le_two_pow_of_lt {exponent : Nat} (hpow : capacity.isPowerOfTwo)
    (h : capacity < 2 ^ (exponent + 1)) : capacity ≤ 2 ^ exponent := by
  rcases hpow with ⟨power, rfl⟩
  have hlt := (Nat.pow_lt_pow_iff_right (by omega)).mp h
  exact Nat.pow_le_pow_right (by omega) (by omega)

theorem Narrow.le_of_plan_eq_rebuild (h : table.Narrow) (hkey : key.toNat < 2 ^ 32)
    (hcapacity : table.capacity ≤ 2 ^ 33) (hplan : table.plan key = .rebuild capacity) :
    capacity ≤ 2 ^ 33 := by
  have hplanned := table.planned key
  rw [hplan] at hplanned
  cases hplanned with
  | refresh _ _ _ => exact hcapacity
  | enlarge hgrow hlarger =>
      have hle := le_two_pow_of_lt h.valid.isPowerOfTwo (h.capacity_lt_of_mustGrow hkey hgrow)
      have hdouble := (doubled_eq_some_iff.mp hlarger).1
      omega

theorem Narrow.rebuild (h : table.Narrow) {left : Layout α}
    (hplan : table.plan key = .rebuild capacity)
    (hok : (table.rebuild limit capacity).answer = .ok left) :
    (table.rebuild limit capacity).state.Narrow := by
  rcases Table.le_of_plan_eq_rebuild hplan with ⟨hle, hpow⟩
  refine ⟨(h.valid.rebuild hle (hpow h.valid.isPowerOfTwo) hok).1, ?_⟩
  rcases rebuild_eq_of_ok hok with ⟨_, slots, hfit, hstate⟩
  rw [hstate]
  exact settled_of_refit (Nat.lt_of_lt_of_le h.valid.capacity_pos hle) h.of_mem_entries hfit

theorem Narrow.exists_rebuild_ok (h : table.Narrow) (hkey : key.toNat < 2 ^ 32)
    (hcapacity : table.capacity ≤ 2 ^ 33) (hlimit : 2 ^ 33 ≤ limit)
    (hplan : table.plan key = .rebuild capacity) :
    (∃ left, (table.rebuild limit capacity).answer = .ok left) ∧
      (table.rebuild limit capacity).state.capacity ≤ 2 ^ 33 := by
  have hle := (Table.le_of_plan_eq_rebuild hplan).1
  rcases exists_refit_ok (Nat.lt_of_lt_of_le h.valid.capacity_pos hle)
    (h.le_of_plan_eq_rebuild hkey hcapacity hplan) hlimit h.of_mem_entries with ⟨slots, hfit, hsize⟩
  rw [Table.rebuild_eq_of_refit_ok hfit]
  exact ⟨⟨_, rfl⟩, hsize⟩

end Table

namespace Rebuilds

variable {table last : Table α} {limit : Nat} {key : UInt64} {events : List Event}

theorem narrow (h : Rebuilds limit key table events last) (hnarrow : table.Narrow) :
    last.Narrow := by
  induction h with
  | done table => exact hnarrow
  | more hplan hok _ ih => exact ih (hnarrow.rebuild hplan hok)

theorem capacity_le_of_narrow (h : Rebuilds limit key table events last)
    (hkey : key.toNat < 2 ^ 32) (hnarrow : table.Narrow) (hcapacity : table.capacity ≤ 2 ^ 33)
    (hlimit : 2 ^ 33 ≤ limit) : last.capacity ≤ 2 ^ 33 := by
  induction h with
  | done table => exact hcapacity
  | more hplan hok _ ih =>
      exact ih (hnarrow.rebuild hplan hok)
        (hnarrow.exists_rebuild_ok hkey hcapacity hlimit hplan).2

end Rebuilds

/-- The key that the operation puts, if it puts any. -/
def Op.putKey? : Op α → Option UInt64
  | .put _ key _ => some key
  | _ => none

namespace Table

variable {table : Table α} {op : Op α} {ops : List (Op α)} {limit capacity : Nat} {key : UInt64}

theorem Narrow.put (h : table.Narrow) (hkey : key.toNat < 2 ^ 32) (limit : Nat) (value : α) :
    (table.put limit key value).state.Narrow := by
  refine ⟨h.valid.put limit key value, ?_⟩
  rcases put_course limit table key value with ⟨events, last, hrebuilds, hend⟩
  have hlast := hrebuilds.narrow h
  generalize table.put limit key value = outcome at hend ⊢
  cases hend with
  | @overwrote index hplan =>
      have hholds := holds_of_plan_eq_overwrite hlast.valid hplan
      have hplace := place_eq_found_iff.mpr (hlast.valid.sound.locate_eq_some_iff_holds.mpr hholds)
      rw [overwrite_eq]
      exact hlast.settled.write_lands hkey (Or.inl hplace) hholds.lt value
  | @occupied index hplan =>
      have hplace := (place_of_plan_eq_occupy hplan).1
      rw [occupy_eq]
      exact hlast.settled.write_lands hkey (Or.inr hplace)
        (Slots.lt_of_vacant hlast.valid.capacity_pos hplace) value
  | refused hplan => exact h.settled
  | stuck hplan herror => exact h.settled

/-- A narrow key that is absent shares its mix with no stored key. -/
theorem Narrow.put_ne_windowSaturated (h : table.Narrow) (hkey : key.toNat < 2 ^ 32) (limit : Nat)
    (value : α) : (table.put limit key value).answer ≠ .error (.windowSaturated key) := by
  intro hanswer
  rcases h.valid.sharing_of_windowSaturated hanswer with ⟨habsent, hfull⟩
  rcases List.countP_pos_iff.mp (hfull ▸ Nat.zero_lt_succ 7 : 0 < table.sharing (mix key)) with
    ⟨stored, hmem, hmix⟩
  rcases List.mem_map.mp hmem with ⟨pair, hpair, rfl⟩
  -- Eight stored keys share the mix of this one, and the first of them is this one.
  have hsame := eq_of_mix_eq (h.of_mem_entries pair hpair) hkey (eq_of_beq hmix)
  exact habsent (hsame ▸ hmem)

/-- With memory for 2^33 slots a narrow key is always stored, and 2^33 slots
    are never exceeded. -/
theorem Narrow.exists_put_ok (h : table.Narrow) (hkey : key.toNat < 2 ^ 32)
    (hcapacity : table.capacity ≤ 2 ^ 33) (hlimit : 2 ^ 33 ≤ limit) (value : α) :
    (∃ previous, (table.put limit key value).answer = .ok previous) ∧
      (table.put limit key value).state.capacity ≤ 2 ^ 33 := by
  have hsaturated := h.put_ne_windowSaturated hkey limit value
  rcases put_course limit table key value with ⟨events, last, hrebuilds, hend⟩
  have hlast := hrebuilds.narrow h
  have hle := hrebuilds.capacity_le_of_narrow hkey h hcapacity hlimit
  generalize table.put limit key value = outcome at hsaturated hend ⊢
  cases hend with
  | overwrote hplan =>
      rw [capacity_overwrite]
      exact ⟨⟨_, rfl⟩, hle⟩
  | occupied hplan =>
      rw [capacity_occupy]
      exact ⟨⟨_, rfl⟩, hle⟩
  | refused hplan =>
      have hplanned := last.planned key
      rw [hplan] at hplanned
      cases hplanned with
      | saturated _ _ => exact absurd rfl hsaturated
      | overflow _ hnone =>
          -- Twice 2^33 is still a number of 64 bits.
          have hdouble : doubled last.capacity = some (2 * last.capacity) :=
            doubled_of_lt hlast.valid.capacity_pos (by omega)
          exact absurd (hnone.symm.trans hdouble) (by simp only [reduceCtorEq, not_false_eq_true])
  | stuck hplan herror =>
      rcases (hlast.exists_rebuild_ok hkey hle hlimit hplan).1 with ⟨left, hok⟩
      exact absurd (herror.symm.trans hok) (by simp only [reduceCtorEq, not_false_eq_true])

theorem Narrow.remove (h : table.Narrow) (key : UInt64) : (table.remove key).1.Narrow := by
  refine ⟨h.valid.remove key, ?_⟩
  rcases h.valid.remove_eq key with ⟨heq, _⟩ | ⟨index, value, heq, hread⟩
  · rw [heq]
    exact h.settled
  · rcases vacate_eq table index with ⟨slot, hfree, _, hvacate⟩
    have hholds : table.slots.Holds index key := ⟨value, hread⟩
    rw [heq, hvacate]
    exact h.settled.write_free hholds.lt hfree

theorem narrow_blank (h : capacity.isPowerOfTwo) : (blank capacity : Table α).Narrow :=
  ⟨valid_blank h, Slots.settled_blank capacity⟩

theorem Narrow.perform (h : table.Narrow) (hkeys : ∀ key ∈ op.putKey?, key.toNat < 2 ^ 32) :
    (table.perform op).1.Narrow := by
  cases op with
  | put limit key value => exact h.put (hkeys key rfl) limit value
  | get key => exact h
  | contains key => exact h
  | remove key => exact h.remove key
  | clear => exact narrow_blank h.valid.isPowerOfTwo
  | length => exact h
  | copy => exact h

theorem Narrow.perform_ne_windowSaturated (h : table.Narrow)
    (hkeys : ∀ key ∈ op.putKey?, key.toNat < 2 ^ 32) (key : UInt64) :
    (table.perform op).2 ≠ .stored (.error (.windowSaturated key)) := by
  cases op with
  | put limit other value =>
      intro hreply
      have hanswer := Reply.stored.inj hreply
      -- The key of the fault is the one that was put.
      rcases error_of_put hanswer with hsame | ⟨wanted, hcause | hcause⟩
      · rw [hsame] at hanswer
        exact h.put_ne_windowSaturated (hkeys other rfl) limit value hanswer
      · exact absurd hcause (by simp only [reduceCtorEq, not_false_eq_true])
      · exact absurd hcause (by simp only [reduceCtorEq, not_false_eq_true])
  | _ => exact fun hreply => absurd hreply (by simp only [Table.perform, reduceCtorEq,
      not_false_eq_true])

/-- With memory for 2^33 slots no operation fails, and 2^33 slots are enough. -/
theorem Narrow.perform_ok (h : table.Narrow) (hkeys : ∀ key ∈ op.putKey?, key.toNat < 2 ^ 32)
    (hlimits : ∀ limit ∈ op.limit?, 2 ^ 33 ≤ limit) (hcapacity : table.capacity ≤ 2 ^ 33) :
    (∀ fault, (table.perform op).2 ≠ .stored (.error fault)) ∧
      (table.perform op).1.capacity ≤ 2 ^ 33 := by
  cases op with
  | put limit key value =>
      rcases h.exists_put_ok (hkeys key rfl) hcapacity (hlimits limit rfl) value with
        ⟨⟨previous, hok⟩, hle⟩
      refine ⟨fun fault hreply => ?_, hle⟩
      exact absurd (hok.symm.trans (Reply.stored.inj hreply)) (by simp only [reduceCtorEq,
        not_false_eq_true])
  | _ =>
      refine ⟨fun fault hreply => ?_, le_of_eq_of_le (capacity_perform rfl) hcapacity⟩
      exact absurd hreply (by simp only [Table.perform, reduceCtorEq, not_false_eq_true])

/-- Runs with narrow keys keep a table narrow, and no key is refused for its
    mix. -/
theorem Narrow.run (h : table.Narrow)
    (hkeys : ∀ op ∈ ops, ∀ key ∈ op.putKey?, key.toNat < 2 ^ 32) :
    (table.run ops).1.Narrow ∧
      ∀ key, Reply.stored (.error (.windowSaturated key)) ∉ (table.run ops).2 := by
  induction ops generalizing table with
  | nil => exact ⟨h, fun _ hmem => absurd hmem List.not_mem_nil⟩
  | cons op rest ih =>
      have hop := hkeys op List.mem_cons_self
      rcases ih (h.perform hop) fun later hlater => hkeys later (List.mem_cons_of_mem _ hlater) with
        ⟨hlast, hrest⟩
      refine ⟨hlast, fun key hmem => ?_⟩
      rcases List.mem_cons.mp hmem with hfirst | hlater
      · exact h.perform_ne_windowSaturated hop key hfirst.symm
      · exact hrest key hlater

/-- With memory for 2^33 slots no operation of a run fails. -/
theorem Narrow.run_ok (h : table.Narrow)
    (hkeys : ∀ op ∈ ops, ∀ key ∈ op.putKey?, key.toNat < 2 ^ 32)
    (hlimits : ∀ op ∈ ops, ∀ limit ∈ op.limit?, 2 ^ 33 ≤ limit)
    (hcapacity : table.capacity ≤ 2 ^ 33) :
    (∀ fault, Reply.stored (.error fault) ∉ (table.run ops).2) ∧
      (table.run ops).1.capacity ≤ 2 ^ 33 := by
  induction ops generalizing table with
  | nil => exact ⟨fun _ hmem => absurd hmem List.not_mem_nil, hcapacity⟩
  | cons op rest ih =>
      have hop := hkeys op List.mem_cons_self
      rcases h.perform_ok hop (hlimits op List.mem_cons_self) hcapacity with ⟨hreply, hle⟩
      rcases ih (h.perform hop) (fun later hlater => hkeys later (List.mem_cons_of_mem _ hlater))
        (fun later hlater => hlimits later (List.mem_cons_of_mem _ hlater)) hle with
        ⟨hrest, hlast⟩
      refine ⟨fun fault hmem => ?_, hlast⟩
      rcases List.mem_cons.mp hmem with hfirst | hlater
      · exact hreply fault hfirst.symm
      · exact hrest fault hlater

/-- A table that only ever takes keys of 32 bits refuses none of them for its
    mix, under any limits. If it is made with at most 2^33 slots and there is
    always memory for so many, every insertion succeeds, and the table never
    has more. -/
theorem run_of_narrow_keys {wanted : Nat} (h : withCapacity limit wanted = .ok table)
    (hkeys : ∀ op ∈ ops, ∀ key ∈ op.putKey?, key.toNat < 2 ^ 32) :
    (∀ key, Reply.stored (.error (.windowSaturated key)) ∉ (table.run ops).2) ∧
      (wanted ≤ 2 ^ 33 → (∀ op ∈ ops, ∀ limit ∈ op.limit?, 2 ^ 33 ≤ limit) →
        (∀ fault, Reply.stored (.error fault) ∉ (table.run ops).2) ∧
          ∀ steps, (table.run (ops.take steps)).1.capacity ≤ 2 ^ 33) := by
  have hmade := eq_blank_of_withCapacity h
  have hnarrow : table.Narrow := hmade ▸ narrow_blank (isPowerOfTwo_capacityFor wanted)
  refine ⟨(hnarrow.run hkeys).2, fun hwanted hlimits => ?_⟩
  have hcapacity : table.capacity ≤ 2 ^ 33 := by
    rw [hmade, Table.capacity, blank, Slots.size_blank]
    exact capacityFor_le_two_pow hwanted
  refine ⟨(hnarrow.run_ok hkeys hlimits hcapacity).1, fun steps => ?_⟩
  -- Stopping early is a run of its own.
  exact (hnarrow.run_ok (fun op hmem => hkeys op (List.mem_of_mem_take hmem))
    (fun op hmem => hlimits op (List.mem_of_mem_take hmem)) hcapacity).2

/-- Nine keys with one home in arrays of 16, 32, 64 and 128 slots. The ninth
    needs an array of 256. -/
theorem run_of_narrow_keys_crowded :
    let keys : List UInt64 := [38, 122, 301, 334, 676, 710, 947, 1235, 1394]
    let ops : List (Op Nat) := keys.map (.put (2 ^ 33) · 0)
    withCapacity (2 ^ 33) 16 = .ok (blank 16 : Table Nat) ∧ 16 ≤ 2 ^ 33 ∧
      (∀ op ∈ ops, ∀ key ∈ op.putKey?, key.toNat < 2 ^ 32) ∧
      (∀ op ∈ ops, ∀ limit ∈ op.limit?, 2 ^ 33 ≤ limit) ∧
      ((blank 16).run (ops.take 8)).1.capacity = 16 ∧ ((blank 16).run ops).1.capacity = 256 ∧
      (∀ key, Reply.stored (.error (.windowSaturated key)) ∉ ((blank 16).run ops).2) ∧
      (∀ fault, Reply.stored (.error fault) ∉ ((blank 16).run ops).2) ∧
      ∀ steps, ((blank 16).run (ops.take steps)).1.capacity ≤ 2 ^ 33 := by
  intro keys ops
  have hmade : withCapacity (2 ^ 33) 16 = .ok (blank 16 : Table Nat) := rfl
  have hwanted : 16 ≤ 2 ^ 33 := by decide
  have hnumbers : ∀ number ∈ keys.map UInt64.toNat, number < 2 ^ 32 := by decide
  have hkeys : ∀ op ∈ ops, ∀ key ∈ op.putKey?, key.toNat < 2 ^ 32 := by
    intro op hop key hkey
    rcases List.mem_map.mp hop with ⟨stored, hmem, rfl⟩
    rw [← Option.mem_some_iff.mp hkey]
    exact hnumbers _ (List.mem_map_of_mem hmem)
  have hlimits : ∀ op ∈ ops, ∀ limit ∈ op.limit?, 2 ^ 33 ≤ limit := by decide
  rcases run_of_narrow_keys hmade hkeys with ⟨hsaturated, hbounded⟩
  rcases hbounded hwanted hlimits with ⟨hok, hcapacity⟩
  exact ⟨hmade, hwanted, hkeys, hlimits, by decide +kernel, by decide +kernel, hsaturated, hok,
    hcapacity⟩

end Table

end BoundedProbing
