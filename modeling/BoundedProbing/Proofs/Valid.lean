import BoundedProbing.Proofs.Rebuild
import BoundedProbing.Table.Put

/-!
# Valid Tables

The invariants of a table, and the steps that keep them.

A table is changed in few ways: a value is replaced, a new entry takes a free
place, an entry gives its place up, every slot is emptied, or all entries move
to a new array. `Table.Valid` collects what holds in between. For each way
there is one lemma that it keeps a table valid and one that says what is stored
afterwards, and nothing later opens the definitions of these steps again.

The load bound is a clause of its own because a rebuild needs it: the new array
is no smaller than the old one, so it is at most half full as well.

## Main definitions

* `Table.Valid`: The invariants of a table.

## Theorems

* `Table.withCapacity_eq_ok_iff`: When a table is made, and which.
* `Table.valid_of_withCapacity`: A new table is valid.
* `Table.Valid.overwrite`, `Table.Valid.occupy`, `Table.Valid.free`,
  `Table.Valid.vacate`, `Table.Valid.remove`, `Table.Valid.clear`,
  `Table.Valid.rebuild`: The steps.
* `Table.Valid.stores_overwrite_iff` and its companions: What is stored after
  each step.
* `Table.Valid.count_pos`, `Table.Valid.tombstones_pos`: What is there was
  counted.
* `Table.Valid.get_eq_some_iff`: Looking a key up finds what is stored.
-/

namespace BoundedProbing

universe u

variable {α : Type u}

namespace Table

variable {table : Table α} {index capacity limit : Nat} {key stored : UInt64} {value kept : α}

/-- The invariants of a table. -/
structure Valid (table : Table α) : Prop where
  isPowerOfTwo : table.capacity.isPowerOfTwo
  count_eq : table.count = table.slots.countP Slot.isEntry
  tombstones_eq : table.tombstones = table.slots.countP Slot.isTombstone
  two_mul_count_le : 2 * table.count ≤ table.capacity
  sound : table.slots.Sound

theorem Valid.capacity_pos (h : table.Valid) : 0 < table.slots.size :=
  Nat.pos_of_isPowerOfTwo h.isPowerOfTwo

theorem Valid.count_pos (h : table.Valid) (hholds : table.slots.Holds index key) :
    0 < table.count := by
  rw [h.count_eq]
  exact Slots.countP_pos_of_read hholds.lt (Slots.isEntry_of_holds hholds)

theorem Valid.tombstones_pos (h : table.Valid) (hi : index < table.slots.size)
    (htomb : (table.slots.read index).isTombstone = true) : 0 < table.tombstones := by
  rw [h.tombstones_eq]
  exact Slots.countP_pos_of_read hi htomb

theorem Valid.get_eq_some_iff (h : table.Valid) :
    table.get key = some value ↔ table.slots.Stores key value := by
  unfold get
  rw [Option.bind_eq_some_iff]
  constructor
  · intro hfound
    rcases hfound with ⟨index, hlocate, hvalue⟩
    rcases h.sound.locate_eq_some_iff_holds.mp hlocate with ⟨held, hread⟩
    rw [hread, Slot.value?, Option.some.injEq] at hvalue
    exact ⟨index, by rw [hread, hvalue]⟩
  · intro hstores
    rcases hstores with ⟨index, hread⟩
    exact ⟨index, h.sound.locate_eq_some_iff_holds.mpr ⟨value, hread⟩, by rw [hread, Slot.value?]⟩

theorem Valid.get_eq_none_iff (h : table.Valid) :
    table.get key = none ↔ locate table.slots key = none := by
  rw [h.sound.locate_eq_none_iff, Option.eq_none_iff_forall_ne_some]
  constructor
  · intro hnone index hholds
    rcases hholds with ⟨value, hread⟩
    exact hnone value (h.get_eq_some_iff.mpr ⟨index, hread⟩)
  · intro hnone value hsome
    rcases h.get_eq_some_iff.mp hsome with ⟨index, hread⟩
    exact hnone index ⟨value, hread⟩

theorem Valid.get_eq_none_iff_not_mem_keys (h : table.Valid) :
    table.get key = none ↔ key ∉ table.slots.keys := by
  rw [h.get_eq_none_iff, h.sound.locate_eq_none_iff, Slots.mem_keys_iff, not_exists]

theorem Valid.contains_eq_isSome_get (h : table.Valid) (key : UInt64) :
    table.contains key = (table.get key).isSome := by
  rw [Bool.eq_iff_iff, contains, ← Option.ne_none_iff_isSome, ← Option.ne_none_iff_isSome,
    ne_eq, ne_eq, h.get_eq_none_iff]

theorem Valid.mem_keys_iff_contains (h : table.Valid) (key : UInt64) :
    key ∈ table.slots.keys ↔ table.contains key = true := by
  rw [h.contains_eq_isSome_get, ← Option.ne_none_iff_isSome, ne_eq,
    h.get_eq_none_iff_not_mem_keys, not_not]

/-- A slot shows a value by its index exactly if it holds an entry with it. -/
theorem getByIndex_eq_some_iff :
    table.getByIndex index = .ok (some value) ↔ ∃ key, table.slots.read index = .entry key value := by
  unfold getByIndex Slots.read
  rw [Array.getD_eq_getD_getElem?]
  cases table.slots[index]? with
  | none => simp only [reduceCtorEq, Option.getD_none, exists_false]
  | some slot =>
      simp only [Option.getD_some, Except.ok.injEq]
      cases slot with
      | empty => simp only [Slot.value?, reduceCtorEq, exists_false]
      | tombstone => simp only [Slot.value?, reduceCtorEq, exists_false]
      | entry key value => simp only [Slot.value?, Option.some.injEq, Slot.entry.injEq,
          exists_and_right, exists_eq', true_and]

theorem isPowerOfTwo_capacityFor (wanted : Nat) : (capacityFor wanted).isPowerOfTwo := by
  unfold capacityFor
  by_cases h : wanted ≤ 1
  · rw [if_pos h]
    exact Nat.isPowerOfTwo_one
  · rw [if_neg h]
    exact ⟨_, Nat.one_shiftLeft _⟩

theorem capacityFor_le_two_pow {wanted exponent : Nat} (h : wanted ≤ 2 ^ exponent) :
    capacityFor wanted ≤ 2 ^ exponent := by
  unfold capacityFor
  by_cases hone : wanted ≤ 1
  · rw [if_pos hone]
    exact Nat.two_pow_pos exponent
  · rw [if_neg hone, Nat.one_shiftLeft]
    have hlog : (wanted - 1).log2 < exponent := (Nat.log2_lt (by omega)).mpr (by omega)
    exact Nat.pow_le_pow_right (by omega) hlog

theorem valid_blank (h : capacity.isPowerOfTwo) : (blank capacity : Table α).Valid where
  isPowerOfTwo := by rwa [Table.capacity, blank, Slots.size_blank]
  count_eq := by rw [blank, Slots.countP_blank rfl]
  tombstones_eq := by rw [blank, Slots.countP_blank rfl]
  two_mul_count_le := Nat.zero_le _
  sound := Slots.sound_blank capacity

/-- A table is made for a wish of at most 2^63 if there is memory for it, and it
    is blank. -/
theorem withCapacity_eq_ok_iff {wanted : Nat} :
    withCapacity limit wanted = .ok table ↔
      wanted ≤ 2 ^ 63 ∧ capacityFor wanted ≤ limit ∧ blank (capacityFor wanted) = table := by
  have hmost : UInt64.size / 2 = 2 ^ 63 := rfl
  unfold withCapacity
  rw [hmost]
  by_cases hwanted : 2 ^ 63 < wanted
  · rw [if_pos hwanted]
    simp only [reduceCtorEq, false_iff, not_and]
    omega
  · rw [if_neg hwanted]
    by_cases hover : limit < capacityFor wanted
    · rw [if_pos hover]
      simp only [reduceCtorEq, false_iff, not_and]
      omega
    · rw [if_neg hover, Except.ok.injEq]
      exact ⟨fun h => ⟨by omega, by omega, h⟩, fun h => h.2.2⟩

theorem eq_blank_of_withCapacity {wanted : Nat} (h : withCapacity limit wanted = .ok table) :
    table = blank (capacityFor wanted) :=
  (withCapacity_eq_ok_iff.mp h).2.2.symm

/-- A new table is valid. -/
theorem valid_of_withCapacity {wanted : Nat} (h : withCapacity limit wanted = .ok table) :
    table.Valid := by
  rw [eq_blank_of_withCapacity h]
  exact valid_blank (isPowerOfTwo_capacityFor wanted)

theorem Valid.clear (h : table.Valid) : table.clear.Valid :=
  valid_blank h.isPowerOfTwo

theorem overwrite_eq (table : Table α) (index : Nat) (key : UInt64) (value : α) :
    table.overwrite index key value =
      ⟨⟨table.slots.write index (.entry key value), table.tombstones⟩, table.count⟩ :=
  rfl

theorem occupy_eq (table : Table α) (index : Nat) (key : UInt64) (value : α) :
    table.occupy index key value =
      ⟨⟨table.slots.write index (.entry key value),
        if (table.slots.read index).isTombstone then table.tombstones - 1 else table.tombstones⟩,
        table.count + 1⟩ :=
  rfl

theorem capacity_overwrite (table : Table α) (index : Nat) (key : UInt64) (value : α) :
    (table.overwrite index key value).capacity = table.capacity :=
  Slots.size_write table.slots index (.entry key value)

theorem capacity_occupy (table : Table α) (index : Nat) (key : UInt64) (value : α) :
    (table.occupy index key value).capacity = table.capacity :=
  Slots.size_write table.slots index (.entry key value)

theorem Valid.overwrite (h : table.Valid) (hholds : table.slots.Holds index key) (value : α) :
    (table.overwrite index key value).Valid := by
  refine ⟨?_, ?_, ?_, ?_, h.sound.write_found hholds value⟩
  · rw [capacity_overwrite]
    exact h.isPowerOfTwo
  -- An entry stands where an entry stood, so both counts stay.
  · have hcount := Slots.countP_write Slot.isEntry hholds.lt (.entry key value)
    rw [Slots.isEntry_of_holds hholds, if_pos rfl, Slot.isEntry, if_pos rfl] at hcount
    rw [overwrite_eq, h.count_eq]
    exact (Nat.add_right_cancel hcount).symm
  · have hcount := Slots.countP_isTombstone_write_entry hholds.lt key value
    rw [Slots.isTombstone_of_holds hholds, if_neg Bool.false_ne_true] at hcount
    rw [overwrite_eq, h.tombstones_eq]
    exact hcount.symm
  · rw [capacity_overwrite]
    exact h.two_mul_count_le

theorem Valid.stores_overwrite_iff (h : table.Valid) (hholds : table.slots.Holds index key) :
    (table.overwrite index key value).slots.Stores stored kept ↔
      if stored = key then kept = value else table.slots.Stores stored kept :=
  Slots.stores_write_entry_iff hholds.lt
    (fun other hother => h.sound.distinct key other index hother hholds)
    (fun _ hother => hholds.key_eq hother)

theorem Valid.occupy (h : table.Valid) (hplace : place table.slots key = .vacant index)
    (hroom : table.count < table.capacity / 2) (value : α) :
    (table.occupy index key value).Valid := by
  refine ⟨?_, ?_, ?_, ?_, h.sound.write_vacant h.capacity_pos hplace value⟩
  · rw [capacity_occupy]
    exact h.isPowerOfTwo
  · rw [occupy_eq, Slots.countP_isEntry_write_vacant h.capacity_pos hplace, h.count_eq]
  · have hcount := Slots.countP_isTombstone_write_entry
      (Slots.lt_of_vacant h.capacity_pos hplace) key value
    rw [occupy_eq, h.tombstones_eq]
    -- A tombstone written over is one less, and there was one to count.
    by_cases htomb : (table.slots.read index).isTombstone = true
    · rw [if_pos htomb] at hcount ⊢
      exact Nat.sub_eq_of_eq_add hcount.symm
    · rw [if_neg htomb] at hcount ⊢
      exact hcount.symm
  · rw [capacity_occupy]
    -- The room that was left is for this entry.
    change 2 * (table.count + 1) ≤ table.capacity
    omega

theorem Valid.stores_occupy_iff (h : table.Valid) (hplace : place table.slots key = .vacant index) :
    (table.occupy index key value).slots.Stores stored kept ↔
      if stored = key then kept = value else table.slots.Stores stored kept :=
  h.sound.stores_write_vacant_iff h.capacity_pos hplace

/-- A slot is vacated by a tombstone, which is counted, or by an empty slot, and
    then its successor is empty. -/
theorem vacate_eq (table : Table α) (index : Nat) :
    ∃ slot : Slot α, slot.isEntry = false ∧
      (slot = .empty → table.slots.read ((index + 1) % table.slots.size) = .empty) ∧
      table.vacate index = ⟨⟨table.slots.write index slot,
        table.tombstones + (if slot.isTombstone then 1 else 0)⟩, table.count - 1⟩ := by
  rcases table with ⟨⟨slots, tombstones⟩, count⟩
  unfold Table.vacate
  -- The successor decides whether a way may lead through the slot.
  by_cases hnext : (slots.read ((index + 1) % slots.size)).isEmpty = true
  · refine ⟨.empty, rfl, fun _ => Slots.eq_empty_of_isEmpty hnext, ?_⟩
    exact if_pos hnext
  · refine ⟨.tombstone, rfl, fun heq => ?_, ?_⟩
    · exact absurd heq (by simp only [reduceCtorEq, not_false_eq_true])
    · exact if_neg hnext

theorem capacity_vacate (table : Table α) (index : Nat) :
    (table.vacate index).capacity = table.capacity := by
  rcases vacate_eq table index with ⟨slot, _, _, heq⟩
  rw [heq, Table.capacity, Table.capacity, Slots.size_write]

/-- Giving up a taken slot keeps a table valid, if the slot becomes a tombstone,
    which is counted, or if its successor is empty. -/
theorem Valid.free {slot : Slot α} (h : table.Valid) (hholds : table.slots.Holds index key)
    (hfree : slot.isEntry = false)
    (hnext : slot = .empty → table.slots.read ((index + 1) % table.slots.size) = .empty) :
    (⟨⟨table.slots.write index slot, table.tombstones + (if slot.isTombstone then 1 else 0)⟩,
      table.count - 1⟩ : Table α).Valid := by
  have hcapacity : (table.slots.write index slot).size = table.capacity :=
    Slots.size_write table.slots index slot
  refine ⟨?_, ?_, ?_, ?_, h.sound.write_free hholds.lt hfree hnext⟩
  · rw [Table.capacity, hcapacity]
    exact h.isPowerOfTwo
  · have hcount := Slots.countP_write Slot.isEntry hholds.lt slot
    rw [Slots.isEntry_of_holds hholds, if_pos rfl, hfree, if_neg Bool.false_ne_true,
      ← h.count_eq] at hcount
    exact Nat.sub_eq_of_eq_add hcount.symm
  · have hcount := Slots.countP_write Slot.isTombstone hholds.lt slot
    rw [Slots.isTombstone_of_holds hholds, if_neg Bool.false_ne_true, ← h.tombstones_eq] at hcount
    exact hcount.symm
  · rw [Table.capacity, hcapacity]
    have hload := h.two_mul_count_le
    change 2 * (table.count - 1) ≤ table.capacity
    omega

theorem Valid.vacate (h : table.Valid) (hholds : table.slots.Holds index key) :
    (table.vacate index).Valid := by
  rcases vacate_eq table index with ⟨slot, hfree, hnext, heq⟩
  rw [heq]
  exact h.free hholds hfree hnext

theorem Valid.stores_vacate_iff (h : table.Valid) (hholds : table.slots.Holds index key) :
    (table.vacate index).slots.Stores stored kept ↔
      stored ≠ key ∧ table.slots.Stores stored kept := by
  rcases vacate_eq table index with ⟨slot, hfree, _, heq⟩
  rw [heq]
  exact Slots.stores_write_free_iff h.sound.distinct hholds hfree

/-- A removal vacates the slot of the key, if there is one, and answers with the
    value that was stored. -/
theorem Valid.remove_eq (h : table.Valid) (key : UInt64) :
    (table.remove key = (table, none) ∧ table.get key = none) ∨
      ∃ index value, table.remove key = (table.vacate index, some value) ∧
        table.slots.read index = .entry key value := by
  unfold Table.remove
  cases hlocate : locate table.slots key with
  | none => exact Or.inl ⟨rfl, h.get_eq_none_iff.mpr hlocate⟩
  | some index =>
      rcases h.sound.locate_eq_some_iff_holds.mp hlocate with ⟨value, hread⟩
      refine Or.inr ⟨index, value, ?_, hread⟩
      simp only [hread, Slot.value?]

theorem Valid.remove (h : table.Valid) (key : UInt64) : (table.remove key).1.Valid := by
  rcases h.remove_eq key with ⟨heq, _⟩ | ⟨index, value, heq, hread⟩
  · rw [heq]
    exact h
  · rw [heq]
    exact h.vacate ⟨value, hread⟩

/-- A removal answers with what a look-up would. -/
theorem Valid.remove_snd (h : table.Valid) (key : UInt64) :
    (table.remove key).2 = table.get key := by
  rcases h.remove_eq key with ⟨heq, hnone⟩ | ⟨index, value, heq, hread⟩
  · rw [heq, hnone]
  · rw [heq]
    exact (h.get_eq_some_iff.mpr ⟨index, hread⟩).symm

theorem Valid.stores_remove_iff (h : table.Valid) (key : UInt64) :
    (table.remove key).1.slots.Stores stored kept ↔
      stored ≠ key ∧ table.slots.Stores stored kept := by
  rcases h.remove_eq key with ⟨heq, hnone⟩ | ⟨index, value, heq, hread⟩
  · rw [heq]
    -- Nothing is removed, and nothing was stored under the key.
    refine ⟨fun hstores => ⟨fun hkey => ?_, hstores⟩, fun hboth => hboth.2⟩
    rw [hkey, ← h.get_eq_some_iff, hnone] at hstores
    exact absurd hstores (by simp only [reduceCtorEq, not_false_eq_true])
  · rw [heq]
    exact h.stores_vacate_iff ⟨value, hread⟩

/-- A rebuild at a capacity that is no smaller keeps a table valid, and what it
    stores. -/
theorem Valid.rebuild (h : table.Valid) {left : Layout α} (hle : table.capacity ≤ capacity)
    (hpow : capacity.isPowerOfTwo) (hok : (table.rebuild limit capacity).answer = .ok left) :
    (table.rebuild limit capacity).state.Valid ∧
      ∀ key value, (table.rebuild limit capacity).state.slots.Stores key value ↔
        table.slots.Stores key value := by
  rcases rebuild_eq_of_ok hok with ⟨_, slots, hfit, hstate⟩
  rcases exists_placeAll_of_refit hfit with ⟨doublings, hfill⟩
  -- The array that took the entries is a filled blank one of a larger power of two.
  have hlarger : (capacity * 2 ^ doublings).isPowerOfTwo :=
    isPowerOfTwo_mul_two_pow hpow doublings
  have hsize := size_placeAll _ _ _ hfill
  rw [Slots.size_blank] at hsize
  rcases placeAll_blank (Nat.pos_of_isPowerOfTwo hlarger) (Slots.nodup_keys h.sound.distinct)
    hfill with ⟨hsound, hentries, htombs, hstores⟩
  rw [hstate]
  refine ⟨⟨?_, ?_, htombs.symm, ?_, hsound⟩, fun key value => ?_⟩
  · rw [Table.capacity, hsize]
    exact hlarger
  · rw [hentries, Slots.length_entries, h.count_eq]
  -- It is no smaller than the old array, which was at most half full.
  · have hgrown := le_size_refit _ _ _ _ hfit
    have hload := h.two_mul_count_le
    simp only [Table.capacity] at hgrown hload hle ⊢
    omega
  · rw [hstores, Slots.mem_entries_iff]

end Table

end BoundedProbing
