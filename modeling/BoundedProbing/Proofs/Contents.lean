import Mathlib.Tactic.ByContra
import BoundedProbing.Proofs.Search

/-!
# What an Array of Slots Stores

The entries of an array as a list, as a relation and as a count.

The relation `Slots.Stores` forgets where an entry is. That is the view in
which writing a slot is an insertion or a removal, and in which two arrays of
different sizes can be compared. The list and the count see the same entries,
and once no key is in two places the list of keys has no repetition, so that
arrays which store the same entries list them up to order.

## Main definitions

* `Slots.Stores`: Some slot holds this value under this key.
* `Slots.Distinct`: No key is held by two slots.
* `Slots.keys`: The stored keys, in slot order.

## Theorems

* `Slots.toList_eq_map_read`: The slots of an array are what is read in it.
* `Slots.countP_pos_of_read`, `Slots.countP_write`: What is counted, and how
  writing a slot changes the count.
* `Slots.holds_write_iff`, `Slots.stores_write_iff`: What a written array holds
  and stores.
* `Slots.mem_entries_iff`, `Slots.mem_keys_iff`: The lists agree with the
  relations.
* `Slots.length_entries`: The list is as long as the count of taken slots.
* `Slots.pairwise_entries`, `Slots.nodup_keys`: Entries are listed in the order
  of their slots, and distinct keys once each.
* `Slots.keys_perm`: Arrays that store the same entries have the same keys.
-/

namespace BoundedProbing

universe u

variable {α : Type u}

namespace Slots

variable {slots : Slots α} {index other : Nat} {key : UInt64} {value : α} {slot : Slot α}

theorem read_eq_getElem (h : index < slots.size) : slots.read index = slots[index] := by
  rw [read, Array.getD_eq_getD_getElem?, Array.getElem?_eq_getElem h, Option.getD_some]

/-- An array is what reading its places in order gives. -/
theorem toList_eq_map_read (slots : Slots α) :
    slots.toList = (List.range slots.size).map slots.read := by
  refine List.ext_getElem (by simp only [Array.length_toList, List.length_map,
    List.length_range]) fun index hi _ => ?_
  rw [List.getElem_map, List.getElem_range, Array.getElem_toList, read_eq_getElem hi]

theorem lt_of_read_ne_empty (h : slots.read index ≠ .empty) : index < slots.size := by
  by_contra hc
  refine h ?_
  rw [read, Array.getD_eq_getD_getElem?, Array.getElem?_eq_none (Nat.le_of_not_lt hc),
    Option.getD_none]

theorem Holds.lt (h : slots.Holds index key) : index < slots.size := by
  rcases h with ⟨value, hread⟩
  exact lt_of_read_ne_empty (by rw [hread]; simp only [ne_eq, reduceCtorEq, not_false_eq_true])

theorem isEntry_of_holds (h : slots.Holds index key) : (slots.read index).isEntry = true := by
  rcases h with ⟨value, hread⟩
  rw [hread, Slot.isEntry]

theorem exists_holds_of_isEntry (h : (slots.read index).isEntry = true) :
    ∃ key, slots.Holds index key := by
  unfold Holds
  cases hread : slots.read index with
  | empty =>
      rw [hread] at h
      exact absurd h Bool.false_ne_true
  | tombstone =>
      rw [hread] at h
      exact absurd h Bool.false_ne_true
  | entry key value => exact ⟨key, value, rfl⟩

theorem isTombstone_of_holds (h : slots.Holds index key) :
    (slots.read index).isTombstone = false := by
  rcases h with ⟨value, hread⟩
  rw [hread]
  rfl

/-- A slot holds at most one key. -/
theorem Holds.key_eq {otherKey : UInt64} (h : slots.Holds index key)
    (ho : slots.Holds index otherKey) : otherKey = key := by
  rcases h with ⟨value, hread⟩
  rcases ho with ⟨otherValue, hother⟩
  rw [hread, Slot.entry.injEq] at hother
  exact hother.1.symm

theorem eq_empty_of_isEmpty (h : slot.isEmpty = true) : slot = .empty := by
  cases slot with
  | empty => rfl
  | tombstone => exact absurd h Bool.false_ne_true
  | entry key value => exact absurd h Bool.false_ne_true

theorem countP_blank {p : Slot α → Bool} (h : p .empty = false) (capacity : Nat) :
    (blank capacity).countP p = 0 := by
  rw [blank, Array.countP_replicate, h, if_neg Bool.false_ne_true]

/-- A slot of a kind that is counted makes the count positive. -/
theorem countP_pos_of_read {p : Slot α → Bool} (hi : index < slots.size)
    (hp : p (slots.read index) = true) : 0 < slots.countP p := by
  rw [read_eq_getElem hi] at hp
  exact Array.countP_pos_iff.mpr ⟨slots[index], Array.getElem_mem hi, hp⟩

theorem countP_write (p : Slot α → Bool) (h : index < slots.size) (slot : Slot α) :
    (slots.write index slot).countP p + (if p (slots.read index) then 1 else 0) =
      slots.countP p + (if p slot then 1 else 0) := by
  -- A slot that is counted before the write is one of those counted, so the
  -- difference in the count of a written array is a true one.
  have hle : (if p (slots.read index) then 1 else 0) ≤ slots.countP p := by
    by_cases hp : p (slots.read index) = true
    · rw [if_pos hp]
      exact countP_pos_of_read h hp
    · rw [if_neg hp]
      exact Nat.zero_le _
  rw [read_eq_getElem h] at hle ⊢
  rw [write, Array.setIfInBounds, dif_pos h, Array.countP_set h]
  omega

theorem holds_write_iff (hi : index < slots.size) :
    (slots.write index slot).Holds other key ↔
      if other = index then ∃ value, slot = .entry key value else slots.Holds other key := by
  rw [Holds, read_write slots index other slot hi]
  by_cases h : other = index
  · rw [if_pos h, if_pos h]
  · rw [if_neg h, if_neg h, Holds]

theorem holds_write_entry_iff {stored : UInt64} (hi : index < slots.size) :
    (slots.write index (.entry key value)).Holds other stored ↔
      if other = index then stored = key else slots.Holds other stored := by
  rw [holds_write_iff hi]
  by_cases hat : other = index
  · rw [if_pos hat, if_pos hat]
    constructor
    · intro hentry
      rcases hentry with ⟨kept, heq⟩
      rw [Slot.entry.injEq] at heq
      exact heq.1.symm
    · exact fun hkey => ⟨value, by rw [hkey]⟩
  · rw [if_neg hat, if_neg hat]

/-- A key that is nowhere in an array is not brought in by another key. -/
theorem not_holds_write_entry {absent : UInt64} (hi : index < slots.size)
    (h : ∀ other, ¬ slots.Holds other absent) (hne : absent ≠ key) (other : Nat) :
    ¬ (slots.write index (.entry key value)).Holds other absent := by
  intro hholds
  rw [holds_write_entry_iff hi] at hholds
  by_cases hat : other = index
  · rw [if_pos hat] at hholds
    exact hne hholds
  · rw [if_neg hat] at hholds
    exact h other hholds

/-- Some slot holds this value under this key. -/
def Stores (slots : Slots α) (key : UInt64) (value : α) : Prop :=
  ∃ index, slots.read index = .entry key value

/-- No key is held by two slots. -/
def Distinct (slots : Slots α) : Prop :=
  ∀ key index other, slots.Holds index key → slots.Holds other key → index = other

theorem stores_write_iff (hi : index < slots.size) :
    (slots.write index slot).Stores key value ↔
      slot = .entry key value ∨ ∃ other, other ≠ index ∧ slots.read other = .entry key value := by
  constructor
  · intro hstores
    rcases hstores with ⟨other, hread⟩
    rw [read_write slots index other slot hi] at hread
    by_cases h : other = index
    · rw [if_pos h] at hread
      exact Or.inl hread
    · rw [if_neg h] at hread
      exact Or.inr ⟨other, h, hread⟩
  · intro hcases
    rcases hcases with hslot | ⟨other, h, hread⟩
    · exact ⟨index, by rw [read_write slots index index slot hi, if_pos rfl, hslot]⟩
    · exact ⟨other, by rw [read_write slots index other slot hi, if_neg h, hread]⟩

/-- Writing an entry stores it and keeps the entries of all other keys, if the
    slot held no other key and no other slot held this one. -/
theorem stores_write_entry_iff {stored : UInt64} {kept : α} (hi : index < slots.size)
    (hkey : ∀ other, slots.Holds other key → other = index)
    (hslot : ∀ stored, slots.Holds index stored → stored = key) :
    (slots.write index (.entry key value)).Stores stored kept ↔
      if stored = key then kept = value else slots.Stores stored kept := by
  rw [stores_write_iff hi, Slot.entry.injEq]
  -- The written key is nowhere else, and another key is not in the written slot.
  by_cases h : stored = key
  · rw [if_pos h]
    constructor
    · intro hcases
      rcases hcases with ⟨_, hvalue⟩ | ⟨other, hne, hread⟩
      · exact hvalue.symm
      · exact absurd (hkey other ⟨kept, h ▸ hread⟩) hne
    · exact fun hvalue => Or.inl ⟨h.symm, hvalue.symm⟩
  · rw [if_neg h]
    constructor
    · intro hcases
      rcases hcases with ⟨hkeys, _⟩ | ⟨other, _, hread⟩
      · exact absurd hkeys.symm h
      · exact ⟨other, hread⟩
    · intro hstores
      rcases hstores with ⟨other, hread⟩
      refine Or.inr ⟨other, fun heq => h ?_, hread⟩
      exact hslot stored ⟨kept, heq ▸ hread⟩

/-- Writing a free slot over the entry of a key removes that entry alone. -/
theorem stores_write_free_iff {stored : UInt64} {kept : α} (hdistinct : slots.Distinct)
    (hholds : slots.Holds index key) (hfree : slot.isEntry = false) :
    (slots.write index slot).Stores stored kept ↔ stored ≠ key ∧ slots.Stores stored kept := by
  have hnot : slot ≠ .entry stored kept := by
    intro heq
    rw [heq, Slot.isEntry] at hfree
    exact absurd hfree (by simp only [Bool.true_eq_false, not_false_eq_true])
  rw [stores_write_iff hholds.lt, or_iff_right hnot]
  -- Since keys are distinct, every other slot holds another key.
  constructor
  · intro helse
    rcases helse with ⟨other, hne, hread⟩
    refine ⟨fun heq => hne ?_, other, hread⟩
    exact hdistinct key other index ⟨kept, heq ▸ hread⟩ hholds
  · intro hboth
    rcases hboth with ⟨hne, other, hread⟩
    refine ⟨other, fun heq => hne ?_, hread⟩
    exact hholds.key_eq ⟨kept, heq ▸ hread⟩

theorem entries_eq_filterMap (slots : Slots α) :
    slots.entries = slots.toList.filterMap Slot.entry? := by
  rw [entries, Array.toList_filterMap]

theorem entry?_eq_some_iff : slot.entry? = some (key, value) ↔ slot = .entry key value := by
  cases slot with
  | empty => simp only [Slot.entry?, reduceCtorEq]
  | tombstone => simp only [Slot.entry?, reduceCtorEq]
  | entry stored kept => simp only [Slot.entry?, Option.some.injEq, Prod.mk.injEq,
      Slot.entry.injEq]

theorem mem_iff_exists_read (hslot : slot ≠ .empty) :
    slot ∈ slots.toList ↔ ∃ index, slots.read index = slot := by
  rw [Array.mem_toList_iff, Array.mem_iff_getElem]
  constructor
  · intro hmem
    rcases hmem with ⟨index, hi, heq⟩
    exact ⟨index, by rw [read_eq_getElem hi, heq]⟩
  · intro hstores
    rcases hstores with ⟨index, hread⟩
    have hi : index < slots.size := lt_of_read_ne_empty (by rw [hread]; exact hslot)
    exact ⟨index, hi, by rw [← read_eq_getElem hi, hread]⟩

theorem mem_entries_iff : (key, value) ∈ slots.entries ↔ slots.Stores key value := by
  rw [entries_eq_filterMap, List.mem_filterMap, Stores,
    ← mem_iff_exists_read (by simp only [ne_eq, reduceCtorEq, not_false_eq_true])]
  simp only [entry?_eq_some_iff, exists_eq_right]

theorem length_entries (slots : Slots α) : slots.entries.length = slots.countP Slot.isEntry := by
  rw [entries_eq_filterMap, List.length_filterMap_eq_countP, ← Array.countP_toList]
  refine List.countP_congr fun slot _ => ?_
  cases slot <;> simp only [Slot.entry?, Slot.isEntry, Option.isSome_some, Option.isSome_none]

/-- The stored keys, in slot order. -/
def keys (slots : Slots α) : List UInt64 :=
  slots.entries.map Prod.fst

theorem mem_keys_iff : key ∈ slots.keys ↔ ∃ index, slots.Holds index key := by
  rw [keys, List.mem_map]
  constructor
  · intro hmem
    rcases hmem with ⟨⟨stored, value⟩, hmem, rfl⟩
    rcases mem_entries_iff.mp hmem with ⟨index, hread⟩
    exact ⟨index, value, hread⟩
  · intro hholds
    rcases hholds with ⟨index, value, hread⟩
    exact ⟨(key, value), mem_entries_iff.mpr ⟨index, hread⟩, rfl⟩

theorem length_keys (slots : Slots α) : slots.keys.length = slots.countP Slot.isEntry := by
  rw [keys, List.length_map, length_entries]

/-- What holds between any two slots in their order holds along the list. -/
theorem pairwise_entries {R : UInt64 × α → UInt64 × α → Prop}
    (h : ∀ index other key value otherKey otherValue, index < other →
      slots.read index = .entry key value → slots.read other = .entry otherKey otherValue →
      R (key, value) (otherKey, otherValue)) : slots.entries.Pairwise R := by
  rw [entries_eq_filterMap, List.pairwise_filterMap, List.pairwise_iff_getElem]
  intro index other hi ho hlt left hleft right hright
  rcases left with ⟨key, value⟩
  rcases right with ⟨otherKey, otherValue⟩
  rw [entry?_eq_some_iff, Array.getElem_toList, ← read_eq_getElem hi] at hleft
  rw [entry?_eq_some_iff, Array.getElem_toList, ← read_eq_getElem ho] at hright
  exact h index other key value otherKey otherValue hlt hleft hright

theorem nodup_keys (h : slots.Distinct) : slots.keys.Nodup := by
  rw [keys, List.Nodup, List.pairwise_map]
  refine pairwise_entries fun index other key value otherKey otherValue hlt hread hother hkeys => ?_
  -- Two positions with one key would be two slots that hold it.
  have hsame : otherKey = key := hkeys.symm
  have heq := h key index other ⟨value, hread⟩ ⟨otherValue, hsame ▸ hother⟩
  omega

/-- Arrays that store the same entries have the same keys, up to order. -/
theorem keys_perm {before after : Slots α} (hbefore : before.Distinct) (hafter : after.Distinct)
    (h : ∀ key value, after.Stores key value ↔ before.Stores key value) :
    after.keys.Perm before.keys := by
  rw [List.perm_ext_iff_of_nodup (nodup_keys hafter) (nodup_keys hbefore)]
  intro key
  rw [mem_keys_iff, mem_keys_iff]
  constructor
  · intro hholds
    rcases hholds with ⟨index, value, hread⟩
    rcases (h key value).mp ⟨index, hread⟩ with ⟨place, hplace⟩
    exact ⟨place, value, hplace⟩
  · intro hholds
    rcases hholds with ⟨index, value, hread⟩
    rcases (h key value).mpr ⟨index, hread⟩ with ⟨place, hplace⟩
    exact ⟨place, value, hplace⟩

end Slots

end BoundedProbing
