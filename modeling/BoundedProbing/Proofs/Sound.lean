import BoundedProbing.Proofs.Contents

/-!
# Sound Arrays of Slots

The invariant that makes a look-up trustworthy, and the writes that keep it.

A look-up gives up at the first empty place. So an entry can be found only if
it lies in the window of its key with no empty place between its home and
itself, around the end of the array. `Slots.Sound` asks this of every entry,
and that no key is stored twice. Tombstones are not mentioned: they are free
places that are not empty.

An array is changed one slot at a time, and `Sound.write` is the one argument
behind all changes. A new entry must be within reach of its home, and an empty
slot must not be put on the way to an entry. The second is the delicate one. A
removal empties a slot whose successor is empty, and no way to an entry leads
through it, because the way would have to go on through that successor.

## Main definitions

* `Slots.Reached`: An entry of this key would be found in this slot.
* `Slots.Sound`: Every entry is, and no key is stored twice.

## Theorems

* `Slots.Sound.locate_eq_some_iff_holds`: A look-up finds exactly the entries.
* `Slots.Sound.locate_eq_none_iff`: A look-up fails exactly on absent keys.
* `Slots.reached_of_vacant`: The place found for a new key is within reach.
* `Slots.Sound.write`: Which writes keep an array sound.
* `Slots.Sound.write_found`, `Slots.Sound.write_vacant`,
  `Slots.Sound.write_free`: The three kinds.
* `Slots.Sound.stores_write_vacant_iff`: What is stored after a new entry.
-/

namespace BoundedProbing

universe u

variable {α : Type u}

namespace Slots

variable {slots : Slots α} {index other : Nat} {key : UInt64} {value : α} {slot : Slot α}

/-- The slot lies in the window of the key, and no empty place lies between the
    key's home and the slot. -/
def Reached (slots : Slots α) (key : UInt64) (index : Nat) : Prop :=
  distanceFrom (home key slots.size) index slots.size < probeLimit ∧
    slots.Unbroken (home key slots.size) (distanceFrom (home key slots.size) index slots.size)

/-- No key is stored twice, and every entry is within reach of its home. -/
structure Sound (slots : Slots α) : Prop where
  distinct : slots.Distinct
  reached : ∀ key index, slots.Holds index key → slots.Reached key index

theorem not_holds_blank (capacity index : Nat) (key : UInt64) :
    ¬ (blank capacity : Slots α).Holds index key := by
  intro hholds
  rcases hholds with ⟨value, hread⟩
  rw [read_blank] at hread
  exact absurd hread (by simp only [reduceCtorEq, not_false_eq_true])

theorem sound_blank (capacity : Nat) : (blank capacity : Slots α).Sound :=
  ⟨fun _ _ _ h => absurd h (not_holds_blank _ _ _), fun _ _ h => absurd h (not_holds_blank _ _ _)⟩

theorem Holds.home_lt (h : slots.Holds index key) (other : UInt64) :
    home other slots.size < slots.size :=
  BoundedProbing.home_lt other (Nat.zero_lt_of_lt h.lt)

/-- A look-up finds exactly the slot that holds the key. -/
theorem Sound.locate_eq_some_iff_holds (h : slots.Sound) :
    locate slots key = some index ↔ slots.Holds index key := by
  rw [locate_eq_some_iff]
  constructor
  · intro hfound
    rcases hfound with ⟨_, _, _, hholds, _⟩
    exact hholds
  · intro hholds
    rcases h.reached key index hholds with ⟨hnear, hclear⟩
    have hback := ahead_distanceFrom (hholds.home_lt key) hholds.lt
    refine ⟨_, hnear, hback.symm, hholds, hclear, fun nearer hlt hearlier => ?_⟩
    -- A nearer place with the same key would be the same place, at the same distance.
    have hsame := h.distinct key _ _ hearlier hholds
    have hcap := distanceFrom_lt (Nat.zero_lt_of_lt hholds.lt) (home key slots.size) index
    have heq := distanceFrom_ahead (hholds.home_lt key) nearer
    rw [hsame, Nat.mod_eq_of_lt (Nat.lt_trans hlt hcap)] at heq
    omega

theorem Sound.locate_eq_none_iff (h : slots.Sound) :
    locate slots key = none ↔ ∀ index, ¬ slots.Holds index key := by
  rw [Option.eq_none_iff_forall_ne_some]
  constructor
  · exact fun hnone index hholds => hnone index (h.locate_eq_some_iff_holds.mpr hholds)
  · exact fun hnone index hsome => hnone index (h.locate_eq_some_iff_holds.mp hsome)

/-- Every place before the free one is taken, so nothing on the way is empty.
    In a small array the way may lead around, which only makes it longer than
    the distance. -/
theorem reached_of_vacant (hpos : 0 < slots.size) (h : place slots key = .vacant index) :
    slots.Reached key index := by
  rcases (place_eq_vacant_iff.mp h).2 with ⟨distance, hlt, rfl, _, hnearer⟩
  have hle : distance % slots.size ≤ distance := Nat.mod_le _ _
  unfold Reached
  rw [distanceFrom_ahead (home_lt key hpos)]
  refine ⟨by omega, ?_⟩
  intro nearer hless hempty
  have htaken : (slots.read (ahead (home key slots.size) nearer slots.size)).isEntry = true :=
    hnearer nearer (by omega)
  rw [hempty] at htaken
  exact Bool.false_ne_true htaken

theorem Unbroken.write {start distance : Nat} (h : slots.Unbroken start distance)
    (hi : index < slots.size)
    (hempty : slot = .empty → ∀ nearer, nearer < distance → ahead start nearer slots.size ≠ index) :
    (slots.write index slot).Unbroken start distance := by
  unfold Unbroken
  intro nearer hlt
  rw [size_write, read_write slots index _ slot hi]
  by_cases hat : ahead start nearer slots.size = index
  · rw [if_pos hat]
    exact fun hslot => hempty hslot nearer hlt hat
  · rw [if_neg hat]
    exact h nearer hlt

/-- Writing a slot keeps an array sound if a new entry is within reach and its
    key is nowhere else, and if an emptied slot is on the way to no entry. -/
theorem Sound.write (h : slots.Sound) (hi : index < slots.size)
    (hentry : ∀ key value, slot = .entry key value →
      slots.Reached key index ∧ ∀ other, slots.Holds other key → other = index)
    (hempty : slot = .empty → ∀ other key, other ≠ index → slots.Holds other key →
      ∀ nearer, nearer < distanceFrom (home key slots.size) other slots.size →
        ahead (home key slots.size) nearer slots.size ≠ index) :
    (slots.write index slot).Sound := by
  constructor
  -- Distinct keys: of two slots with one key at most one is the written slot.
  · intro key left right hleft hright
    rw [holds_write_iff hi] at hleft hright
    by_cases hl : left = index
    · by_cases hr : right = index
      · rw [hl, hr]
      · rw [if_pos hl] at hleft
        rw [if_neg hr] at hright
        rcases hleft with ⟨value, hslot⟩
        exact absurd ((hentry key value hslot).2 right hright) hr
    · rw [if_neg hl] at hleft
      by_cases hr : right = index
      · rw [if_pos hr] at hright
        rcases hright with ⟨value, hslot⟩
        exact absurd ((hentry key value hslot).2 left hleft) hl
      · rw [if_neg hr] at hright
        exact h.distinct key left right hleft hright
  -- Reach: the ways stay unbroken, to the written slot and to all others.
  · intro key place hholds
    rw [holds_write_iff hi] at hholds
    unfold Reached
    rw [size_write]
    by_cases hplace : place = index
    · rw [if_pos hplace] at hholds
      rcases hholds with ⟨value, hslot⟩
      rcases (hentry key value hslot).1 with ⟨hnear, hclear⟩
      rw [hplace]
      refine ⟨hnear, hclear.write hi fun hnone => ?_⟩
      exact absurd (hslot.symm.trans hnone) (by simp only [reduceCtorEq, not_false_eq_true])
    · rw [if_neg hplace] at hholds
      rcases h.reached key place hholds with ⟨hnear, hclear⟩
      exact ⟨hnear, hclear.write hi fun hnone => hempty hnone place key hplace hholds⟩

/-- Replacing the value of a stored key. -/
theorem Sound.write_found (h : slots.Sound) (hholds : slots.Holds index key) (value : α) :
    (slots.write index (.entry key value)).Sound := by
  refine h.write hholds.lt (fun stored kept heq => ?_) (fun heq => ?_)
  · rw [Slot.entry.injEq] at heq
    rcases heq with ⟨rfl, _⟩
    exact ⟨h.reached key index hholds, fun other hother => h.distinct key other index hother hholds⟩
  · exact absurd heq (by simp only [reduceCtorEq, not_false_eq_true])

theorem lt_of_vacant (hpos : 0 < slots.size) (h : place slots key = .vacant index) :
    index < slots.size := by
  rcases (place_eq_vacant_iff.mp h).2 with ⟨distance, _, rfl, _⟩
  exact ahead_lt hpos _ _

/-- Storing a new key at the place its search came to. -/
theorem Sound.write_vacant (h : slots.Sound) (hpos : 0 < slots.size)
    (hplace : place slots key = .vacant index) (value : α) :
    (slots.write index (.entry key value)).Sound := by
  refine h.write (lt_of_vacant hpos hplace) (fun stored kept heq => ?_) (fun heq => ?_)
  · rw [Slot.entry.injEq] at heq
    rcases heq with ⟨rfl, _⟩
    have habsent := h.locate_eq_none_iff.mp (place_eq_vacant_iff.mp hplace).1
    exact ⟨reached_of_vacant hpos hplace, fun other hother => absurd hother (habsent other)⟩
  · exact absurd heq (by simp only [reduceCtorEq, not_false_eq_true])

theorem Sound.stores_write_vacant_iff {stored : UInt64} {kept : α} (h : slots.Sound)
    (hpos : 0 < slots.size) (hplace : place slots key = .vacant index) :
    (slots.write index (.entry key value)).Stores stored kept ↔
      if stored = key then kept = value else slots.Stores stored kept := by
  rcases place_eq_vacant_iff.mp hplace with ⟨hnone, _, _, _, hfree, _⟩
  refine stores_write_entry_iff (lt_of_vacant hpos hplace) (fun other hother => ?_)
    (fun stored hstored => ?_)
  · exact absurd hother (h.locate_eq_none_iff.mp hnone other)
  · rw [isEntry_of_holds hstored] at hfree
    exact absurd hfree.symm Bool.false_ne_true

theorem countP_isEntry_write_vacant (hpos : 0 < slots.size)
    (hplace : place slots key = .vacant index) (value : α) :
    (slots.write index (.entry key value)).countP Slot.isEntry =
      slots.countP Slot.isEntry + 1 := by
  have hcount := countP_write Slot.isEntry (lt_of_vacant hpos hplace) (.entry key value)
  rcases place_eq_vacant_iff.mp hplace with ⟨_, _, _, _, hfree, _⟩
  rwa [hfree, if_neg Bool.false_ne_true, Slot.isEntry, if_pos rfl] at hcount

theorem countP_isTombstone_write_entry (hi : index < slots.size) (key : UInt64) (value : α) :
    (slots.write index (.entry key value)).countP Slot.isTombstone +
        (if (slots.read index).isTombstone then 1 else 0) =
      slots.countP Slot.isTombstone := by
  exact countP_write Slot.isTombstone hi (.entry key value)

/-- Freeing a slot keeps an array sound if it becomes a tombstone, which breaks
    no way, or if its successor is empty. A way through a slot before an empty
    one would go on through the empty one, or end there at an entry. -/
theorem Sound.write_free (h : slots.Sound) (hi : index < slots.size)
    (hfree : slot.isEntry = false)
    (hnext : slot = .empty → slots.read ((index + 1) % slots.size) = .empty) :
    (slots.write index slot).Sound := by
  refine h.write hi (fun key value heq => ?_) (fun hslot other key hne hholds nearer hlt hat => ?_)
  · rw [heq] at hfree
    exact absurd hfree.symm Bool.false_ne_true
  · -- The slot after the freed one is empty, and it is the next on the way.
    have hempty := hnext hslot
    rw [← hat, ahead_succ] at hempty
    by_cases hbefore : nearer + 1 < distanceFrom (home key slots.size) other slots.size
    · exact (h.reached key other hholds).2 (nearer + 1) hbefore hempty
    · -- The way ends there, at the entry.
      have hlast : nearer + 1 = distanceFrom (home key slots.size) other slots.size := by omega
      rw [hlast, ahead_distanceFrom (hholds.home_lt key) hholds.lt] at hempty
      rcases hholds with ⟨value, hread⟩
      rw [hread] at hempty
      exact absurd hempty (by simp only [reduceCtorEq, not_false_eq_true])

end Slots

end BoundedProbing
