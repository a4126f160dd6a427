import BoundedProbing.Proofs.Guarded.Probe
import BoundedProbing.Proofs.Iteration

/-!
# Guarded Look-Ups, Removals and Iterators

The operations that ask for no memory, as a machine carries them out.

A look-up is safe in any array of an addressable size. A removal is not: it
lowers the count of a table, and a count of zero cannot be lowered. That the
count is not zero when a search has found a key is the agreement of the count
with the slots. An iterator lowers a number of its own in the same way, and is
safe for as many steps as one likes if that number was right at the start.

## Main definitions

* `Guarded.get`, `Guarded.vacate`, `Guarded.remove`: Reading and emptying.
* `Guarded.next`, `Guarded.advance`: One step of an iterator, and several.

## Theorems

* `Guarded.Addressable.get_eq`: A look-up does not stop.
* `Table.Valid.guarded_vacate_eq`, `Table.Valid.guarded_remove_eq`: Neither does
  a removal from a valid table.
* `Iter.Exact.guarded_next_eq`, `Iter.Exact.guarded_advance_eq`: Nor do the
  steps of an exact iterator.
-/

namespace BoundedProbing

universe u

variable {α : Type u}

namespace Guarded

/-- The value stored under a key. -/
def get (table : Table α) (key : UInt64) : Option (Option α) :=
  (locate table.slots key).bind fun
    | none => some none
    | some index => (fetch table.slots index).map Slot.value?

/-- The table with the slot at an index freed. -/
def vacate (table : Table α) (index : Nat) : Option (Table α) :=
  (mask table.slots.size).bind fun mask =>
    (following mask index).bind fun next =>
      (fetch table.slots next).bind fun successor =>
        (if successor.isEmpty then some table.tombstones else add table.tombstones 1).bind
          fun tombstones =>
            (store table.slots index (if successor.isEmpty then .empty else .tombstone)).bind
              fun slots => (sub table.count 1).map fun count => ⟨⟨slots, tombstones⟩, count⟩

/-- Removes the entry under a key and gives back its value. -/
def remove (table : Table α) (key : UInt64) : Option (Table α × Option α) :=
  (locate table.slots key).bind fun
    | none => some (table, none)
    | some index =>
      (fetch table.slots index).bind fun slot =>
        (vacate table index).map fun left => (left, slot.value?)

/-- The next value of an iterator, and the iterator behind it. -/
def next (iter : Iter α) : Option (Option α × Iter α) :=
  match Iter.firstValue iter.rest with
  | some (value, rest) => (sub iter.remaining 1).map fun left => (some value, ⟨rest, left⟩)
  | none => some (none, ⟨[], iter.remaining⟩)

/-- Takes a number of steps, and lists the size before each and its value. -/
def advance : (steps : Nat) → Iter α → Option (List (Nat × Option α) × Iter α)
  | 0, iter => some ([], iter)
  | steps + 1, iter =>
    (next iter).bind fun passed =>
      (advance steps passed.2).map fun later => ((iter.size, passed.1) :: later.1, later.2)

end Guarded

variable {table : Table α} {index : Nat} {key : UInt64}

/-- A look-up does not stop, whatever the slots hold. -/
theorem Guarded.Addressable.get_eq (h : Addressable table.capacity) (key : UInt64) :
    Guarded.get table key = some (table.get key) := by
  have hsize : Addressable table.slots.size := h
  unfold Guarded.get Table.get
  rw [hsize.locate_eq, Option.bind_some]
  cases hlocate : BoundedProbing.locate table.slots key with
  | none => rfl
  | some index =>
      rcases locate_eq_some_iff.mp hlocate with ⟨_, _, _, hholds, _⟩
      simp only [fetch_eq hholds.lt, Option.map_some, Option.bind_some]

namespace Table

/-- Freeing the slot of an entry does not stop. -/
theorem Valid.guarded_vacate_eq (h : table.Valid) (hsize : Guarded.Addressable table.capacity)
    (hholds : table.slots.Holds index key) :
    Guarded.vacate table index = some (table.vacate index) := by
  have hslots : Guarded.Addressable table.slots.size := hsize
  have hnext : (index + 1) % table.slots.size < table.slots.size := Nat.mod_lt _ h.capacity_pos
  -- The entry that is removed was counted.
  have hcount := h.count_pos hholds
  unfold Guarded.vacate Table.vacate
  rw [hslots.mask_eq, Option.bind_some, hslots.following_eq hholds.lt, Option.bind_some,
    Guarded.fetch_eq hnext, Option.bind_some, Guarded.add_eq (h.tombstones_lt_size hsize),
    Guarded.sub_eq hcount]
  by_cases hempty : (table.slots.read ((index + 1) % table.slots.size)).isEmpty = true
  · simp only [if_pos hempty, Option.bind_some, Guarded.store_eq hholds.lt, Option.map_some]
  · simp only [if_neg hempty, Option.bind_some, Guarded.store_eq hholds.lt, Option.map_some]

/-- A removal from a valid table does not stop. -/
theorem Valid.guarded_remove_eq (h : table.Valid) (hsize : Guarded.Addressable table.capacity)
    (key : UInt64) : Guarded.remove table key = some (table.remove key) := by
  have hslots : Guarded.Addressable table.slots.size := hsize
  unfold Guarded.remove Table.remove
  rw [hslots.locate_eq, Option.bind_some]
  cases hlocate : locate table.slots key with
  | none => rfl
  | some index =>
      rcases locate_eq_some_iff.mp hlocate with ⟨_, _, _, hholds, _⟩
      simp only [Guarded.fetch_eq hholds.lt, h.guarded_vacate_eq hsize hholds, Option.bind_some,
        Option.map_some]

-- An entry that was never counted cannot be removed.
example : Guarded.remove (⟨⟨#[.entry 2 20], 0⟩, 0⟩ : Table Nat) 2 = none := by
  decide +kernel

end Table

namespace Iter

variable {iter : Iter α}

/-- A step of an exact iterator does not stop. -/
theorem Exact.guarded_next_eq (h : iter.Exact) : Guarded.next iter = some iter.next := by
  unfold Guarded.next Iter.next
  cases hfirst : firstValue iter.rest with
  | none => rfl
  | some found =>
      rcases found with ⟨value, rest⟩
      simp only [Guarded.sub_eq (h.remaining_pos hfirst), Option.map_some]

/-- Any number of steps of an exact iterator do not stop. -/
theorem Exact.guarded_advance_eq (h : iter.Exact) (steps : Nat) :
    Guarded.advance steps iter = some (iter.advance steps) := by
  induction steps generalizing iter with
  | zero => rfl
  | succ steps ih =>
      rw [Guarded.advance, h.guarded_next_eq, Option.bind_some, ih h.next, Option.map_some]
      rfl

end Iter

end BoundedProbing
