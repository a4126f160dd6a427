/-!
# Slots

One place of a table, and an array of such places.

A place is free, or taken by an entry, or holds a *tombstone*: the mark that an
entry used to be there. The mark matters because a search gives up at the first
empty place, and an entry may have been put further on while the place was
taken. A tombstone keeps the search going and can be written over.

Reading and writing an array of slots are total here. A place outside the array
reads as empty and swallows what is written to it; no search ever asks for one.

## Main definitions

* `Slot`: Empty, tombstone or entry.
* `Slot.value?`, `Slot.entry?`, `Slot.isEntry`, `Slot.marker`: What a slot shows.
* `Slots`: An array of slots, with `Slots.read` and `Slots.write`.
* `Slots.blank`: An array of empty slots.
* `Slots.entries`: The stored pairs, in slot order.

## Theorems

* `Slots.size_blank`, `Slots.size_write`: The size of a new and of a written
  array.
* `Slots.read_blank`: A new array is empty everywhere.
* `Slots.read_write`: Reading after writing.
-/

namespace BoundedProbing

universe u

/-- One place of a table. -/
inductive Slot (α : Type u) where
  /-- Never taken since the array was made, or known to end every search. -/
  | empty
  /-- Held an entry that was removed. -/
  | tombstone
  /-- Holds a value under its key. -/
  | entry (key : UInt64) (value : α)
  deriving Repr, DecidableEq, Inhabited

namespace Slot

variable {α : Type u}

def value? : Slot α → Option α
  | .entry _ value => some value
  | _ => none

def entry? : Slot α → Option (UInt64 × α)
  | .entry key value => some (key, value)
  | _ => none

def isEntry : Slot α → Bool
  | .entry _ _ => true
  | _ => false

def isTombstone : Slot α → Bool
  | .tombstone => true
  | _ => false

def isEmpty : Slot α → Bool
  | .empty => true
  | _ => false

/-- The character that stands for the slot in a map of the table. -/
def marker : Slot α → Char
  | .empty => '.'
  | .tombstone => 'x'
  | .entry _ _ => '#'

end Slot

/-- The places of a table. -/
abbrev Slots (α : Type u) := Array (Slot α)

namespace Slots

variable {α : Type u}

/-- An array of empty slots. -/
def blank (capacity : Nat) : Slots α :=
  Array.replicate capacity .empty

/-- The slot at an index; a place outside the array reads as empty. -/
def read (slots : Slots α) (index : Nat) : Slot α :=
  slots.getD index .empty

/-- Puts a slot at an index; outside the array nothing changes. -/
def write (slots : Slots α) (index : Nat) (slot : Slot α) : Slots α :=
  slots.setIfInBounds index slot

/-- The stored pairs, in slot order. -/
def entries (slots : Slots α) : List (UInt64 × α) :=
  (slots.filterMap Slot.entry?).toList

@[simp] theorem size_blank (capacity : Nat) : (blank capacity : Slots α).size = capacity :=
  Array.size_replicate

@[simp] theorem size_write (slots : Slots α) (index : Nat) (slot : Slot α) :
    (slots.write index slot).size = slots.size :=
  Array.size_setIfInBounds

@[simp] theorem read_blank (capacity index : Nat) :
    (blank capacity : Slots α).read index = .empty := by
  simp only [read, blank, Array.getD_eq_getD_getElem?, Array.getElem?_replicate]
  split <;> rfl

/-- What was written is read back, and every other place is left alone. -/
theorem read_write (slots : Slots α) (index other : Nat) (slot : Slot α)
    (h : index < slots.size) :
    (slots.write index slot).read other = if other = index then slot else slots.read other := by
  simp only [read, write, Array.getD_eq_getD_getElem?, Array.getElem?_setIfInBounds]
  by_cases hi : index = other
  · subst hi
    simp only [↓reduceIte, h, Option.getD_some]
  · simp only [hi, ↓reduceIte, Ne.symm hi]

end Slots

end BoundedProbing
