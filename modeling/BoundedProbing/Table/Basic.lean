import BoundedProbing.Event
import BoundedProbing.Probe

/-!
# Tables

A table from 64-bit keys to values: how it is made, read and emptied.

The slot array and the number of tombstones in it form the *layout*. That is
the part a rebuild replaces and a failed insertion puts back; the number of
entries is no part of it, because neither moves, drops nor adds an entry. The
invariants of a table (the size is a power of two, both counts agree with the
slots, at most half of the slots are taken, every key is reachable from its
home) are not fields of the type. They are facts about the tables the
operations lead to.

No array larger than a given limit can be had. The limit belongs to the world
and may change from one operation to the next, so it is an argument of the
operations that ask for memory and not a field of the table.

## Main definitions

* `Layout`, `Table`: The data.
* `capacityFor`: The number of slots made for a wanted capacity.
* `Table.withCapacity`, `Table.new`: An empty table, or why there is none.
* `Table.get`, `Table.contains`, `Table.getByIndex`, `Table.values`: Reading.
* `Table.remove`, `Table.clear`: Emptying one place, or all.
-/

namespace BoundedProbing

universe u

/-- A slot array and the number of tombstones in it. -/
structure Layout (α : Type u) where
  slots : Slots α
  tombstones : Nat
  deriving DecidableEq

/-- A table from keys to values. -/
structure Table (α : Type u) extends Layout α where
  /-- How many entries are stored. -/
  count : Nat
  deriving DecidableEq

/-- How many slots a table is made with when no capacity is asked for. -/
def initialCapacity : Nat := 256

/-- The least power of two that is at least the wanted capacity, and at least
    one. It has one more bit than the number before the wanted one. -/
def capacityFor (wanted : Nat) : Nat :=
  if wanted ≤ 1 then 1 else 1 <<< ((wanted - 1).log2 + 1)

namespace Table

variable {α : Type u}

def capacity (table : Table α) : Nat :=
  table.slots.size

def isEmpty (table : Table α) : Bool :=
  table.count == 0

def blank (capacity : Nat) : Table α :=
  ⟨⟨Slots.blank capacity, 0⟩, 0⟩

/-- An empty table with at least the wanted capacity. A wish beyond 2^63, the
    greatest power of two with 64 bits, is refused before any memory is asked
    for. -/
def withCapacity (limit wanted : Nat) : Except Fault (Table α) :=
  if UInt64.size / 2 < wanted then .error (.capacityOverflow wanted)
  else if limit < capacityFor wanted then .error (.outOfMemory (capacityFor wanted))
  else .ok (blank (capacityFor wanted))

/-- An empty table of the usual size. -/
def new (limit : Nat) : Except Fault (Table α) :=
  withCapacity limit initialCapacity

/-- The value stored under a key. -/
def get (table : Table α) (key : UInt64) : Option α :=
  (locate table.slots key).bind fun index => (table.slots.read index).value?

/-- Whether a value is stored under a key. -/
def contains (table : Table α) (key : UInt64) : Bool :=
  (locate table.slots key).isSome

/-- The value in the slot with this index, none if the slot is free. -/
def getByIndex (table : Table α) (index : Nat) : Except Fault (Option α) :=
  match table.slots[index]? with
  | some slot => .ok slot.value?
  | none => .error (.indexOutOfRange index table.capacity)

/-- The stored values, in slot order. -/
def values (table : Table α) : List α :=
  (table.slots.filterMap Slot.value?).toList

/-- The taken slots with their indices, in slot order. -/
def placements (table : Table α) : List (Nat × α) :=
  ((Array.range table.capacity).filterMap fun index =>
    (table.slots.read index).value?.map fun value => (index, value)).toList

/-- Frees the slot with this index. No search goes on past a slot whose
    successor is empty, so such a slot becomes empty too; any other is marked
    with a tombstone. -/
def vacate (table : Table α) (index : Nat) : Table α :=
  match table with
  | ⟨⟨slots, tombstones⟩, count⟩ =>
    if (slots.read ((index + 1) % slots.size)).isEmpty then
      ⟨⟨slots.write index .empty, tombstones⟩, count - 1⟩
    else
      ⟨⟨slots.write index .tombstone, tombstones + 1⟩, count - 1⟩

/-- Removes the entry under a key and gives back its value. -/
def remove (table : Table α) (key : UInt64) : Table α × Option α :=
  match locate table.slots key with
  | none => (table, none)
  | some index =>
    let removed := (table.slots.read index).value?
    (table.vacate index, removed)

/-- Removes every entry and every tombstone. The capacity is kept. -/
def clear (table : Table α) : Table α :=
  blank table.capacity

end Table

end BoundedProbing
