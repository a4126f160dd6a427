import BoundedProbing.Table.Basic

/-!
# Iterating over a Table

The values of a table one at a time, in slot order.

An iterator holds the slots it has not passed yet and the number of values
still to come. That number starts from the table's count and goes down by one
with every value; it is never found by looking ahead, so it is right only
because the count of a table agrees with its slots.

## Main definitions

* `Iter`: An iterator, with `Iter.next`, `Iter.size` and `Iter.sizeHint`.
* `Table.iter`: An iterator over a whole table.
* `Iter.advance`: Several steps, and what was seen at each.
-/

namespace BoundedProbing

universe u

variable {α : Type u}

/-- An iterator over the values in an array of slots. -/
structure Iter (α : Type u) where
  /-- The slots not passed yet. -/
  rest : List (Slot α)
  /-- How many values are still to come. -/
  remaining : Nat

/-- An iterator that has passed nothing yet. -/
def Table.iter (table : Table α) : Iter α :=
  ⟨table.slots.toList, table.count⟩

namespace Iter

/-- The first value in a list of slots, and the slots behind it. -/
def firstValue : List (Slot α) → Option (α × List (Slot α))
  | [] => none
  | .entry _ value :: rest => some (value, rest)
  | _ :: rest => firstValue rest

/-- The next value, if there is one, and the iterator behind it. -/
def next (iter : Iter α) : Option α × Iter α :=
  match firstValue iter.rest with
  | some (value, rest) => (some value, ⟨rest, iter.remaining - 1⟩)
  | none => (none, ⟨[], iter.remaining⟩)

def size (iter : Iter α) : Nat :=
  iter.remaining

/-- Bounds for the number of values still to come, from below and above. The
    number is known, so they are the same. -/
def sizeHint (iter : Iter α) : Nat × Option Nat :=
  (iter.remaining, some iter.remaining)

/-- Takes a number of steps. Each is listed with the size before it and the
    value it gave. -/
def advance : (steps : Nat) → Iter α → List (Nat × Option α) × Iter α
  | 0, iter => ([], iter)
  | steps + 1, iter =>
    let (value, behind) := iter.next
    let (later, last) := advance steps behind
    ((iter.size, value) :: later, last)

end Iter

end BoundedProbing
