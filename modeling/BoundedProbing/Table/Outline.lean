import BoundedProbing.Table.Basic
import BoundedProbing.Text.Outline

/-!
# Outline of a Table

The map of a table's slots as text.

Every slot is one character, and 64 of them make a row, so that row and column
of a character give the index of its slot. A table of fewer than 64 slots has
one short row. The counts stand in front of the map. The values are left out,
so a table of any values can be shown.

## Main definitions

* `rowLength`: The slots in a row.
* `Table.occupancy`: The rows of the map.
* `Table.outline`: The counts and the map.
-/

namespace BoundedProbing

universe u

variable {α : Type u}

/-- How many slots make a row of the map. -/
def rowLength : Nat := 64

namespace Table

/-- The row of the map with this number. -/
def row (table : Table α) (number : Nat) : String :=
  let slots := table.slots.extract (number * rowLength) (number * rowLength + rowLength)
  String.ofList (slots.toList.map Slot.marker)

def occupancy (table : Table α) : List String :=
  (List.range ((table.capacity + rowLength - 1) / rowLength)).map table.row

/-- The counts and the map. -/
def outline (table : Table α) : Text.Outline :=
  .record "HashTable"
    [("capacity", .number table.capacity),
      ("populated", .number table.count),
      ("tombstones", .number table.tombstones),
      ("occupancy", .list (table.occupancy.map .text))]

end Table

end BoundedProbing
