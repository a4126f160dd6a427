import BoundedProbing.Proofs.Run
import BoundedProbing.Table.Outline

/-!
# The Map of the Slots

The text of a table shows each of its slots, and its numbers agree with what is
shown.

The map is cut out of the slot array row by row, while the numbers in front of
it come from counters that every operation keeps up to date. So there are two
things to show. The rows in order spell the markers of all slots, with no slot
left out or shown twice, which is a fact about cutting a list. And the markers
of each kind are as many as the counters say, which is what validity says of a
table. A capacity is a power of two, so it is either a multiple of the length of
a row or less than one row.

No marker has to be escaped between quotes. Therefore what is printed is the map
itself, and nothing has to be undone to read it.

## Theorems

* `Table.flatMap_occupancy`: The rows in order spell the markers of all slots.
* `Table.getElem?_row`: Where in a row a slot is shown.
* `Table.Valid.length_of_mem_occupancy`, `Table.Valid.length_occupancy`: How
  long the rows are, and how many.
* `Table.quoted_of_mem_occupancy`: A row is printed as it is.
* `Table.oneLine_outline`, `Table.indented_outline`: The text of a table.
* `Table.outline_maps_slots`: What the text of a reachable table shows.
-/

namespace BoundedProbing

universe u

variable {α : Type u}

namespace Slot

variable {slot : Slot α}

theorem marker_eq_entry_iff : slot.marker = '#' ↔ slot.isEntry = true := by
  cases slot <;> simp only [marker, isEntry, Char.reduceEq, Bool.false_eq_true]

theorem marker_eq_tombstone_iff : slot.marker = 'x' ↔ slot.isTombstone = true := by
  cases slot <;> simp only [marker, isTombstone, Char.reduceEq, Bool.false_eq_true]

theorem marker_eq_empty_iff : slot.marker = '.' ↔ slot = .empty := by
  cases slot <;> simp only [marker, Char.reduceEq, reduceCtorEq]

theorem isEntry_iff : slot.isEntry = true ↔ ∃ key value, slot = .entry key value := by
  constructor
  · intro h
    cases slot with
    | entry key value => exact ⟨key, value, rfl⟩
    | empty => exact absurd h Bool.false_ne_true
    | tombstone => exact absurd h Bool.false_ne_true
  · rintro ⟨key, value, rfl⟩
    rfl

theorem isTombstone_iff : slot.isTombstone = true ↔ slot = .tombstone := by
  cases slot <;> simp only [isTombstone, Bool.false_eq_true, reduceCtorEq]

/-- A marker is visible, so it stands for itself between quotes. -/
theorem escaped_marker (slot : Slot α) : Text.escaped slot.marker = [slot.marker] := by
  cases slot with
  | empty => exact (by decide +kernel : Text.escaped '.' = ['.'])
  | tombstone => exact (by decide +kernel : Text.escaped 'x' = ['x'])
  | entry key value => exact (by decide +kernel : Text.escaped '#' = ['#'])

end Slot

/-- Pieces of one length, cut from a list one behind the other, are the beginning
    of the list. -/
theorem flatMap_range_drop_take {β : Type u} (items : List β) (length count : Nat) :
    ((List.range count).flatMap fun number => (items.drop (number * length)).take length) =
      items.take (count * length) := by
  induction count with
  | zero => rw [List.range_zero, List.flatMap_nil, Nat.zero_mul, List.take_zero]
  | succ count ih =>
      rw [List.range_succ, List.flatMap_append, ih, Nat.succ_mul, List.take_add,
        List.flatMap_singleton]

namespace Table

variable {table : Table α} {row : String} {index number : Nat}

/-- A row is a piece of the list of all markers. -/
theorem toList_row (table : Table α) (number : Nat) :
    (table.row number).toList =
      ((table.slots.toList.map Slot.marker).drop (number * rowLength)).take rowLength := by
  rw [row, String.toList_ofList, Array.toList_extract, List.extract_eq_take_drop,
    Nat.add_sub_cancel_left, List.map_take, List.map_drop]

/-- The rows in order spell the markers of all slots. -/
theorem flatMap_occupancy (table : Table α) :
    table.occupancy.flatMap String.toList = table.slots.toList.map Slot.marker := by
  have hall : (table.slots.toList.map Slot.marker).length ≤
      (table.capacity + rowLength - 1) / rowLength * rowLength := by
    rw [List.length_map, Array.length_toList]
    unfold capacity rowLength
    omega
  rw [occupancy, List.flatMap_map]
  simp only [toList_row]
  rw [flatMap_range_drop_take, List.take_of_length_le hall]

/-- A slot is shown in the row and column that its index gives. -/
theorem getElem?_row (hi : index < table.capacity) :
    (table.row (index / rowLength)).toList[index % rowLength]? =
      some (table.slots.read index).marker := by
  have hcolumn : index % rowLength < rowLength := Nat.mod_lt _ (by decide)
  rw [toList_row, List.getElem?_take, if_pos hcolumn, List.getElem?_drop, Nat.mul_comm,
    Nat.div_add_mod, List.getElem?_map, Slots.toList_eq_map_read, List.getElem?_map,
    List.getElem?_range (show index < table.slots.size from hi), Option.map_some, Option.map_some]

theorem mem_occupancy_iff : row ∈ table.occupancy ↔
    ∃ number < (table.capacity + rowLength - 1) / rowLength, table.row number = row := by
  simp only [occupancy, List.mem_map, List.mem_range]

theorem getElem?_occupancy (hi : index < table.capacity) :
    table.occupancy[index / rowLength]? = some (table.row (index / rowLength)) := by
  have hrow : index / rowLength < (table.capacity + rowLength - 1) / rowLength := by
    unfold rowLength
    omega
  rw [occupancy, List.getElem?_map, List.getElem?_range hrow, Option.map_some]

theorem length_row (table : Table α) (number : Nat) :
    (table.row number).length = min rowLength (table.capacity - number * rowLength) := by
  rw [← String.length_toList, toList_row, List.length_take, List.length_drop, List.length_map,
    Array.length_toList, capacity]

/-- A capacity of one row or more is made of full rows. -/
theorem Valid.rowLength_dvd (h : table.Valid) (hsize : rowLength ≤ table.capacity) :
    rowLength ∣ table.capacity :=
  dvd_of_isPowerOfTwo_of_le ⟨6, rfl⟩ h.isPowerOfTwo hsize

theorem Valid.length_occupancy (h : table.Valid) (hsize : rowLength ≤ table.capacity) :
    table.occupancy.length = table.capacity / rowLength := by
  have hfull := h.rowLength_dvd hsize
  rw [occupancy, List.length_map, List.length_range]
  unfold rowLength at hfull ⊢
  omega

theorem Valid.length_of_mem_occupancy (h : table.Valid) (hsize : rowLength ≤ table.capacity)
    (hmem : row ∈ table.occupancy) : row.length = rowLength := by
  rcases mem_occupancy_iff.mp hmem with ⟨number, hnumber, rfl⟩
  have hfull := h.rowLength_dvd hsize
  rw [length_row]
  unfold rowLength at hfull hnumber ⊢
  omega

/-- A table of less than one row has one short row. -/
theorem Valid.occupancy_of_lt (h : table.Valid) (hsize : table.capacity < rowLength) :
    ∃ row, table.occupancy = [row] ∧ row.length = table.capacity := by
  have hpos : 0 < table.capacity := h.capacity_pos
  have hone : (table.capacity + rowLength - 1) / rowLength = 1 := by
    unfold rowLength at hsize ⊢
    omega
  refine ⟨table.row 0, by rw [occupancy, hone]; rfl, ?_⟩
  rw [length_row]
  omega

/-- The markers that all rows show of one kind of slot. -/
theorem sum_count_occupancy {kind : Slot α → Bool} {marker : Char}
    (hkind : ∀ slot : Slot α, slot.marker = marker ↔ kind slot = true) :
    (table.occupancy.map fun row => row.toList.count marker).sum = table.slots.countP kind := by
  have hsame : (fun slot : Slot α => slot.marker == marker) = kind := by
    funext slot
    rw [Bool.eq_iff_iff, beq_iff_eq, hkind]
  calc (table.occupancy.map fun row => row.toList.count marker).sum
      = (table.occupancy.flatMap String.toList).count marker := List.count_flatMap.symm
    _ = table.slots.toList.countP kind := by
        rw [flatMap_occupancy, List.count, List.countP_map]
        exact congrArg (table.slots.toList.countP ·) hsame
    _ = table.slots.countP kind := Array.countP_toList

/-- A row is printed as it is, between quotes. -/
theorem quoted_of_mem_occupancy (hmem : row ∈ table.occupancy) :
    Text.quoted row = "\"" ++ row ++ "\"" := by
  rcases mem_occupancy_iff.mp hmem with ⟨number, _, rfl⟩
  have hplain : (table.row number).toList.flatMap Text.escaped = (table.row number).toList := by
    rw [toList_row, ← List.map_drop, ← List.map_take, List.flatMap_map]
    simp only [Slot.escaped_marker]
    exact List.map_eq_flatMap.symm
  rw [Text.quoted, hplain, ← String.toList_inj, String.toList_ofList, String.toList_append,
    String.toList_append]
  rfl

theorem map_quoted_occupancy (table : Table α) :
    table.occupancy.map Text.quoted = table.occupancy.map fun row => "\"" ++ row ++ "\"" :=
  List.map_congr_left fun _ hmem => quoted_of_mem_occupancy hmem

theorem partsOnLine_text (rows : List String) :
    Text.Outline.partsOnLine (rows.map Text.Outline.text) = rows.map Text.quoted := by
  induction rows with
  | nil => rfl
  | cons row rest ih => rw [List.map_cons, Text.Outline.partsOnLine, ih]; rfl

/-- The text of a table on one line. -/
theorem oneLine_outline (table : Table α) :
    table.outline.oneLine = "HashTable \x7b " ++ ", ".intercalate
      ["capacity: " ++ toString table.capacity, "populated: " ++ toString table.count,
        "tombstones: " ++ toString table.tombstones,
        "occupancy: " ++ ("[" ++
          ", ".intercalate (table.occupancy.map fun row => "\"" ++ row ++ "\"") ++ "]")] ++
      " \x7d" := by
  rw [← map_quoted_occupancy, ← partsOnLine_text]
  rfl

theorem partLines_text (margin : String) (rows : List String) :
    Text.Outline.partLines margin (rows.map Text.Outline.text) =
      rows.map fun row => margin ++ Text.quoted row ++ ",\n" := by
  induction rows with
  | nil => rfl
  | cons row rest ih => rw [List.map_cons, Text.Outline.partLines, ih]; rfl

theorem bracketed_of_ne_nil {margin opening closing : String} {lines : List String}
    (h : lines ≠ []) : Text.Outline.bracketed margin opening closing lines =
      opening ++ "\n" ++ String.join lines ++ margin ++ closing := by
  cases lines with
  | nil => exact absurd rfl h
  | cons line rest => rfl

theorem Valid.occupancy_ne_nil (h : table.Valid) : table.occupancy ≠ [] := by
  intro hnone
  have hshown := getElem?_occupancy h.capacity_pos
  rw [hnone, List.getElem?_nil] at hshown
  exact absurd hshown (by simp only [reduceCtorEq, not_false_eq_true])

/-- The text of a table with a line for each part. -/
theorem Valid.indented_outline (h : table.Valid) :
    table.outline.indented = "HashTable \x7b" ++ "\n" ++ String.join
      ["    capacity: " ++ toString table.capacity ++ ",\n",
        "    populated: " ++ toString table.count ++ ",\n",
        "    tombstones: " ++ toString table.tombstones ++ ",\n",
        "    occupancy: " ++ ("[" ++ "\n" ++ String.join (table.occupancy.map fun row =>
          "        " ++ ("\"" ++ row ++ "\"") ++ ",\n") ++ "    " ++ "]") ++ ",\n"] ++
      "\x7d" := by
  have hlines : Text.Outline.partLines "        " (table.occupancy.map Text.Outline.text) =
      table.occupancy.map fun row => "        " ++ ("\"" ++ row ++ "\"") ++ ",\n" := by
    rw [partLines_text]
    exact List.map_congr_left fun row hmem => by rw [quoted_of_mem_occupancy hmem]
  have hsome : Text.Outline.partLines "        " (table.occupancy.map Text.Outline.text) ≠ [] := by
    rw [hlines]
    exact mt List.map_eq_nil_iff.mp h.occupancy_ne_nil
  -- The outermost brackets have an empty margin.
  have hmargin : ∀ front : String, front ++ "" ++ "\x7d" = front ++ "\x7d" := fun front => by
    rw [String.append_empty]
  rw [← hlines, ← bracketed_of_ne_nil hsome, ← hmargin]
  rfl

/-- The text of a reachable table shows its slots. The map has a row for each 64
    slots, or one short row if there are fewer. The slot with some index is shown
    in row and column of that index, as '#', 'x' or '.' for an entry, a tombstone
    or an empty slot. So there are as many of the first two as the counts in front
    of the map say, and a look at a slot by its index gives a value exactly where
    the map has a '#'. -/
theorem outline_maps_slots (h : table.Reachable) :
    table.outline.oneLine = "HashTable \x7b " ++ ", ".intercalate
        ["capacity: " ++ toString table.capacity, "populated: " ++ toString table.count,
          "tombstones: " ++ toString table.tombstones,
          "occupancy: " ++ ("[" ++
            ", ".intercalate (table.occupancy.map fun row => "\"" ++ row ++ "\"") ++ "]")] ++
        " \x7d" ∧
      table.outline.indented = "HashTable \x7b" ++ "\n" ++ String.join
        ["    capacity: " ++ toString table.capacity ++ ",\n",
          "    populated: " ++ toString table.count ++ ",\n",
          "    tombstones: " ++ toString table.tombstones ++ ",\n",
          "    occupancy: " ++ ("[" ++ "\n" ++ String.join (table.occupancy.map fun row =>
            "        " ++ ("\"" ++ row ++ "\"") ++ ",\n") ++ "    " ++ "]") ++ ",\n"] ++
        "\x7d" ∧
      (64 ≤ table.capacity → table.occupancy.length = table.capacity / 64 ∧
        ∀ row ∈ table.occupancy, row.length = 64) ∧
      (table.capacity < 64 → ∃ row, table.occupancy = [row] ∧ row.length = table.capacity) ∧
      (∀ index < table.capacity, ∃ row marker, table.occupancy[index / 64]? = some row ∧
        row.toList[index % 64]? = some marker ∧
        (marker = '#' ↔ ∃ key value, table.slots.read index = .entry key value) ∧
        (marker = 'x' ↔ table.slots.read index = .tombstone) ∧
        (marker = '.' ↔ table.slots.read index = .empty) ∧
        (marker = '#' ↔ ∃ value, table.getByIndex index = .ok (some value))) ∧
      (table.occupancy.map fun row => row.toList.count '#').sum = table.count ∧
      (table.occupancy.map fun row => row.toList.count 'x').sum = table.tombstones := by
  have hvalid := h.valid
  refine ⟨table.oneLine_outline, hvalid.indented_outline,
    fun hsize => ⟨hvalid.length_occupancy hsize, fun row => hvalid.length_of_mem_occupancy hsize⟩,
    hvalid.occupancy_of_lt, fun index hi => ?_, ?_, ?_⟩
  · refine ⟨_, _, getElem?_occupancy hi, getElem?_row hi, ?_⟩
    have hentry : (table.slots.read index).marker = '#' ↔
        ∃ key value, table.slots.read index = .entry key value :=
      Slot.marker_eq_entry_iff.trans Slot.isEntry_iff
    refine ⟨hentry, Slot.marker_eq_tombstone_iff.trans Slot.isTombstone_iff,
      Slot.marker_eq_empty_iff, hentry.trans ?_⟩
    rw [exists_comm]
    exact exists_congr fun _ => getByIndex_eq_some_iff.symm
  · rw [sum_count_occupancy fun _ => Slot.marker_eq_entry_iff, hvalid.count_eq]
  · rw [sum_count_occupancy fun _ => Slot.marker_eq_tombstone_iff, hvalid.tombstones_eq]

/-- Three keys at home in the last slot of the first row and three in the last
    slot of all, of which two went around the end. One of each three is removed. -/
theorem outline_maps_slots_rows :
    let table := ((blank 128 : Table Nat).run [.put 0 2 10, .put 0 236 20, .put 0 358 30,
      .put 0 176 40, .put 0 411 50, .put 0 515 60, .remove 236, .remove 176]).1
    table.Reachable ∧ table.occupancy =
        ["##.............................................................#",
          "x#.............................................................x"] ∧
      64 ≤ table.capacity ∧ table.occupancy.length = table.capacity / 64 ∧
      (∀ row ∈ table.occupancy, row.length = 64) ∧
      (table.occupancy.map fun row => row.toList.count '#').sum = 4 ∧
      (table.occupancy.map fun row => row.toList.count 'x').sum = 2 ∧
      ∃ row marker, table.occupancy[127 / 64]? = some row ∧ row.toList[127 % 64]? = some marker ∧
        (marker = 'x' ↔ table.slots.read 127 = .tombstone) := by
  intro table
  have hmade : withCapacity 128 128 = .ok (blank 128 : Table Nat) := rfl
  have hreach : table.Reachable := Reachable.run (.made hmade) _
  have hcapacity : table.capacity = 128 := by decide +kernel
  have hcount : table.count = 4 := by decide +kernel
  have htombstones : table.tombstones = 2 := by decide +kernel
  rcases outline_maps_slots hreach with ⟨_, _, hrows, _, hshown, hentries, hmarks⟩
  rw [hcount] at hentries
  rw [htombstones] at hmarks
  rcases hrows (by omega) with ⟨hlength, hfull⟩
  rcases hshown 127 (by omega) with ⟨row, marker, hrow, hmarker, _, htomb, _⟩
  exact ⟨hreach, by decide +kernel, by omega, hlength, hfull, hentries, hmarks, row, marker, hrow,
    hmarker, htomb⟩

end Table

end BoundedProbing
