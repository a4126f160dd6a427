import BoundedProbing.Proofs.Run

/-!
# Overwriting

What an insertion does when its key is stored already.

The load of a table, the crowd in a window and the tombstones in it are all
reasons to rebuild, and none of them is looked at before the search for the key
has ended. The search does not stop at a tombstone, and in a valid table no
empty place comes before the key. So a stored key is always found, and the
insertion writes over its value. It asks for no memory, so no limit can refuse
it, and it tells nothing.

## Theorems

* `Table.Valid.put_of_read`: The outcome for a stored key.
* `Table.read_overwrite`: What an overwritten table holds.
* `Table.put_of_get_eq_some`: Overwriting never fails and moves nothing.
-/

namespace BoundedProbing

universe u

variable {α : Type u}

namespace Table

variable {table : Table α} {index : Nat} {key : UInt64} {held : α}

theorem Valid.plan_eq_overwrite (h : table.Valid) (hholds : table.slots.Holds index key) :
    table.plan key = .overwrite index := by
  have hfound := place_eq_found_iff.mpr (h.sound.locate_eq_some_iff_holds.mpr hholds)
  unfold plan
  simp only [hfound]

/-- The outcome of an insertion under a stored key. -/
theorem Valid.put_of_read (h : table.Valid) (hread : table.slots.read index = .entry key held)
    (limit : Nat) (value : α) :
    table.put limit key value = ⟨table.overwrite index key value, .ok (some held), []⟩ := by
  rw [put_eq_of_plan_eq_overwrite (h.plan_eq_overwrite ⟨held, hread⟩), hread, Slot.value?]

theorem read_overwrite (hholds : table.slots.Holds index key) (value : α) (other : Nat) :
    (table.overwrite index key value).slots.read other =
      if other = index then .entry key value else table.slots.read other := by
  rw [overwrite_eq]
  exact Slots.read_write table.slots index other (.entry key value) hholds.lt

/-- Overwriting the value of a stored key succeeds under every limit, without a
    request and without a word in the log. The one slot that holds the key gets
    the new value. Every other slot, the capacity and both counts stay. -/
theorem put_of_get_eq_some (h : table.Reachable) (hget : table.get key = some held)
    (limit : Nat) (value : α) :
    let outcome := table.put limit key value
    outcome.answer = .ok (some held) ∧ outcome.history = [] ∧
      outcome.state.capacity = table.capacity ∧ outcome.state.count = table.count ∧
      outcome.state.tombstones = table.tombstones ∧
      ∃ index, index < table.capacity ∧ table.slots.read index = .entry key held ∧
        (∀ other, table.slots.Holds other key → other = index) ∧
        ∀ other, outcome.state.slots.read other =
          if other = index then .entry key value else table.slots.read other := by
  intro outcome
  have hvalid := h.valid
  rcases hvalid.get_eq_some_iff.mp hget with ⟨index, hread⟩
  have hholds : table.slots.Holds index key := ⟨held, hread⟩
  have houtcome : outcome = ⟨table.overwrite index key value, .ok (some held), []⟩ :=
    hvalid.put_of_read hread limit value
  rw [houtcome]
  refine ⟨rfl, rfl, capacity_overwrite table index key value, rfl, rfl, index, hholds.lt, hread,
    fun other hother => hvalid.sound.distinct key other index hother hholds, ?_⟩
  exact read_overwrite hholds value

/-- Eight keys of one mix fill their window, and the table is exactly half full.
    One of them is given a new value when there is no memory for any array. -/
theorem put_of_get_eq_some_crowded :
    let crowded := ((blank 16 : Table Nat).run
      ((List.range 8).map fun n => .put 16 (UInt64.ofNat (4294967297 * n)) n)).1
    crowded.Reachable ∧ 2 * crowded.count = crowded.capacity ∧
      saturated crowded.slots 21474836485 = true ∧ crowded.get 21474836485 = some 5 ∧
      (crowded.put 0 21474836485 50).answer = .ok (some 5) ∧
      (crowded.put 0 21474836485 50).history = [] ∧
      (crowded.put 0 21474836485 50).state.capacity = crowded.capacity ∧
      (crowded.put 0 21474836485 50).state.count = crowded.count ∧
      ∃ index, crowded.slots.read index = .entry 21474836485 5 ∧
        ∀ other, (crowded.put 0 21474836485 50).state.slots.read other =
          if other = index then .entry 21474836485 50 else crowded.slots.read other := by
  intro crowded
  have hmade : withCapacity 16 16 = .ok (blank 16 : Table Nat) := rfl
  have hreach : crowded.Reachable := Reachable.run (.made hmade) _
  have hget : crowded.get 21474836485 = some 5 := by decide +kernel
  rcases put_of_get_eq_some hreach hget 0 50 with
    ⟨hanswer, hhistory, hcapacity, hcount, _, index, _, hread, _, hslots⟩
  exact ⟨hreach, by decide +kernel, by decide +kernel, hget, hanswer, hhistory, hcapacity, hcount,
    index, hread, hslots⟩

-- At half load, with a tombstone on the way to the key and no memory to be had.
example :
    let table := ((blank 4 : Table Nat).run [.put 4 1 10, .put 4 2 20, .remove 1, .put 4 0 30]).1
    table.slots = #[.entry 2 20, .entry 0 30, .empty, .tombstone] ∧
      (table.put 0 2 21).state.slots = #[.entry 2 21, .entry 0 30, .empty, .tombstone] := by
  decide +kernel

end Table

end BoundedProbing
