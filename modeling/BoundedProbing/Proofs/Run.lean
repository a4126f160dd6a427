import BoundedProbing.Proofs.Insertion

/-!
# Runs of a Table

Operations one after the other, and what holds after any number of them.

An operation is a value here, so that a run is a recursion along a list of
operations and every choice a caller has is part of the list. The limit of an
allocation is such a choice: it comes with each insertion and may differ from
one to the next. A table is a value as well, and its copy is the same value.
Making a copy is still an operation, because a caller may go on with it.

The invariants are shown of one operation and carried along a run by induction.
A table is reachable if it was made with some capacity and some operations led
to it.

## Main definitions

* `Op`, `Reply`: What a table is asked and what it answers.
* `Table.perform`, `Table.run`: One operation, and a list of them.
* `Table.Reachable`: The tables that operations lead to.

## Theorems

* `Table.Valid.perform`, `Table.Valid.run`: Operations keep a table valid.
* `Table.capacity_le_perform`: No operation shrinks a table.
* `Table.Reachable.valid`, `Table.Reachable.run`: Reachable tables are valid,
  and a run leads from one to another.
* `Table.reachable_invariant`: The invariants of every reachable table.
* `Table.put_error_unchanged`: A failed insertion changes nothing.
-/

namespace BoundedProbing

universe u

/-- What a table is asked to do. -/
inductive Op (α : Type u) where
  | put (limit : Nat) (key : UInt64) (value : α)
  | get (key : UInt64)
  | contains (key : UInt64)
  | remove (key : UInt64)
  | clear
  | length
  | copy
  deriving DecidableEq

/-- What a table answers. -/
inductive Reply (α : Type u) where
  | stored (answer : Except Fault (Option α))
  | found (value : Option α)
  | verdict (holds : Bool)
  | size (count : Nat)
  | done
  deriving DecidableEq

namespace Table

variable {α : Type u} {table : Table α}

/-- One operation: the table it leaves and its answer. -/
def perform (table : Table α) : Op α → Table α × Reply α
  | .put limit key value =>
    ((table.put limit key value).state, .stored (table.put limit key value).answer)
  | .get key => (table, .found (table.get key))
  | .contains key => (table, .verdict (table.contains key))
  | .remove key => ((table.remove key).1, .found (table.remove key).2)
  | .clear => (table.clear, .done)
  | .length => (table, .size table.count)
  | .copy => (table, .done)

/-- Operations one after the other: the last table and all the answers. -/
def run (table : Table α) : List (Op α) → Table α × List (Reply α)
  | [] => (table, [])
  | op :: rest =>
    (((table.perform op).1.run rest).1, (table.perform op).2 :: ((table.perform op).1.run rest).2)

/-- The tables that operations lead to. -/
inductive Reachable : Table α → Prop where
  | made {limit wanted : Nat} {table : Table α} (h : withCapacity limit wanted = .ok table) :
      Reachable table
  | after {table : Table α} (h : Reachable table) (op : Op α) : Reachable (table.perform op).1

theorem Valid.perform (h : table.Valid) (op : Op α) : (table.perform op).1.Valid := by
  cases op with
  | put limit key value => exact h.put limit key value
  | get key => exact h
  | contains key => exact h
  | remove key => exact h.remove key
  | clear => exact h.clear
  | length => exact h
  | copy => exact h

theorem Valid.run (h : table.Valid) (ops : List (Op α)) : (table.run ops).1.Valid := by
  -- The invariants are carried from table to table along the list.
  induction ops generalizing table with
  | nil => exact h
  | cons op rest ih => exact ih (h.perform op)

theorem Reachable.valid (h : table.Reachable) : table.Valid := by
  induction h with
  | made h => exact valid_of_withCapacity h
  | after _ op ih => exact ih.perform op

theorem Reachable.run (h : table.Reachable) (ops : List (Op α)) :
    (table.run ops).1.Reachable := by
  induction ops generalizing table with
  | nil => exact h
  | cons op rest ih => exact ih (.after h op)

theorem capacity_remove (table : Table α) (key : UInt64) :
    (table.remove key).1.capacity = table.capacity := by
  unfold remove
  cases locate table.slots key with
  | none => rfl
  | some index => exact capacity_vacate table index

/-- No operation shrinks a table. -/
theorem capacity_le_perform (table : Table α) (op : Op α) :
    table.capacity ≤ (table.perform op).1.capacity := by
  cases op with
  | put limit key value => exact capacity_le_put limit table key value
  | get key => exact le_refl _
  | contains key => exact le_refl _
  | remove key => exact le_of_eq (capacity_remove table key).symm
  | clear => exact le_of_eq (Slots.size_blank table.capacity).symm
  | length => exact le_refl _
  | copy => exact le_refl _

/-- A reachable table is valid: its size is a power of two, its counts agree
    with its slots, it is at most half full, no key is in two slots, and every
    entry lies in the window of its key with no empty place between. And it
    never gets smaller. -/
theorem reachable_invariant (h : table.Reachable) :
    table.Valid ∧ ∀ op : Op α, table.capacity ≤ (table.perform op).1.capacity :=
  ⟨h.valid, capacity_le_perform table⟩

/-- Two keys at home in the last of four slots: the second went around the end,
    and the first left a tombstone on the way to it. -/
theorem reachable_invariant_wrapped :
    let wrapped : Table Nat := ⟨⟨#[.entry 2 20, .empty, .empty, .tombstone], 1⟩, 1⟩
    wrapped.Reachable ∧ wrapped.Valid ∧
      ∀ op : Op Nat, wrapped.capacity ≤ (wrapped.perform op).1.capacity := by
  intro wrapped
  have hmade : withCapacity 4 4 = .ok (blank 4 : Table Nat) := rfl
  have hrun : ((blank 4 : Table Nat).run [.put 4 1 10, .put 4 2 20, .remove 1]).1 = wrapped := by
    decide +kernel
  have hreach : wrapped.Reachable := by
    rw [← hrun]
    exact Reachable.run (.made hmade) _
  exact ⟨hreach, reachable_invariant hreach⟩

/-- An insertion that fails leaves the table as it was: every slot, both counts
    and the capacity. -/
theorem put_error_unchanged {limit : Nat} {key : UInt64} {value : α} {fault : Fault}
    (h : (table.put limit key value).answer = .error fault) :
    (table.put limit key value).state = table := by
  rcases put_course limit table key value with ⟨_, _, _, hend⟩
  exact hend.state_of_error h

/-- A full window at half load. The table is doubled once, the window is full
    again, and the second doubling is refused. The tombstone is back as well. -/
theorem put_error_unchanged_after_doubling :
    let crowded := ((blank 16 : Table Nat).run
      ([.put 16 5 0, .put 16 15 0, .remove 5, .remove 15] ++
        [0, 40, 51, 99, 121, 144, 149, 209].map fun key => .put 16 key 1)).1
    crowded.tombstones = 1 ∧ requests (crowded.put 32 242 2).history = [32, 64] ∧
      (crowded.put 32 242 2).answer = .error (.outOfMemory 64) ∧
      (crowded.put 32 242 2).state = crowded := by
  intro crowded
  have herror : (crowded.put 32 242 2).answer = .error (.outOfMemory 64) := by decide +kernel
  exact ⟨by decide +kernel, by decide +kernel, herror, put_error_unchanged herror⟩

end Table

end BoundedProbing
