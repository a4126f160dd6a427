import BoundedProbing.Proofs.Guarded.Figures
import BoundedProbing.Proofs.Guarded.Insertion
import BoundedProbing.Proofs.Guarded.Reading
import BoundedProbing.Proofs.Run

/-!
# No Operation Stops

A table that operations led to can be asked anything.

No operation checks what it relies on. It reads the places a search comes to,
lowers a count, or adds to one, and that each of these can be done is due to
what every other operation has left behind. So the claim is about reachable
tables, and it is one claim for all operations. Carried out by steps that are
able to stop, each of them has a result, and the result is the one the library
gives.

An insertion may lead to arrays of any size of 64 bits. The statistics scale
and add up counts, and for them the table has to be no larger than a machine
could hold, which leaves six of the 64 bits free.

## Main definitions

* `Table.RunsGuarded`: No operation on a table stops.

## Theorems

* `Table.Valid.runsGuarded`: No operation on a valid table of such a size stops.
* `Table.reachable_runsGuarded`: Nor on a reachable one.
-/

namespace BoundedProbing

universe u

variable {α : Type u}

namespace Table

variable {table : Table α}

/-- No operation on the table stops, and each has the result of the library. -/
structure RunsGuarded (table : Table α) : Prop where
  get : ∀ key, Guarded.get table key = some (table.get key)
  put : ∀ limit key value, Guarded.put limit table key value = some (table.put limit key value)
  remove : ∀ key, Guarded.remove table key = some (table.remove key)
  /-- What inserting a key calls for, and the room to be made if its window is full. -/
  plan : ∀ key, Guarded.plan table key = some (table.plan key)
  /-- A move to any array that could be searched afterwards. -/
  rebuild : ∀ limit capacity, Guarded.Addressable capacity →
    Guarded.rebuild limit table capacity = some (table.rebuild limit capacity)
  /-- Any number of steps of an iterator, those behind its end included. -/
  advance : ∀ steps, Guarded.advance steps table.iter = some (table.iter.advance steps)
  histogram : Guarded.histogram table = some table.histogram
  stats : Guarded.stats table = some table.stats
  chart : Guarded.chart table.histogram = some table.histogram.chart

/-- No operation on a valid table stops, if six of the 64 bits are free. -/
theorem Valid.runsGuarded (h : table.Valid) (hsize : table.capacity ≤ 2 ^ 58) :
    table.RunsGuarded := by
  have hbits : UInt64.size = 2 ^ 64 := rfl
  have hload := h.two_mul_count_le
  have haddressable : Guarded.Addressable table.capacity := ⟨h.isPowerOfTwo, by omega⟩
  have hdistances : (probeLimit - 1) * table.count < UInt64.size := by
    unfold probeLimit
    omega
  have hbars : table.count * fullBar < UInt64.size := by
    unfold fullBar
    omega
  exact {
    get := haddressable.get_eq
    put := h.guarded_put_eq haddressable
    remove := h.guarded_remove_eq haddressable
    plan := haddressable.plan_eq
    rebuild := fun limit _ hcapacity => hcapacity.rebuild_eq limit table
    advance := h.exact_iter.guarded_advance_eq
    histogram := h.guarded_histogram_eq haddressable
    stats := h.guarded_stats_eq haddressable hdistances
    chart := h.guarded_chart_eq hbars }

/-- No operation on a reachable table stops: every slot it reads or writes is
    in the array, every count it lowers is positive, and every sum and product
    has 64 bits. -/
theorem reachable_runsGuarded (h : table.Reachable) (hsize : table.capacity ≤ 2 ^ 58) :
    table.RunsGuarded :=
  h.valid.runsGuarded hsize

/-- Two keys at home in the last of four slots, the first of them removed: a
    search for the second goes around the end. -/
theorem reachable_runsGuarded_wrapped :
    let wrapped := ((blank 4 : Table Nat).run [.put 4 1 10, .put 4 2 20, .remove 1]).1
    wrapped.Reachable ∧ wrapped.capacity ≤ 2 ^ 58 ∧ wrapped.RunsGuarded := by
  intro wrapped
  have hmade : withCapacity 4 4 = .ok (blank 4 : Table Nat) := rfl
  have hreach : wrapped.Reachable := Reachable.run (.made hmade) _
  have hsize : wrapped.capacity ≤ 2 ^ 58 := by decide +kernel
  exact ⟨hreach, hsize, reachable_runsGuarded hreach hsize⟩

end Table

end BoundedProbing
