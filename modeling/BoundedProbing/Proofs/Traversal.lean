import Mathlib.Data.List.ReduceOption
import BoundedProbing.Proofs.Iteration
import BoundedProbing.Proofs.SetRun

/-!
# What an Iterator Gives

The values of a table, one for every stored key, in the order of their slots.

What an iterator gives is a fact about iterators and asks nothing of a table:
the values in the slots it has not passed, and nothing once these are gone. What
does ask something is the number it announces. That was taken from the count of
the table and has only been lowered since. It is the number of values still to
come because the iterator is exact, which a new iterator over a reachable table
is.

Each of the three ways to go through a table meets the same values: an
iterator, a walk over the slots by index, and a visit to the members of a set.
They belong to the stored keys one by one, because no key is in two slots.

## Theorems

* `Table.pending_iter`: A new iterator has all values still to give.
* `Table.map_getByIndex`: A walk over the slots by index.
* `Table.Valid.map_get_keys`: The values belong to the stored keys.
* `Table.iter_gives_values`: All of this for a reachable table.
-/

namespace BoundedProbing

universe u v w

variable {α : Type u}

namespace Table

variable {table : Table α}

theorem pending_iter (table : Table α) : table.iter.pending = table.values := by
  rw [Iter.pending, iter, values, Array.toList_filterMap]

/-- Every index below the capacity shows its slot. -/
theorem map_getByIndex (table : Table α) :
    (List.range table.capacity).map table.getByIndex =
      (table.slots.toList.map Slot.value?).map .ok := by
  rw [Slots.toList_eq_map_read, List.map_map, List.map_map]
  refine List.map_congr_left fun index hindex => ?_
  have hi : index < table.slots.size := List.mem_range.mp hindex
  rw [Function.comp_apply, Function.comp_apply, getByIndex, Slots.read_eq_getElem hi,
    Array.getElem?_eq_getElem hi]

theorem values_eq_reduceOption (table : Table α) :
    table.values = (table.slots.toList.map Slot.value?).reduceOption := by
  rw [values, Array.toList_filterMap, List.reduceOption, List.filterMap_map]
  rfl

/-- The values are those that the stored keys have, in the order of the slots. -/
theorem Valid.map_get_keys (h : table.Valid) :
    table.slots.keys.map table.get = table.values.map some := by
  rw [Slots.keys, values_eq_map_entries, List.map_map, List.map_map]
  refine List.map_congr_left fun pair hmem => ?_
  exact h.get_eq_some_iff.mpr (Slots.mem_entries_iff.mp hmem)

/-- An iterator over a reachable table gives the values in the order of their
    slots, and then nothing. At every step it announces how many are still to
    come. A walk over the slots by index shows the same values, and so does a
    visit to the members of a set with this table. They are the values of the
    stored keys, one for each. -/
theorem iter_gives_values (h : table.Reachable) (steps : Nat) :
    (table.iter.advance steps).1.map Prod.snd =
        (table.values.take steps).map some ++
          List.replicate (steps - table.values.length) none ∧
      table.values.length = table.count ∧
      (∀ taken ≤ steps, (table.iter.advance taken).2.sizeHint =
        ((table.values.drop taken).length, some (table.values.drop taken).length)) ∧
      (∃ shown : List (Option α), (List.range table.capacity).map table.getByIndex = shown.map .ok ∧
        table.values = shown.reduceOption) ∧
      (∃ keys : List UInt64, keys.Nodup ∧ (∀ key, key ∈ keys ↔ table.contains key = true) ∧
        keys.map table.get = table.values.map some) ∧
      ∀ {ε : Type v} {σ : Type w} (set : IdentitySet α ε), set.table = table →
        set.iter.advance steps = table.iter.advance steps ∧
          (set.count ≤ steps → ∀ (visit : σ → α → σ) (start : σ), set.apply visit start =
            ((set.iter.advance steps).1.map Prod.snd).reduceOption.foldl visit start) := by
  have hvalid := h.valid
  have hcount : table.values.length = table.count := by
    rw [← pending_iter, ← hvalid.exact_iter.remaining_eq]
    rfl
  have hgiven := Iter.map_snd_advance table.iter steps
  rw [pending_iter] at hgiven
  refine ⟨hgiven, hcount, fun taken _ => ?_, ⟨_, table.map_getByIndex,
    table.values_eq_reduceOption⟩, ⟨table.slots.keys, Slots.nodup_keys hvalid.sound.distinct,
    hvalid.mem_keys_iff_contains, hvalid.map_get_keys⟩, ?_⟩
  · rw [hvalid.exact_iter.sizeHint_advance, pending_iter]
  · intro ε σ set htable
    subst htable
    refine ⟨rfl, fun hall visit start => ?_⟩
    -- With enough steps every value is among those given, and the rest is nothing.
    have hsteps : set.table.values.length ≤ steps := hcount.trans_le hall
    have hnone : (List.replicate (steps - set.table.values.length) (none : Option α)).reduceOption =
        [] := List.reduceOption_replicate_none
    change set.table.values.foldl visit start =
      ((set.table.iter.advance steps).1.map Prod.snd).reduceOption.foldl visit start
    rw [hgiven, List.take_of_length_le hsteps, List.reduceOption_append, hnone, List.append_nil,
      List.reduceOption, List.filterMap_map]
    exact congrArg (List.foldl visit start) List.filterMap_some.symm

/-- Two keys with a home in the last slot went around the end, two tombstones
    lie in front of the entries, and two insertions were refused. -/
theorem iter_gives_values_around :
    let table := ((blank 8 : Table Nat).run [.put 8 1 10, .put 8 2 20, .put 8 3 30, .put 8 4 40,
      .remove 2, .put 8 6 60, .put 8 7 70, .put 8 5 50, .remove 1]).1
    let set : IdentitySet Nat Bool := ⟨table, UInt64.ofNat, fun _ _ => true⟩
    table.Reachable ∧ set.table = table ∧ table.tombstones = 2 ∧
      (table.iter.advance 5).1.map Prod.snd = [some 30, some 40, some 60, none, none] ∧
      (table.iter.advance 2).2.sizeHint = (1, some 1) ∧
      (∃ keys : List UInt64, keys.Nodup ∧ (∀ key, key ∈ keys ↔ table.contains key = true) ∧
        keys.map table.get = [some 30, some 40, some 60]) ∧
      set.apply (fun seen item => seen ++ [item]) [] = [30, 40, 60] := by
  intro table set
  have hmade : withCapacity 8 8 = .ok (blank 8 : Table Nat) := rfl
  have hreach : table.Reachable := Reachable.run (.made hmade) _
  have hvalues : table.values = [30, 40, 60] := by decide +kernel
  rcases iter_gives_values hreach 5 with ⟨hgiven, hcount, hannounced, _, hkeys, hsets⟩
  have hhint := hannounced 2 (by omega)
  rw [hvalues] at hgiven hcount hkeys hhint
  -- Five steps are enough for three members.
  have hthree : set.count = 3 := hcount.symm
  rcases hsets set rfl with ⟨hiter, hvisit⟩
  have hseen := hvisit (by omega) (fun seen item => seen ++ [item]) []
  rw [hiter, hgiven] at hseen
  exact ⟨hreach, rfl, by decide +kernel, hgiven, hhint, hkeys, hseen⟩

end Table

end BoundedProbing
