import Mathlib.Data.Finmap
import BoundedProbing.Proofs.Run

/-!
# Tables as Finite Maps

Every run of a table is a run of a finite map from keys to values.

A finite map has no slots, no capacity and no history. It answers a look-up by
what was stored last, and it has no reason to refuse an insertion. So the map is
given as a relation: `KeyMap.Step` says which answers to an operation are right
and which map each of them leaves, and an insertion may end in two ways. What a
table adds is only the choice between them.

The map of a table is read off its slots. In a valid table no key is listed
twice, so the map finds what the table finds and is as large as the count of
the table says. An operation of the table is then a step of its map, and a run
follows by induction, with validity carried along.

## Main definitions

* `KeyMap`: Finite maps from keys to values.
* `KeyMap.Step`, `KeyMap.Run`: The right answers to an operation and to a list.
* `Table.contents`: The map of a table.

## Theorems

* `Table.Valid.lookup_contents`: The map of a table finds what the table finds.
* `Table.Valid.card_keys_contents`: It is as large as the table's count says.
* `Table.Valid.step_perform`: An operation of a table is a step of its map.
* `Table.Valid.run_contents`: A run of a table is a run of its map.
* `Table.run_refines_keyMap`: The same, from the making of the table on.
-/

namespace BoundedProbing

universe u

variable {α : Type u}

/-- A finite map from keys to values. -/
abbrev KeyMap (α : Type u) := Finmap fun _ : UInt64 => α

namespace KeyMap

/-- The right answers of a finite map to an operation, and the maps they leave.
    An insertion may be refused, and then it leaves the map as it was. -/
inductive Step (map : KeyMap α) : Op α → Reply α → KeyMap α → Prop where
  | put (limit : Nat) (key : UInt64) (value : α) :
      Step map (.put limit key value) (.stored (.ok (map.lookup key))) (map.insert key value)
  | refused (limit : Nat) (key : UInt64) (value : α) (fault : Fault) :
      Step map (.put limit key value) (.stored (.error fault)) map
  | get (key : UInt64) : Step map (.get key) (.found (map.lookup key)) map
  | contains (key : UInt64) : Step map (.contains key) (.verdict (decide (key ∈ map))) map
  | remove (key : UInt64) : Step map (.remove key) (.found (map.lookup key)) (map.erase key)
  | clear : Step map .clear .done ∅
  | length : Step map .length (.size map.keys.card) map
  | copy : Step map .copy .done map

/-- The right answers to operations one after the other. -/
inductive Run : KeyMap α → List (Op α) → List (Reply α) → KeyMap α → Prop where
  | nil (map : KeyMap α) : Run map [] [] map
  | cons {map next last : KeyMap α} {op : Op α} {reply : Reply α} {ops : List (Op α)}
      {replies : List (Reply α)} (hstep : Step map op reply next)
      (hrest : Run next ops replies last) : Run map (op :: ops) (reply :: replies) last

end KeyMap

namespace Table

variable {table : Table α} {key : UInt64} {value : α}

/-- The entries of a table as a finite map. -/
def contents (table : Table α) : KeyMap α :=
  (table.slots.entries.map Prod.toSigma).toFinmap

theorem Valid.lookup_contents_eq_some_iff (h : table.Valid) :
    table.contents.lookup key = some value ↔ table.slots.Stores key value := by
  have hnodup : (table.slots.entries.map Prod.toSigma).NodupKeys := by
    rw [List.NodupKeys, List.keys, List.map_map]
    exact Slots.nodup_keys h.sound.distinct
  have hlookup : table.contents.lookup key =
      (table.slots.entries.map Prod.toSigma).dlookup key := by
    exact List.dlookup_dedupKeys key _
  -- With every key listed once, the first pair of a key is its only one.
  rw [hlookup, ← Option.mem_def, List.mem_dlookup_iff hnodup, ← Slots.mem_entries_iff]
  constructor
  · intro hmem
    rcases List.mem_map.mp hmem with ⟨⟨stored, kept⟩, hpair, heq⟩
    cases heq
    exact hpair
  · exact fun hmem => List.mem_map.mpr ⟨(key, value), hmem, rfl⟩

/-- The map of a table finds what the table finds. -/
theorem Valid.lookup_contents (h : table.Valid) (key : UInt64) :
    table.contents.lookup key = table.get key := by
  ext value
  rw [h.lookup_contents_eq_some_iff, h.get_eq_some_iff]

/-- Maps that store the same entries are the same map. -/
theorem contents_eq_of_lookup {map : KeyMap α} (h : table.Valid)
    (hsame : ∀ key value, table.slots.Stores key value ↔ map.lookup key = some value) :
    table.contents = map := by
  refine Finmap.ext_lookup fun key => ?_
  ext value
  rw [h.lookup_contents_eq_some_iff, hsame]

/-- The map of a table is as large as the table's count says. -/
theorem Valid.card_keys_contents (h : table.Valid) : table.contents.keys.card = table.count := by
  have hkeys : table.contents.keys = table.slots.keys.toFinset := by
    ext key
    rw [Finmap.mem_keys, Finmap.mem_iff, List.mem_toFinset, Slots.mem_keys_iff]
    simp only [h.lookup_contents_eq_some_iff]
    exact exists_comm
  rw [hkeys, List.toFinset_card_of_nodup (Slots.nodup_keys h.sound.distinct), Slots.length_keys,
    h.count_eq]

theorem Valid.contents_put_ok (h : table.Valid) {limit : Nat} {previous : Option α}
    (hok : (table.put limit key value).answer = .ok previous) :
    (table.put limit key value).state.contents = table.contents.insert key value := by
  refine contents_eq_of_lookup (h.put limit key value) ?_
  intro stored kept
  rw [(h.put_ok hok).2]
  by_cases hkey : stored = key
  · rw [if_pos hkey, hkey, Finmap.lookup_insert, Option.some.injEq, eq_comm]
  · rw [if_neg hkey, Finmap.lookup_insert_of_ne _ hkey, h.lookup_contents_eq_some_iff]

theorem Valid.get_put_ok (h : table.Valid) {limit : Nat} {previous : Option α}
    (hok : (table.put limit key value).answer = .ok previous) (other : UInt64) :
    (table.put limit key value).state.get other =
      if other = key then some value else table.get other := by
  rw [← (h.put limit key value).lookup_contents, h.contents_put_ok hok]
  by_cases hkey : other = key
  · rw [if_pos hkey, hkey, Finmap.lookup_insert]
  · rw [if_neg hkey, Finmap.lookup_insert_of_ne _ hkey, h.lookup_contents]

theorem Valid.contents_remove (h : table.Valid) (key : UInt64) :
    (table.remove key).1.contents = table.contents.erase key := by
  refine contents_eq_of_lookup (h.remove key) ?_
  intro stored kept
  rw [h.stores_remove_iff]
  by_cases hkey : stored = key
  · rw [hkey, Finmap.lookup_erase]
    simp only [ne_eq, not_true_eq_false, false_and, reduceCtorEq]
  · rw [Finmap.lookup_erase_ne hkey, h.lookup_contents_eq_some_iff]
    exact and_iff_right hkey

/-- A new key is one entry more. -/
theorem Valid.count_put_ok (h : table.Valid) {limit : Nat}
    (hok : (table.put limit key value).answer = .ok none) :
    (table.put limit key value).state.count = table.count + 1 := by
  have hnew : key ∉ table.contents.keys := by
    rw [Finmap.mem_keys, ← Finmap.lookup_eq_none, h.lookup_contents]
    exact (h.put_ok hok).1.symm
  have hkeys : (table.contents.insert key value).keys = insert key table.contents.keys := by
    ext other
    rw [Finset.mem_insert, Finmap.mem_keys, Finmap.mem_keys, Finmap.mem_insert]
  rw [← (h.put limit key value).card_keys_contents, h.contents_put_ok hok, hkeys,
    Finset.card_insert_of_notMem hnew, h.card_keys_contents]

/-- A stored key that is removed is one entry less. -/
theorem Valid.count_remove (h : table.Valid) (hget : table.get key = some value) :
    (table.remove key).1.count + 1 = table.count := by
  have hmem : key ∈ table.contents.keys := by
    rw [Finmap.mem_keys, ← Finmap.lookup_isSome, h.lookup_contents, hget]
    rfl
  rw [← (h.remove key).card_keys_contents, h.contents_remove, Finmap.keys_erase,
    Finset.card_erase_add_one hmem, h.card_keys_contents]

theorem Valid.get_remove (h : table.Valid) (key other : UInt64) :
    (table.remove key).1.get other = if other = key then none else table.get other := by
  rw [← (h.remove key).lookup_contents, h.contents_remove]
  by_cases hkey : other = key
  · rw [if_pos hkey, hkey, Finmap.lookup_erase]
  · rw [if_neg hkey, Finmap.lookup_erase_ne hkey, h.lookup_contents]

theorem contents_blank (capacity : Nat) : (blank capacity : Table α).contents = ∅ := by
  have hnone : (blank capacity : Table α).slots.entries = [] := by
    refine List.eq_nil_iff_length_eq_zero.mpr ?_
    rw [Slots.length_entries]
    exact Slots.countP_blank rfl capacity
  rw [contents, hnone, List.map_nil, Finmap.toFinmap_nil]

/-- An operation of a table is a step of its map. -/
theorem Valid.step_perform (h : table.Valid) (op : Op α) :
    KeyMap.Step table.contents op (table.perform op).2 (table.perform op).1.contents := by
  cases op with
  | put limit key value =>
      simp only [Table.perform]
      cases hanswer : (table.put limit key value).answer with
      | ok previous =>
          rw [(h.put_ok hanswer).1, ← h.lookup_contents, h.contents_put_ok hanswer]
          exact .put limit key value
      | error fault =>
          -- The table is the first one again, and so is its map.
          rcases put_course limit table key value with ⟨_, _, _, hend⟩
          rw [hend.state_of_error hanswer]
          exact .refused limit key value fault
  | get key =>
      simp only [Table.perform]
      rw [← h.lookup_contents]
      exact .get key
  | contains key =>
      simp only [Table.perform]
      have hmem : table.contains key = decide (key ∈ table.contents) := by
        rw [h.contains_eq_isSome_get, ← h.lookup_contents, Bool.eq_iff_iff, decide_eq_true_iff,
          Finmap.lookup_isSome]
      rw [hmem]
      exact .contains key
  | remove key =>
      simp only [Table.perform]
      rw [h.remove_snd, ← h.lookup_contents, h.contents_remove]
      exact .remove key
  | clear =>
      simp only [Table.perform, Table.clear]
      rw [contents_blank]
      exact .clear
  | length =>
      simp only [Table.perform]
      rw [← h.card_keys_contents]
      exact .length
  | copy => exact .copy

/-- A run of a table is a run of its map. -/
theorem Valid.run_contents (h : table.Valid) (ops : List (Op α)) :
    KeyMap.Run table.contents ops (table.run ops).2 (table.run ops).1.contents := by
  -- The table after each operation is valid again and goes on.
  induction ops generalizing table with
  | nil => exact .nil table.contents
  | cons op rest ih => exact .cons (h.step_perform op) (ih (h.perform op))

/-- Whatever is asked of a new table under whatever limits, its answers are
    right for a finite map that starts out empty. The slots of the last table
    hold the entries of the last map and no others, each key once. -/
theorem run_refines_keyMap {limit wanted : Nat} (h : withCapacity limit wanted = .ok table)
    (ops : List (Op α)) :
    ∃ last, KeyMap.Run ∅ ops (table.run ops).2 last ∧
      (∀ key value, (key, value) ∈ (table.run ops).1.slots.entries ↔
        last.lookup key = some value) ∧
      (table.run ops).1.slots.keys.Nodup := by
  have hvalid := valid_of_withCapacity h
  have hlast := hvalid.run ops
  have hrun := hvalid.run_contents ops
  rw [eq_blank_of_withCapacity h, contents_blank, ← eq_blank_of_withCapacity h] at hrun
  refine ⟨(table.run ops).1.contents, hrun, fun key value => ?_,
    Slots.nodup_keys hlast.sound.distinct⟩
  rw [Slots.mem_entries_iff, hlast.lookup_contents_eq_some_iff]

/-- A run that grows a table twice, is refused, finds a key behind a tombstone
    around the end of the array, and empties the table again. -/
theorem run_refines_keyMap_small :
    let ops : List (Op Nat) := [.put 4 1 10, .put 4 2 20, .put 4 4 40, .remove 1, .get 2,
      .put 4 2 21, .contains 1, .length, .copy, .remove 2, .clear, .length]
    let replies : List (Reply Nat) := [.stored (.ok none), .stored (.ok none),
      .stored (.error (.outOfMemory 8)), .found (some 10), .found (some 20),
      .stored (.ok (some 20)), .verdict false, .size 1, .done, .found (some 21), .done, .size 0]
    withCapacity 4 1 = .ok (blank 1 : Table Nat) ∧ ((blank 1).run ops).2 = replies ∧
      ∃ last, KeyMap.Run ∅ ops replies last ∧
        (∀ key value, (key, value) ∈ ((blank 1).run ops).1.slots.entries ↔
          last.lookup key = some value) ∧
        ((blank 1).run ops).1.slots.keys.Nodup := by
  intro ops replies
  have hmade : withCapacity 4 1 = .ok (blank 1 : Table Nat) := rfl
  have hreplies : ((blank 1).run ops).2 = replies := by decide +kernel
  rw [← hreplies]
  exact ⟨hmade, rfl, run_refines_keyMap hmade ops⟩

end Table

end BoundedProbing
