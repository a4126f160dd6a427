import BoundedProbing.IdentitySet
import BoundedProbing.Proofs.KeyMap

/-!
# Runs of a Set

Operations on a set one after the other, and what its table keeps meanwhile.

A set hands its table on from one operation to the next and never looks at its
equality. `SameIdentity` relates sets that differ in the equality alone, even
in the type of its verdicts, and every operation answers the same for both and
leads to such a pair again.

The table of a set is more than a valid table. It stores every item under the
hash of that item, and nothing an operation does can put an item elsewhere.
Therefore the hashes of the members are the keys of the table, in the same
order, and a visit to the members meets no hash twice.

## Main definitions

* `SetOp`, `SetReply`: What a set is asked and what it answers.
* `IdentitySet.perform`, `IdentitySet.run`: One operation, and a list of them.
* `IdentitySet.SameIdentity`: Sets with the same table and the same hash.
* `IdentitySet.Valid`: A valid table that stores items under their hashes.

## Theorems

* `IdentitySet.SameIdentity.run`: Such sets give the same answers.
* `IdentitySet.Valid.run`: Operations keep a set valid.
* `IdentitySet.Valid.map_hash_members`: The hashes of the members are the keys.
* `IdentitySet.Valid.lookup_contents_iff_mem_members`: The members are what the
  table stores.
-/

namespace BoundedProbing

universe u v w

/-- What a set is asked to do. -/
inductive SetOp (α : Type u) where
  | add (limit : Nat) (item : α)
  | remove (item : α)
  | get (item : α)
  | contains (item : α)
  | count
  | isEmpty
  | clear
  | apply
  deriving DecidableEq

/-- What a set answers. A visit answers with the items visited, in order. -/
inductive SetReply (α : Type u) where
  | stored (answer : Except Fault (Option α))
  | found (item : Option α)
  | verdict (holds : Bool)
  | size (count : Nat)
  | visited (items : List α)
  | done
  deriving DecidableEq

/-- The values of an array are those of its entries. -/
theorem Table.values_eq_map_entries {α : Type u} (table : Table α) :
    table.values = table.slots.entries.map Prod.snd := by
  rw [Table.values, Slots.entries_eq_filterMap, Array.toList_filterMap, List.map_filterMap]
  refine List.filterMap_congr fun slot _ => ?_
  cases slot <;> rfl

namespace IdentitySet

variable {α : Type u} {ε : Type v} {φ : Type w}

/-- One operation: the set it leaves and its answer. -/
def perform (set : IdentitySet α ε) : SetOp α → IdentitySet α ε × SetReply α
  | .add limit item => ((set.add limit item).state, .stored (set.add limit item).answer)
  | .remove item => ((set.remove item).1, .found (set.remove item).2)
  | .get item => (set, .found (set.get item))
  | .contains item => (set, .verdict (set.contains item))
  | .count => (set, .size set.count)
  | .isEmpty => (set, .verdict set.isEmpty)
  | .clear => (set.clear, .done)
  | .apply => (set, .visited (set.apply (fun seen item => seen ++ [item]) []))

/-- Operations one after the other: the last set and all the answers. -/
def run (set : IdentitySet α ε) : List (SetOp α) → IdentitySet α ε × List (SetReply α)
  | [] => (set, [])
  | op :: rest =>
    (((set.perform op).1.run rest).1, (set.perform op).2 :: ((set.perform op).1.run rest).2)

/-- The sets may differ in their equality, but in nothing else. -/
structure SameIdentity (first : IdentitySet α ε) (second : IdentitySet α φ) : Prop where
  table_eq : first.table = second.table
  hash_eq : first.hash = second.hash

theorem SameIdentity.perform {first : IdentitySet α ε} {second : IdentitySet α φ}
    (h : first.SameIdentity second) (op : SetOp α) :
    (first.perform op).2 = (second.perform op).2 ∧
      (first.perform op).1.SameIdentity (second.perform op).1 := by
  rcases first with ⟨table, hash, equals⟩
  rcases second with ⟨_, _, other⟩
  rcases h with ⟨rfl, rfl⟩
  -- What is left of the difference is the equality, and no operation reads it.
  cases op with
  | add limit item => exact ⟨rfl, rfl, rfl⟩
  | remove item => exact ⟨rfl, rfl, rfl⟩
  | get item => exact ⟨rfl, rfl, rfl⟩
  | contains item => exact ⟨rfl, rfl, rfl⟩
  | count => exact ⟨rfl, rfl, rfl⟩
  | isEmpty => exact ⟨rfl, rfl, rfl⟩
  | clear => exact ⟨rfl, rfl, rfl⟩
  | apply => exact ⟨rfl, rfl, rfl⟩

/-- The equality of a set has no part in its answers. -/
theorem SameIdentity.run {first : IdentitySet α ε} {second : IdentitySet α φ}
    (h : first.SameIdentity second) (ops : List (SetOp α)) :
    (first.run ops).2 = (second.run ops).2 ∧
      (first.run ops).1.SameIdentity (second.run ops).1 := by
  induction ops generalizing first second with
  | nil => exact ⟨rfl, h⟩
  | cons op rest ih =>
      rcases h.perform op with ⟨hreply, hnext⟩
      rcases ih hnext with ⟨hreplies, hlast⟩
      refine ⟨?_, hlast⟩
      rw [IdentitySet.run, IdentitySet.run, hreply, hreplies]

variable {set : IdentitySet α ε} {limit : Nat} {item : α}

/-- A valid table in which every item is stored under its own hash. -/
structure Valid (set : IdentitySet α ε) : Prop where
  table : set.table.Valid
  own : ∀ key item, set.table.slots.Stores key item → set.hash item = key

theorem hash_perform (set : IdentitySet α ε) (op : SetOp α) :
    (set.perform op).1.hash = set.hash := by
  cases op <;> rfl

theorem hash_run (set : IdentitySet α ε) (ops : List (SetOp α)) :
    (set.run ops).1.hash = set.hash := by
  induction ops generalizing set with
  | nil => rfl
  | cons op rest ih => exact (ih _).trans (set.hash_perform op)

theorem eq_blank_of_withCapacity {hash : α → UInt64} {equals : α → α → ε} {wanted : Nat}
    (h : withCapacity limit hash equals wanted = .ok set) :
    set = ⟨Table.blank (capacityFor (max wanted initialCapacity)), hash, equals⟩ := by
  unfold withCapacity at h
  cases hmade : Table.withCapacity (α := α) limit (max wanted initialCapacity) with
  | error fault =>
      rw [hmade] at h
      exact absurd h (by simp only [Except.map, reduceCtorEq, not_false_eq_true])
  | ok table =>
      rw [hmade, Except.map, Except.ok.injEq] at h
      rw [← h, Table.eq_blank_of_withCapacity hmade]

theorem valid_blank {capacity : Nat} (h : capacity.isPowerOfTwo) (hash : α → UInt64)
    (equals : α → α → ε) : (⟨Table.blank capacity, hash, equals⟩ : IdentitySet α ε).Valid := by
  refine ⟨Table.valid_blank h, fun key item hstores => ?_⟩
  rcases hstores with ⟨index, hread⟩
  exact absurd ⟨item, hread⟩ (Slots.not_holds_blank capacity index key)

theorem Valid.add (h : set.Valid) (limit : Nat) (item : α) : (set.add limit item).state.Valid := by
  rcases set with ⟨table, hash, equals⟩
  refine ⟨h.table.put limit (hash item) item, fun key kept hstores => ?_⟩
  change (table.put limit (hash item) item).state.slots.Stores key kept at hstores
  cases hanswer : (table.put limit (hash item) item).answer with
  | ok previous =>
      rw [(h.table.put_ok hanswer).2] at hstores
      -- The item was put under its hash, and every other key keeps what it had.
      by_cases hkey : key = hash item
      · rw [if_pos hkey] at hstores
        rw [hstores, hkey]
        rfl
      · rw [if_neg hkey] at hstores
        exact h.own key kept hstores
  | error fault =>
      rcases Table.put_course limit table (hash item) item with ⟨_, _, _, hend⟩
      rw [hend.state_of_error hanswer] at hstores
      exact h.own key kept hstores

theorem Valid.remove (h : set.Valid) (item : α) : (set.remove item).1.Valid := by
  rcases set with ⟨table, hash, equals⟩
  refine ⟨h.table.remove (hash item), fun key kept hstores => ?_⟩
  exact h.own key kept ((h.table.stores_remove_iff (hash item)).mp hstores).2

theorem Valid.clear (h : set.Valid) : set.clear.Valid :=
  valid_blank h.table.isPowerOfTwo set.hash set.equals

theorem Valid.perform (h : set.Valid) (op : SetOp α) : (set.perform op).1.Valid := by
  cases op with
  | add limit item => exact h.add limit item
  | remove item => exact h.remove item
  | get item => exact h
  | contains item => exact h
  | count => exact h
  | isEmpty => exact h
  | clear => exact h.clear
  | apply => exact h

theorem Valid.run (h : set.Valid) (ops : List (SetOp α)) : (set.run ops).1.Valid := by
  induction ops generalizing set with
  | nil => exact h
  | cons op rest ih => exact ih (h.perform op)

/-- The hashes of the members are the keys of the table, in the same order. -/
theorem Valid.map_hash_members (h : set.Valid) :
    set.members.map set.hash = set.table.slots.keys := by
  rw [members, Table.values_eq_map_entries, List.map_map, Slots.keys]
  refine List.map_congr_left fun pair hmem => ?_
  exact h.own pair.1 pair.2 (Slots.mem_entries_iff.mp hmem)

/-- The members are what the table stores, each under its own hash. -/
theorem Valid.lookup_contents_iff_mem_members (h : set.Valid) (key : UInt64) (item : α) :
    set.table.contents.lookup key = some item ↔ item ∈ set.members ∧ set.hash item = key := by
  rw [h.table.lookup_contents_eq_some_iff, members, Table.values_eq_map_entries, List.mem_map]
  constructor
  · intro hstores
    exact ⟨⟨(key, item), Slots.mem_entries_iff.mpr hstores, rfl⟩, h.own key item hstores⟩
  · intro hboth
    rcases hboth with ⟨⟨⟨stored, kept⟩, hmem, rfl⟩, hkey⟩
    -- A member is stored under some key, and that is its hash.
    have hstores := Slots.mem_entries_iff.mp hmem
    rw [← hkey, h.own stored kept hstores]
    exact hstores

/-- A visitor that collects what it sees collects the members. -/
theorem apply_append (set : IdentitySet α ε) :
    set.apply (fun seen item => seen ++ [item]) [] = set.members := by
  rw [apply, List.foldl_append_eq_append, List.nil_append, ← List.flatMap_def,
    List.flatMap_singleton']

end IdentitySet

end BoundedProbing
