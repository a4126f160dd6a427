import BoundedProbing.Table.Rebuild

/-!
# Putting an Entry

How a table takes a value under a key.

A look at the table gives a *plan*: write over the entry the key already has,
take a free place, rebuild the table first, or refuse. A free place may only be
taken while fewer than half of the slots are. When the window is full, the key
is refused if keys of the same mix fill it, the table is rebuilt at its own
size if it has more tombstones than entries, and it is doubled otherwise.

After a rebuild the plan is drawn up again, so one insertion may rebuild
several times. A rebuild at the same size happens at most once, as it leaves no
tombstone, and every other one doubles the capacity; that is why the loop ends.
If it ends with a fault, the layout that the first rebuild replaced is put
back, and the table is what it was.

## Main definitions

* `Plan`, `Table.plan`: What an insertion has to do next.
* `Table.overwrite`, `Table.occupy`: The two ways to write.
* `Table.giveUp`: The end of an insertion that is refused.
* `Table.unrest`: A bound on the rebuilds still to come.
* `Table.putFrom`, `Table.put`: The insertion.

## Theorems

* `Table.plan_eq_rebuild`: A rebuild is planned at twice the capacity, or at
  the same capacity for more tombstones than entries.
* `Table.unrest_rebuild_lt`: A planned rebuild that succeeds lowers the bound.
-/

namespace BoundedProbing

universe u

variable {α : Type u}

/-- What an insertion has to do next. -/
inductive Plan where
  /-- The key is stored here: replace its value. -/
  | overwrite (index : Nat)
  /-- The key is absent: store it here. -/
  | occupy (index : Nat)
  /-- Rebuild the table at this capacity and look again. -/
  | rebuild (capacity : Nat)
  /-- Nothing can be done. -/
  | refuse (fault : Fault)
  deriving Repr, DecidableEq

/-- The plan to double a capacity. -/
def Plan.enlarge (capacity : Nat) : Plan :=
  match doubled capacity with
  | some larger => .rebuild larger
  | none => .refuse (.capacityOverflow capacity)

namespace Table

/-- What inserting a key into a table calls for. -/
def plan (table : Table α) (key : UInt64) : Plan :=
  match place table.slots key with
  | .found index => .overwrite index
  | .vacant index =>
    if table.count < table.capacity / 2 then .occupy index else .enlarge table.capacity
  | .exhausted =>
    if saturated table.slots key then .refuse (.windowSaturated key)
    else if table.count < table.tombstones then .rebuild table.capacity
    else .enlarge table.capacity

/-- What there is to tell about a look at the table: that the key's window is
    full, if it is. -/
def sighting (table : Table α) (key : UInt64) : List Event :=
  match place table.slots key with
  | .exhausted => [.exhausted key table.capacity]
  | _ => []

/-- Replaces the value in a slot that holds the key. -/
def overwrite (table : Table α) (index : Nat) (key : UInt64) (value : α) : Table α :=
  match table with
  | ⟨⟨slots, tombstones⟩, count⟩ =>
    ⟨⟨slots.write index (.entry key value), tombstones⟩, count⟩

/-- Stores a new key in a free slot. A tombstone written over is gone. -/
def occupy (table : Table α) (index : Nat) (key : UInt64) (value : α) : Table α :=
  match table with
  | ⟨⟨slots, tombstones⟩, count⟩ =>
    let left := if (slots.read index).isTombstone then tombstones - 1 else tombstones
    ⟨⟨slots.write index (.entry key value), left⟩, count + 1⟩

/-- Ends an insertion that is refused. The first layout that was replaced, if
    any was, is put back. -/
def giveUp (table : Table α) (saved : Option (Layout α)) (fault : Fault) :
    Outcome (Table α) (Option α) :=
  match saved with
  | none => ⟨table, .error fault, []⟩
  | some layout =>
    ⟨{ layout with count := table.count }, .error fault, [.restored layout.slots.size fault]⟩

/-- A bound on the rebuilds still to come, which every rebuild lowers: room for
    doubling counts twice, and more tombstones than entries once. -/
def unrest (table : Table α) : Nat :=
  2 * (UInt64.size - table.capacity) + if table.count < table.tombstones then 1 else 0

/-- A rebuild is planned at twice the capacity, or at the same capacity when
    there are more tombstones than entries. -/
theorem plan_eq_rebuild {table : Table α} {key : UInt64} {capacity : Nat}
    (h : table.plan key = .rebuild capacity) :
    (capacity = 2 * table.capacity ∧ 0 < table.capacity ∧ 2 * table.capacity < UInt64.size) ∨
      (capacity = table.capacity ∧ table.count < table.tombstones) := by
  have hlarge : ∀ before, Plan.enlarge before = .rebuild capacity →
      capacity = 2 * before ∧ 0 < before ∧ 2 * before < UInt64.size := by
    intro before hplan
    unfold Plan.enlarge at hplan
    split at hplan
    · next larger hd =>
      simp only [Plan.rebuild.injEq] at hplan
      exact doubled_eq_some_iff.mp (hplan ▸ hd)
    · exact absurd hplan (by simp only [reduceCtorEq, not_false_eq_true])
  unfold plan at h
  split at h
  · exact absurd h (by simp only [reduceCtorEq, not_false_eq_true])
  · split at h
    · exact absurd h (by simp only [reduceCtorEq, not_false_eq_true])
    · exact Or.inl (hlarge _ h)
  · split at h
    · exact absurd h (by simp only [reduceCtorEq, not_false_eq_true])
    · split at h
      · next hmore =>
        simp only [Plan.rebuild.injEq] at h
        exact Or.inr ⟨h.symm, hmore⟩
      · exact Or.inl (hlarge _ h)

/-- A planned rebuild that succeeds lowers the bound. -/
theorem unrest_rebuild_lt {limit : Nat} {table : Table α} {key : UInt64} {capacity : Nat}
    {left : Layout α} (hplan : table.plan key = .rebuild capacity)
    (hok : (table.rebuild limit capacity).answer = .ok left) :
    (table.rebuild limit capacity).state.unrest < table.unrest := by
  rcases rebuild_ok hok with ⟨hnone, _, hle⟩
  unfold unrest
  rw [hnone]
  rcases plan_eq_rebuild hplan with ⟨rfl, hpos, hlt⟩ | ⟨rfl, hmore⟩
  · simp only [Nat.not_lt_zero, if_false]
    omega
  · simp only [Nat.not_lt_zero, if_false, hmore, if_true]
    omega

/-- Inserts into a table whose first layout in this insertion, if it has been
    replaced, is `saved`. -/
def putFrom (limit : Nat) (key : UInt64) (value : α) (saved : Option (Layout α))
    (table : Table α) : Outcome (Table α) (Option α) :=
  match _hplan : table.plan key with
  | .overwrite index =>
    let previous := (table.slots.read index).value?
    ⟨table.overwrite index key value, .ok previous, []⟩
  | .occupy index => ⟨table.occupy index key value, .ok none, []⟩
  | .refuse fault => (table.giveUp saved fault).after (table.sighting key)
  | .rebuild capacity =>
    let rebuilt := table.rebuild limit capacity
    let told := table.sighting key ++ rebuilt.history
    match _hok : rebuilt.answer with
    -- Later layouts only stand between the first and the last.
    | .ok left => (putFrom limit key value (some (saved.getD left)) rebuilt.state).after told
    | .error fault => (rebuilt.state.giveUp saved fault).after told
termination_by table.unrest
decreasing_by exact unrest_rebuild_lt _hplan _hok

/-- Stores a value under a key and answers with the value it replaced. Arrays
    of more than `limit` slots are refused. -/
def put (limit : Nat) (table : Table α) (key : UInt64) (value : α) :
    Outcome (Table α) (Option α) :=
  table.putFrom limit key value none

end Table

end BoundedProbing
