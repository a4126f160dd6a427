import BoundedProbing.Proofs.Guarded.Probe

/-!
# Guarded Insertions

An insertion as a machine carries it out, with its rebuilds.

Both loops of an insertion are watched as well. The sizes of a rebuild go up
towards the end of the 64 bits, and a round of the insertion that does not
lower the bound on the rebuilds still to come is a step at which it stops. So a
guarded insertion with a result is one that ends, and at no step of any round
leaves an array or the 64 bits.

What keeps the steps inside is not local. A place that a search comes to is
inside its array whatever the slots hold, but the counts are right only in a
valid table: a tombstone that is written over was counted, and an entry more is
not too many because half of the slots are free. So validity is carried from
round to round, and with it that the capacity is a power of two of 64 bits.

## Main definitions

* `Guarded.plan`, `Guarded.overwrite`, `Guarded.occupy`: One round.
* `Guarded.placeAll`, `Guarded.refit`, `Guarded.rebuild`: A rebuild.
* `Guarded.putFrom`, `Guarded.put`: The insertion.

## Theorems

* `Guarded.Addressable.plan_eq`, `Guarded.Addressable.rebuild_eq`: A round and a
  rebuild do not stop.
* `Guarded.Addressable.refit`: A rebuild leads to a size of the same kind.
* `Table.Valid.guarded_put_eq`: An insertion does not stop.
-/

namespace BoundedProbing

universe u

variable {α : Type u}

namespace Guarded

/-- What inserting a key into a table calls for. -/
def plan (table : Table α) (key : UInt64) : Option Plan :=
  (place table.slots key).bind fun
    | .found index => some (.overwrite index)
    | .vacant index =>
      some (if table.count < table.capacity / 2 then .occupy index else .enlarge table.capacity)
    | .exhausted =>
      (saturated table.slots key).map fun full =>
        if full then .refuse (.windowSaturated key)
        else if table.count < table.tombstones then .rebuild table.capacity
        else .enlarge table.capacity

/-- The table with another value in a slot that holds the key. -/
def overwrite (table : Table α) (index : Nat) (key : UInt64) (value : α) : Option (Table α) :=
  (store table.slots index (.entry key value)).map fun slots =>
    ⟨⟨slots, table.tombstones⟩, table.count⟩

/-- The table with a new key in a free slot. -/
def occupy (table : Table α) (index : Nat) (key : UInt64) (value : α) : Option (Table α) :=
  (fetch table.slots index).bind fun slot =>
    (if slot.isTombstone then sub table.tombstones 1 else some table.tombstones).bind fun left =>
      (store table.slots index (.entry key value)).bind fun slots =>
        (add table.count 1).map fun count => ⟨⟨slots, left⟩, count⟩

/-- Places entries one after the other, none if one finds its window full. -/
def placeAll : List (UInt64 × α) → Slots α → Option (Option (Slots α))
  | [], slots => some (some slots)
  | (key, value) :: rest, slots =>
    (place slots key).bind fun
      | .found index => (store slots index (.entry key value)).bind (placeAll rest)
      | .vacant index => (store slots index (.entry key value)).bind (placeAll rest)
      | .exhausted => some none

/-- Tries arrays of the given capacity, twice that, and so on. -/
def refit (limit : Nat) (pairs : List (UInt64 × α)) (capacity : Nat) :
    Option (List Nat × Except Fault (Slots α)) :=
  if limit < capacity then
    some ([capacity], .error (.outOfMemory capacity))
  else
    (placeAll pairs (Slots.blank capacity)).bind fun
      | some slots => some ([capacity], .ok slots)
      | none =>
        match _h : doubled capacity with
        | none => some ([capacity], .error (.capacityOverflow capacity))
        | some larger =>
          (refit limit pairs larger).map fun tried => (capacity :: tried.1, tried.2)
termination_by UInt64.size - capacity
decreasing_by
  rcases doubled_eq_some_iff.mp _h with ⟨rfl, hpos, hlt⟩
  omega

/-- Moves every entry into a fresh array. -/
def rebuild (limit : Nat) (table : Table α) (capacity : Nat) :
    Option (Outcome (Table α) (Layout α)) :=
  (refit limit table.slots.entries capacity).map fun tried =>
    let asked := tried.1.map Event.requested
    match tried.2 with
    | .ok slots =>
      ⟨⟨⟨slots, 0⟩, table.count⟩, .ok table.toLayout,
        asked ++ [.rebuilt table.count table.capacity slots.size table.tombstones]⟩
    | .error fault => ⟨table, .error fault, asked⟩

/-- Inserts into a table whose first layout in this insertion, if it has been
    replaced, is `saved`. A rebuild that brings the end no nearer stops the
    insertion, so that one with a result has ended. -/
def putFrom (limit : Nat) (key : UInt64) (value : α) (saved : Option (Layout α))
    (table : Table α) : Option (Outcome (Table α) (Option α)) :=
  (plan table key).bind fun
    | .overwrite index =>
      (fetch table.slots index).bind fun previous =>
        (overwrite table index key value).map fun written => ⟨written, .ok previous.value?, []⟩
    | .occupy index =>
      (occupy table index key value).map fun written => ⟨written, .ok none, []⟩
    | .refuse fault => some ((table.giveUp saved fault).after (table.sighting key))
    | .rebuild capacity =>
      (rebuild limit table capacity).bind fun rebuilt =>
        let told := table.sighting key ++ rebuilt.history
        match rebuilt.answer with
        | .ok left =>
          if _h : rebuilt.state.unrest < table.unrest then
            (putFrom limit key value (some (saved.getD left)) rebuilt.state).map fun outcome =>
              outcome.after told
          else none
        | .error fault => some ((rebuilt.state.giveUp saved fault).after told)
termination_by table.unrest
decreasing_by exact _h

/-- Stores a value under a key. -/
def put (limit : Nat) (table : Table α) (key : UInt64) (value : α) :
    Option (Outcome (Table α) (Option α)) :=
  putFrom limit key value none table

namespace Addressable

variable {table : Table α} {limit capacity larger : Nat} {pairs : List (UInt64 × α)}
  {slots : Slots α}

theorem plan_eq (h : Addressable table.capacity) (key : UInt64) :
    plan table key = some (table.plan key) := by
  have hsize : Addressable table.slots.size := h
  unfold plan Table.plan
  rw [hsize.place_eq, Option.bind_some]
  cases BoundedProbing.place table.slots key with
  | found index => rfl
  | vacant index => rfl
  | exhausted =>
      simp only [hsize.saturated_eq, Option.map_some]

theorem placeAll_eq (h : Addressable slots.size) (pairs : List (UInt64 × α)) :
    placeAll pairs slots = some (BoundedProbing.placeAll pairs slots) := by
  induction pairs generalizing slots with
  | nil => rfl
  | cons pair rest ih =>
      rcases pair with ⟨key, value⟩
      rw [placeAll, BoundedProbing.placeAll, h.place_eq, Option.bind_some]
      cases hplace : BoundedProbing.place slots key with
      | exhausted => rfl
      | found index =>
          rcases locate_eq_some_iff.mp (place_eq_found_iff.mp hplace) with ⟨_, _, _, hholds, _⟩
          have hwritten : Addressable (slots.write index (.entry key value)).size := by
            rwa [Slots.size_write]
          simp only [store_eq hholds.lt, Option.bind_some, ih hwritten]
      | vacant index =>
          have hwritten : Addressable (slots.write index (.entry key value)).size := by
            rwa [Slots.size_write]
          simp only [store_eq (Slots.lt_of_vacant h.pos hplace), Option.bind_some, ih hwritten]

theorem placeAll_blank_eq (h : Addressable capacity) (pairs : List (UInt64 × α)) :
    placeAll pairs (Slots.blank capacity) =
      some (BoundedProbing.placeAll pairs (Slots.blank capacity)) := by
  have hblank : Addressable (Slots.blank capacity : Slots α).size := by
    rwa [Slots.size_blank]
  exact hblank.placeAll_eq pairs

theorem doubled (h : Addressable capacity) (hlarger : doubled capacity = some larger) :
    Addressable larger := by
  rcases doubled_eq_some_iff.mp hlarger with ⟨rfl, _, hlt⟩
  refine ⟨?_, hlt⟩
  rw [Nat.mul_comm]
  exact Nat.isPowerOfTwo_mul_two_of_isPowerOfTwo h.isPowerOfTwo

/-- The attempts of a rebuild do not stop, and they end. -/
theorem refit_eq (h : Addressable capacity) (limit : Nat) (pairs : List (UInt64 × α)) :
    refit limit pairs capacity = some (BoundedProbing.refit limit pairs capacity) := by
  -- Each attempt is made at a size that can be searched, up to the last.
  fun_induction BoundedProbing.refit limit pairs capacity with
  | case1 capacity hover => rw [refit, if_pos hover]
  | case2 capacity hover slots hfill =>
      rw [refit, if_neg hover, h.placeAll_blank_eq, hfill, Option.bind_some]
  | case3 capacity hover hfill hnone =>
      rw [refit, if_neg hover, h.placeAll_blank_eq, hfill, Option.bind_some]
      dsimp only
      split
      · rfl
      · next hsome => exact absurd (hnone.symm.trans hsome) (Option.some_ne_none _).symm
  | case4 capacity hover hfill larger hlarger tried ih =>
      rw [refit, if_neg hover, h.placeAll_blank_eq, hfill, Option.bind_some]
      dsimp only
      split
      · next hnone => exact absurd (hlarger.symm.trans hnone) (Option.some_ne_none _)
      · next hsome =>
        rw [← Option.some.inj (hlarger.symm.trans hsome), ih (h.doubled hlarger), Option.map_some]

theorem rebuild_eq (h : Addressable capacity) (limit : Nat) (table : Table α) :
    rebuild limit table capacity = some (table.rebuild limit capacity) := by
  unfold rebuild Table.rebuild
  rw [h.refit_eq]
  cases hfit : (BoundedProbing.refit limit table.slots.entries capacity).2 with
  | ok slots => simp only [Option.map_some, hfit]
  | error fault => simp only [Option.map_some, hfit]

/-- The array of a rebuild is of a size that can be searched again. -/
theorem refit (h : Addressable capacity)
    (hfit : (BoundedProbing.refit limit pairs capacity).2 = .ok slots) :
    Addressable slots.size := by
  fun_induction BoundedProbing.refit limit pairs capacity with
  | case1 => exact absurd hfit (by simp only [reduceCtorEq, not_false_eq_true])
  | case2 capacity _ filled hfill =>
      have hsize := size_placeAll _ _ _ hfill
      rw [Slots.size_blank] at hsize
      rw [Except.ok.injEq] at hfit
      rwa [← hfit, hsize]
  | case3 => exact absurd hfit (by simp only [reduceCtorEq, not_false_eq_true])
  | case4 capacity _ _ larger hlarger _ ih => exact ih (h.doubled hlarger) hfit

theorem of_plan_eq_rebuild {key : UInt64} (h : Addressable table.capacity)
    (hplan : table.plan key = .rebuild capacity) : Addressable capacity := by
  refine ⟨(Table.le_of_plan_eq_rebuild hplan).2 h.isPowerOfTwo, ?_⟩
  rcases Table.plan_eq_rebuild hplan with ⟨hdouble, _, hlt⟩ | ⟨hsame, _⟩
  · rwa [hdouble]
  · rw [hsame]
    exact h.lt_size

theorem rebuilt {left : Layout α} (h : Addressable capacity)
    (hok : (table.rebuild limit capacity).answer = .ok left) :
    Addressable (table.rebuild limit capacity).state.capacity := by
  rcases Table.rebuild_eq_of_ok hok with ⟨_, slots, hfit, hstate⟩
  rw [hstate]
  exact h.refit hfit

end Addressable

theorem overwrite_eq {table : Table α} {index : Nat} (hi : index < table.slots.size)
    (key : UInt64) (value : α) :
    overwrite table index key value = some (table.overwrite index key value) := by
  unfold overwrite
  rw [store_eq hi]
  rfl

end Guarded

namespace Table

variable {table : Table α} {index : Nat} {key : UInt64}

/-- Taking a free slot of a valid table does not stop. -/
theorem Valid.guarded_occupy_eq (h : table.Valid) (hsize : Guarded.Addressable table.capacity)
    (hi : index < table.slots.size) (key : UInt64) (value : α) :
    Guarded.occupy table index key value = some (table.occupy index key value) := by
  unfold Guarded.occupy
  rw [Guarded.fetch_eq hi, Option.bind_some, Guarded.store_eq hi,
    Guarded.add_eq (h.count_lt_size hsize), occupy_eq]
  by_cases htomb : (table.slots.read index).isTombstone = true
  · -- A tombstone that is written over was counted.
    rw [if_pos htomb, if_pos htomb, Guarded.sub_eq (h.tombstones_pos hi htomb)]
    rfl
  · rw [if_neg htomb, if_neg htomb]
    rfl

/-- The loop of an insertion does not stop, and it ends. -/
theorem Valid.guarded_putFrom_eq (limit : Nat) (key : UInt64) (value : α)
    (saved : Option (Layout α)) (h : table.Valid) (hsize : Guarded.Addressable table.capacity) :
    Guarded.putFrom limit key value saved table = some (table.putFrom limit key value saved) := by
  -- Every round starts from a valid table of a size that can be searched.
  fun_induction putFrom limit key value saved table with
  | case1 saved table index hplan previous =>
      have hholds := holds_of_plan_eq_overwrite h hplan
      rw [Guarded.putFrom, hsize.plan_eq, hplan, Option.bind_some]
      simp only [Guarded.fetch_eq hholds.lt, Guarded.overwrite_eq hholds.lt, Option.bind_some,
        Option.map_some, previous]
  | case2 saved table index hplan =>
      have hi := Slots.lt_of_vacant h.capacity_pos (place_of_plan_eq_occupy hplan).1
      rw [Guarded.putFrom, hsize.plan_eq, hplan, Option.bind_some]
      simp only [h.guarded_occupy_eq hsize hi, Option.map_some]
  | case3 saved table fault hplan =>
      rw [Guarded.putFrom, hsize.plan_eq, hplan, Option.bind_some]
  | case4 saved table capacity hplan rebuilt told left hok ih =>
      have hplanned := hsize.of_plan_eq_rebuild hplan
      rcases le_of_plan_eq_rebuild hplan with ⟨hle, hpow⟩
      have hvalid := (h.rebuild hle (hpow h.isPowerOfTwo) hok).1
      have hanswer : (table.rebuild limit capacity).answer = .ok left := hok
      have hrest := ih hvalid (hplanned.rebuilt hok)
      rw [Guarded.putFrom, hsize.plan_eq, hplan, Option.bind_some]
      simp only [hplanned.rebuild_eq, Option.bind_some, hanswer]
      rw [dif_pos (unrest_rebuild_lt hplan hok), hrest, Option.map_some]
  | case5 saved table capacity hplan rebuilt told fault herror =>
      have hanswer : (table.rebuild limit capacity).answer = .error fault := herror
      rw [Guarded.putFrom, hsize.plan_eq, hplan, Option.bind_some]
      simp only [(hsize.of_plan_eq_rebuild hplan).rebuild_eq, Option.bind_some, hanswer]
      rfl

/-- An insertion into a valid table does not stop, and it ends. -/
theorem Valid.guarded_put_eq (h : table.Valid) (hsize : Guarded.Addressable table.capacity)
    (limit : Nat) (key : UInt64) (value : α) :
    Guarded.put limit table key value = some (table.put limit key value) :=
  h.guarded_putFrom_eq limit key value none hsize

end Table

end BoundedProbing
