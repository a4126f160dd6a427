import BoundedProbing.Proofs.Valid

/-!
# The Course of an Insertion

An insertion rebuilds its table a number of times and then ends in one of four
ways.

The loop of `Table.putFrom` carries the first layout it replaced, so that a
fault can put it back. Seen from outside there is no loop. `Rebuilds` says that
some planned rebuilds, each of which succeeded, lead from one table to another,
and what they told. `Ends` says how the insertion ends at the last of these
tables: by writing an entry there, or by a fault, and then the table is the
first one again. Every insertion is a series of rebuilds with such an end. Both
come with their histories, so whatever is true of an insertion can be read off
its course, and `Table.putFrom` is not opened again.

A plan is taken apart in the same way. `Planned` has one constructor for each
reason to make a plan, so a case analysis of it leaves the reasons for the plan
at hand and no others.

## Main definitions

* `Table.MustGrow`, `Table.Planned`: Why an insertion does what it does next.
* `Rebuilds`: The rebuilds of an insertion, with their events.
* `restoration`: The event of putting a layout back, if one was replaced.
* `Ends`: The end of an insertion.
* `Remembers`: What the loop knows of its first table.

## Theorems

* `Table.planned`: Every plan has a reason.
* `Table.put_course`, `Table.put_eq_of_course`: Every insertion takes such a
  course, and no other.
* `Rebuilds.capacity_le`: The rebuilds never shrink a table.
* `Rebuilds.valid`: They keep a table valid, and what it stores.
* `Table.Valid.put`, `Table.Valid.put_ok`: What an insertion leaves behind.
* `Table.error_of_put`: Why an insertion can fail.
* `Table.capacity_le_put`: An insertion never shrinks a table.
-/

namespace BoundedProbing

universe u

variable {α : Type u}

namespace Table

variable {table : Table α} {limit capacity : Nat} {key : UInt64}

/-- No free place may be taken, and a rebuild of the same size is of no use. -/
def MustGrow (table : Table α) (key : UInt64) : Prop :=
  (∃ index, place table.slots key = .vacant index ∧ ¬ table.count < table.capacity / 2) ∨
    (place table.slots key = .exhausted ∧ ¬ saturated table.slots key = true ∧
      ¬ table.count < table.tombstones)

/-- The reasons for each plan. -/
inductive Planned (table : Table α) (key : UInt64) : Plan → Prop where
  | overwrite {index : Nat} (hplace : place table.slots key = .found index) :
      Planned table key (.overwrite index)
  | occupy {index : Nat} (hplace : place table.slots key = .vacant index)
      (hroom : table.count < table.capacity / 2) : Planned table key (.occupy index)
  | saturated (hplace : place table.slots key = .exhausted)
      (hfull : saturated table.slots key = true) :
      Planned table key (.refuse (.windowSaturated key))
  | refresh (hplace : place table.slots key = .exhausted)
      (hfull : ¬ saturated table.slots key = true) (hmore : table.count < table.tombstones) :
      Planned table key (.rebuild table.capacity)
  | enlarge {larger : Nat} (hgrow : table.MustGrow key)
      (hlarger : doubled table.capacity = some larger) : Planned table key (.rebuild larger)
  | overflow (hgrow : table.MustGrow key) (hnone : doubled table.capacity = none) :
      Planned table key (.refuse (.capacityOverflow table.capacity))

theorem planned_enlarge (h : table.MustGrow key) :
    Planned table key (Plan.enlarge table.capacity) := by
  unfold Plan.enlarge
  cases hdouble : doubled table.capacity with
  | some larger => exact .enlarge h hdouble
  | none => exact .overflow h hdouble

theorem planned (table : Table α) (key : UInt64) : Planned table key (table.plan key) := by
  unfold plan
  cases hplace : place table.slots key with
  | found index => exact .overwrite hplace
  | vacant index =>
      by_cases hroom : table.count < table.capacity / 2
      · simp only [if_pos hroom]
        exact .occupy hplace hroom
      · simp only [if_neg hroom]
        exact planned_enlarge (Or.inl ⟨index, hplace, hroom⟩)
  | exhausted =>
      by_cases hfull : BoundedProbing.saturated table.slots key = true
      · simp only [if_pos hfull]
        exact .saturated hplace hfull
      · by_cases hmore : table.count < table.tombstones
        · simp only [if_neg hfull, if_pos hmore]
          exact .refresh hplace hfull hmore
        · simp only [if_neg hfull, if_neg hmore]
          exact planned_enlarge (Or.inr ⟨hplace, hfull, hmore⟩)

/-- A rebuild is planned at no smaller capacity, and at a power of two if the
    capacity is one. -/
theorem le_of_plan_eq_rebuild (h : table.plan key = .rebuild capacity) :
    table.capacity ≤ capacity ∧ (table.capacity.isPowerOfTwo → capacity.isPowerOfTwo) := by
  rcases plan_eq_rebuild h with ⟨hdouble, _, _⟩ | ⟨hsame, _⟩
  · rw [hdouble, Nat.mul_comm]
    exact ⟨by omega, Nat.isPowerOfTwo_mul_two_of_isPowerOfTwo⟩
  · rw [hsame]
    exact ⟨le_refl _, id⟩

end Table

/-- Planned rebuilds that succeed lead from the first table to the second, and
    tell these events. -/
inductive Rebuilds (limit : Nat) (key : UInt64) : Table α → List Event → Table α → Prop where
  | done (table : Table α) : Rebuilds limit key table [] table
  | more {table last : Table α} {capacity : Nat} {left : Layout α} {events : List Event}
      (hplan : table.plan key = .rebuild capacity)
      (hok : (table.rebuild limit capacity).answer = .ok left)
      (hrest : Rebuilds limit key (table.rebuild limit capacity).state events last) :
      Rebuilds limit key table
        (table.sighting key ++ (table.rebuild limit capacity).history ++ events) last

/-- The first layout is put back if any event came before the fault, since
    every event before the end is one of a rebuild. -/
def restoration (first : Table α) (events : List Event) (fault : Fault) : List Event :=
  if events.isEmpty then [] else [.restored first.capacity fault]

/-- The end of an insertion into the first table, at the last one, after these
    events. -/
inductive Ends (limit : Nat) (key : UInt64) (value : α) (first : Table α) (events : List Event)
    (last : Table α) : Outcome (Table α) (Option α) → Prop where
  | overwrote {index : Nat} (hplan : last.plan key = .overwrite index) :
      Ends limit key value first events last
        ⟨last.overwrite index key value, .ok (last.slots.read index).value?, events⟩
  | occupied {index : Nat} (hplan : last.plan key = .occupy index) :
      Ends limit key value first events last ⟨last.occupy index key value, .ok none, events⟩
  | refused {fault : Fault} (hplan : last.plan key = .refuse fault) :
      Ends limit key value first events last
        ⟨first, .error fault, events ++ last.sighting key ++ restoration first events fault⟩
  | stuck {capacity : Nat} {fault : Fault} (hplan : last.plan key = .rebuild capacity)
      (herror : (last.rebuild limit capacity).answer = .error fault) :
      Ends limit key value first events last
        ⟨first, .error fault, events ++ last.sighting key ++
          (last.rebuild limit capacity).history ++ restoration first events fault⟩

/-- An end by a fault is at the first table, whatever came before. -/
theorem Ends.state_of_error {limit : Nat} {key : UInt64} {value : α} {first last : Table α}
    {events : List Event} {outcome : Outcome (Table α) (Option α)} {fault : Fault}
    (h : Ends limit key value first events last outcome) (herror : outcome.answer = .error fault) :
    outcome.state = first := by
  cases h with
  | overwrote hplan => exact absurd herror (by simp only [reduceCtorEq, not_false_eq_true])
  | occupied hplan => exact absurd herror (by simp only [reduceCtorEq, not_false_eq_true])
  | refused hplan => rfl
  | stuck hplan hstuck => rfl

/-- The layout to put back and the present count make up the first table. Before
    any event there is none, and the present table is the first. -/
def Remembers (saved : Option (Layout α)) (first : Table α) (earlier : List Event)
    (table : Table α) : Prop :=
  match saved with
  | none => earlier = [] ∧ first = table
  | some layout => earlier ≠ [] ∧ first = { layout with count := table.count }

theorem Remembers.giveUp {saved : Option (Layout α)} {first table : Table α}
    {earlier : List Event} (h : Remembers saved first earlier table) (fault : Fault) :
    table.giveUp saved fault = ⟨first, .error fault, restoration first earlier fault⟩ := by
  unfold Table.giveUp restoration
  cases saved with
  | none =>
      rcases h with ⟨hnone, hfirst⟩
      rw [hnone, hfirst]
      rfl
  | some layout =>
      rcases h with ⟨hsome, hfirst⟩
      rw [if_neg (fun hempty => hsome (List.isEmpty_iff.mp hempty)), hfirst]
      rfl

theorem Remembers.rebuild {limit capacity : Nat} {key : UInt64} {saved : Option (Layout α)}
    {first table : Table α} {earlier : List Event} {left : Layout α}
    (h : Remembers saved first earlier table)
    (hok : (table.rebuild limit capacity).answer = .ok left) :
    Remembers (some (saved.getD left)) first
      (earlier ++ (table.sighting key ++ (table.rebuild limit capacity).history))
      (table.rebuild limit capacity).state := by
  -- A rebuild stores as many entries as before, so the present count will do.
  have hcount := (Table.rebuild_ok hok).2.1
  rcases Table.rebuild_eq_of_ok hok with ⟨hleft, _⟩
  refine ⟨fun hempty => Table.history_rebuild_ne_nil hok ?_, ?_⟩
  · exact (List.append_eq_nil_iff.mp (List.append_eq_nil_iff.mp hempty).2).2
  · rw [hcount]
    cases saved with
    | none => rw [h.2, Option.getD_none, hleft]
    | some layout => rw [h.2, Option.getD_some]

namespace Table

variable {table : Table α} {limit capacity : Nat} {key : UInt64}

/-- The loop of an insertion, with the events of its earlier rounds in front. -/
theorem putFrom_course (limit : Nat) (key : UInt64) (value : α) (saved : Option (Layout α))
    (table first : Table α) (earlier : List Event) (h : Remembers saved first earlier table) :
    ∃ events last, Rebuilds limit key table events last ∧
      Ends limit key value first (earlier ++ events) last
        ((putFrom limit key value saved table).after earlier) := by
  -- Each round adds its events to the earlier ones, and the first table stays
  -- the one remembered.
  fun_induction putFrom limit key value saved table generalizing earlier with
  | case1 saved table index hplan previous => exact ⟨[], table, .done table, .overwrote hplan⟩
  | case2 saved table index hplan => exact ⟨[], table, .done table, .occupied hplan⟩
  | case3 saved table fault hplan =>
      refine ⟨[], table, .done table, ?_⟩
      have hend : Ends limit key value first earlier table _ := .refused hplan
      rw [h.giveUp, List.append_nil]
      simpa only [Outcome.after, List.append_assoc] using hend
  | case4 saved table capacity hplan rebuilt told left hok ih =>
      rcases ih (earlier ++ told) (h.rebuild hok) with ⟨events, last, hrest, hend⟩
      refine ⟨told ++ events, last, .more hplan hok hrest, ?_⟩
      rw [← List.append_assoc]
      simpa only [Outcome.after, List.append_assoc] using hend
  | case5 saved table capacity hplan rebuilt told fault herror =>
      -- A rebuild that is refused leaves its table, so that one gives up.
      refine ⟨[], table, .done table, ?_⟩
      have hend : Ends limit key value first earlier table _ := .stuck hplan herror
      rw [(rebuild_state_of_error herror).1, h.giveUp, List.append_nil]
      simpa only [told, rebuilt, Outcome.after, List.append_assoc] using hend

/-- Every insertion is a series of rebuilds with an end. -/
theorem put_course (limit : Nat) (table : Table α) (key : UInt64) (value : α) :
    ∃ events last, Rebuilds limit key table events last ∧
      Ends limit key value table events last (table.put limit key value) :=
  putFrom_course limit key value none table table [] ⟨rfl, rfl⟩

end Table

namespace Rebuilds

variable {limit : Nat} {key : UInt64} {table last : Table α} {events : List Event}

theorem capacity_le (h : Rebuilds limit key table events last) :
    table.capacity ≤ last.capacity := by
  induction h with
  | done table => exact le_refl _
  | more hplan hok _ ih =>
      -- From the table to the plan, to the rebuilt array, to the last table.
      have hgrown := (Table.rebuild_ok hok).2.2
      have hplanned := (Table.le_of_plan_eq_rebuild hplan).1
      omega

theorem valid (h : Rebuilds limit key table events last) (hvalid : table.Valid) :
    last.Valid ∧ ∀ stored kept, last.slots.Stores stored kept ↔ table.slots.Stores stored kept := by
  induction h with
  | done table => exact ⟨hvalid, fun _ _ => Iff.rfl⟩
  | more hplan hok _ ih =>
      rcases Table.le_of_plan_eq_rebuild hplan with ⟨hle, hpow⟩
      rcases hvalid.rebuild hle (hpow hvalid.isPowerOfTwo) hok with ⟨hrebuilt, hsame⟩
      rcases ih hrebuilt with ⟨hlast, hrest⟩
      exact ⟨hlast, fun stored kept => (hrest stored kept).trans (hsame stored kept)⟩

end Rebuilds

namespace Table

variable {table : Table α} {limit : Nat} {key : UInt64} {value : α}

/-- An insertion never shrinks a table. -/
theorem capacity_le_put (limit : Nat) (table : Table α) (key : UInt64) (value : α) :
    table.capacity ≤ (table.put limit key value).state.capacity := by
  rcases put_course limit table key value with ⟨events, last, hrebuilds, hend⟩
  have hle := hrebuilds.capacity_le
  generalize table.put limit key value = outcome at hend ⊢
  cases hend with
  | overwrote hplan => rwa [capacity_overwrite]
  | occupied hplan => rwa [capacity_occupy]
  | refused hplan => exact le_refl _
  | stuck hplan herror => exact le_refl _

theorem holds_of_plan_eq_overwrite {index : Nat} (h : table.Valid)
    (hplan : table.plan key = .overwrite index) : table.slots.Holds index key := by
  have hplanned := table.planned key
  rw [hplan] at hplanned
  cases hplanned with
  | overwrite hplace => exact h.sound.locate_eq_some_iff_holds.mp (place_eq_found_iff.mp hplace)

theorem place_of_plan_eq_occupy {index : Nat} (hplan : table.plan key = .occupy index) :
    place table.slots key = .vacant index ∧ table.count < table.capacity / 2 := by
  have hplanned := table.planned key
  rw [hplan] at hplanned
  cases hplanned with
  | occupy hplace hroom => exact ⟨hplace, hroom⟩

theorem Valid.put (h : table.Valid) (limit : Nat) (key : UInt64) (value : α) :
    (table.put limit key value).state.Valid := by
  rcases put_course limit table key value with ⟨events, last, hrebuilds, hend⟩
  have hlast := (hrebuilds.valid h).1
  generalize table.put limit key value = outcome at hend ⊢
  cases hend with
  | overwrote hplan => exact hlast.overwrite (holds_of_plan_eq_overwrite hlast hplan) value
  | occupied hplan =>
      rcases place_of_plan_eq_occupy hplan with ⟨hplace, hroom⟩
      exact hlast.occupy hplace hroom value
  | refused hplan => exact h
  | stuck hplan herror => exact h

/-- An insertion that succeeds answers with what a look-up would have found, and
    changes what is stored under its key alone. -/
theorem Valid.put_ok (h : table.Valid) {previous : Option α}
    (hok : (table.put limit key value).answer = .ok previous) :
    previous = table.get key ∧
      ∀ stored kept, (table.put limit key value).state.slots.Stores stored kept ↔
        if stored = key then kept = value else table.slots.Stores stored kept := by
  rcases put_course limit table key value with ⟨events, last, hrebuilds, hend⟩
  rcases hrebuilds.valid h with ⟨hlast, hsame⟩
  generalize table.put limit key value = outcome at hok hend ⊢
  cases hend with
  | @overwrote index hplan =>
      -- The value that is replaced was stored before the rebuilds as well.
      have hholds := holds_of_plan_eq_overwrite hlast hplan
      rw [Except.ok.injEq] at hok
      refine ⟨?_, fun stored kept => ?_⟩
      · rcases hholds with ⟨held, hread⟩
        rw [← hok, hread, Slot.value?, eq_comm, h.get_eq_some_iff, ← hsame]
        exact ⟨index, hread⟩
      · rw [hlast.stores_overwrite_iff hholds, hsame]
  | occupied hplan =>
      rcases place_of_plan_eq_occupy hplan with ⟨hplace, _⟩
      rw [Except.ok.injEq] at hok
      refine ⟨?_, fun stored kept => ?_⟩
      -- The key is absent after the rebuilds, and so it was before them.
      · have hnone := hlast.get_eq_none_iff.mpr (place_eq_vacant_iff.mp hplace).1
        rw [← hok, eq_comm, Option.eq_none_iff_forall_ne_some]
        intro held hheld
        rw [h.get_eq_some_iff, ← hsame, ← hlast.get_eq_some_iff, hnone] at hheld
        exact absurd hheld (by simp only [reduceCtorEq, not_false_eq_true])
      · rw [hlast.stores_occupy_iff hplace, hsame]
  | refused hplan => exact absurd hok (by simp only [reduceCtorEq, not_false_eq_true])
  | stuck hplan herror => exact absurd hok (by simp only [reduceCtorEq, not_false_eq_true])

/-- The faults of an insertion. -/
theorem error_of_put {fault : Fault} (h : (table.put limit key value).answer = .error fault) :
    fault = .windowSaturated key ∨
      ∃ wanted, fault = .outOfMemory wanted ∨ fault = .capacityOverflow wanted := by
  rcases put_course limit table key value with ⟨events, last, _, hend⟩
  generalize table.put limit key value = outcome at h hend
  cases hend with
  | overwrote hplan => exact absurd h (by simp only [reduceCtorEq, not_false_eq_true])
  | occupied hplan => exact absurd h (by simp only [reduceCtorEq, not_false_eq_true])
  | refused hplan =>
      rw [Except.error.injEq] at h
      have hplanned := last.planned key
      rw [hplan, h] at hplanned
      cases hplanned with
      | saturated _ _ => exact Or.inl rfl
      | overflow _ _ => exact Or.inr ⟨last.capacity, Or.inr rfl⟩
  | stuck hplan herror =>
      rw [Except.error.injEq] at h
      exact Or.inr (h ▸ (rebuild_state_of_error herror).2)

end Table

/-- At the end of an insertion there is no rebuild that would succeed. -/
theorem Ends.answer_ne_ok {limit capacity : Nat} {key : UInt64} {value : α} {first last : Table α}
    {events : List Event} {outcome : Outcome (Table α) (Option α)}
    (h : Ends limit key value first events last outcome)
    (hplan : last.plan key = .rebuild capacity) (left : Layout α) :
    (last.rebuild limit capacity).answer ≠ .ok left := by
  cases h with
  | stuck hstuck herror =>
      rw [hplan, Plan.rebuild.injEq] at hstuck
      rw [hstuck, herror]
      simp only [ne_eq, reduceCtorEq, not_false_eq_true]
  | _ hother => simp only [hplan, reduceCtorEq] at hother

theorem Ends.unique {limit : Nat} {key : UInt64} {value : α} {first last : Table α}
    {events : List Event} {outcome other : Outcome (Table α) (Option α)}
    (h : Ends limit key value first events last outcome)
    (ho : Ends limit key value first events last other) : outcome = other := by
  -- The plan at the last table decides which of the four ends it is.
  cases h with
  | overwrote hplan =>
      cases ho with
      | overwrote hother =>
          rw [hplan, Plan.overwrite.injEq] at hother
          rw [hother]
      | _ hother => simp only [hplan, reduceCtorEq] at hother
  | occupied hplan =>
      cases ho with
      | occupied hother =>
          rw [hplan, Plan.occupy.injEq] at hother
          rw [hother]
      | _ hother => simp only [hplan, reduceCtorEq] at hother
  | refused hplan =>
      cases ho with
      | refused hother =>
          rw [hplan, Plan.refuse.injEq] at hother
          rw [hother]
      | _ hother => simp only [hplan, reduceCtorEq] at hother
  | stuck hplan herror =>
      cases ho with
      | stuck hother hcause =>
          rw [hplan, Plan.rebuild.injEq] at hother
          subst hother
          rw [herror, Except.error.injEq] at hcause
          rw [hcause]
      | _ hother => simp only [hplan, reduceCtorEq] at hother

/-- Rebuilds that go on until no other would succeed are the same. -/
theorem Rebuilds.unique {limit : Nat} {key : UInt64} {table last other : Table α}
    {events told : List Event} (h : Rebuilds limit key table events last)
    (ho : Rebuilds limit key table told other)
    (hlast : ∀ capacity left, last.plan key = .rebuild capacity →
      (last.rebuild limit capacity).answer ≠ .ok left)
    (hother : ∀ capacity left, other.plan key = .rebuild capacity →
      (other.rebuild limit capacity).answer ≠ .ok left) : events = told ∧ last = other := by
  induction h generalizing told with
  | done table =>
      cases ho with
      | done => exact ⟨rfl, rfl⟩
      | more hplan hok _ => exact absurd hok (hlast _ _ hplan)
  | more hplan hok _ ih =>
      cases ho with
      | done => exact absurd hok (hother _ _ hplan)
      | more hagain _ hrest =>
          -- Both begin with the rebuild that is planned.
          rw [hplan, Plan.rebuild.injEq] at hagain
          subst hagain
          rcases ih hrest hlast with ⟨hevents, htable⟩
          exact ⟨by rw [hevents], htable⟩

namespace Table

variable {table : Table α} {limit : Nat} {key : UInt64} {value : α}

/-- An insertion has one course only. -/
theorem put_eq_of_course {events : List Event} {last : Table α}
    {outcome : Outcome (Table α) (Option α)} (hrebuilds : Rebuilds limit key table events last)
    (hend : Ends limit key value table events last outcome) :
    table.put limit key value = outcome := by
  rcases put_course limit table key value with ⟨told, other, hcourse, hother⟩
  rcases hrebuilds.unique hcourse (fun _ left hplan => hend.answer_ne_ok hplan left)
    (fun _ left hplan => hother.answer_ne_ok hplan left) with ⟨rfl, rfl⟩
  exact hother.unique hend

/-- An insertion that is refused at once looks at the table and no more. -/
theorem put_eq_of_plan_eq_refuse {fault : Fault} (h : table.plan key = .refuse fault)
    (limit : Nat) (value : α) :
    table.put limit key value = ⟨table, .error fault, table.sighting key⟩ := by
  rw [put_eq_of_course (.done table) (.refused h), restoration, List.isEmpty_nil, if_pos rfl,
    List.nil_append, List.append_nil]

theorem put_eq_of_plan_eq_overwrite {index : Nat} (h : table.plan key = .overwrite index)
    (limit : Nat) (value : α) :
    table.put limit key value =
      ⟨table.overwrite index key value, .ok (table.slots.read index).value?, []⟩ :=
  put_eq_of_course (.done table) (.overwrote h)

theorem put_eq_of_plan_eq_occupy {index : Nat} (h : table.plan key = .occupy index)
    (limit : Nat) (value : α) :
    table.put limit key value = ⟨table.occupy index key value, .ok none, []⟩ :=
  put_eq_of_course (.done table) (.occupied h)

end Table

end BoundedProbing
