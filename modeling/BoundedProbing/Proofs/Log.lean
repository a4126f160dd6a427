import BoundedProbing.Proofs.Growth

/-!
# The Log of an Insertion

Every record of an insertion's log is right, and none is missing.

Three things are told: that the table was rebuilt, that the key's window is
full, and that the first layout is put back. Whether a record is right depends
on the records before it. A rebuild starts at the capacity the last one led to,
and only the first may drop tombstones or keep the capacity. So a record is
judged by what was told before it, and a log by all its records.

The log grows while the table changes, and `Tracks` ties the two together: what
was told so far leads to the present capacity, and if a rebuild was told, there
is no tombstone and room below half load. That room is why a second rebuild has
one cause only. The place that was found cannot be free, so the window is full,
and this is told just before.

## Main definitions

* `told`: The events of a history that have a line in the log.
* `capacityTold`, `rebuildTold`: What some records say so far.
* `Event.Right`: A record is right, given those before it.
* `RightLog`: So is every record of a log.
* `Tracks`: What a log has to do with the table it led to.

## Theorems

* `map_line_told`: The lines of the log are those of its records.
* `Table.Valid.count_lt_half_of_rebuild`: A rebuild makes room in the load.
* `Tracks.sighting`, `Tracks.rebuild`: Each round of an insertion keeps the
  log right.
* `Rebuilds.tracks`: And so do all of them.
* `Ends.told_eq`: How the log ends.
* `Table.put_log_right`: The log of an insertion.
-/

namespace BoundedProbing

universe u

variable {α : Type u}

/-- The events of a history that have a line in the log. -/
def told (history : List Event) : List Event :=
  history.filter fun event => event.line?.isSome

def Event.isRebuilt : Event → Bool
  | .rebuilt _ _ _ _ => true
  | _ => false

def Event.isRestored : Event → Bool
  | .restored _ _ => true
  | _ => false

/-- Whether a rebuild is among the records. -/
def rebuildTold (records : List Event) : Bool :=
  records.any Event.isRebuilt

/-- The capacity after a record, if it was this one before. -/
def Event.capacityAfter (capacity : Nat) : Event → Nat
  | .rebuilt _ _ after _ => after
  | _ => capacity

/-- The capacity that the records lead to, from this one on. -/
def capacityTold (capacity : Nat) (records : List Event) : Nat :=
  records.foldl Event.capacityAfter capacity

/-- What a record of an insertion into the first table says is right, if these
    are the records before it. A full window was seen in the very table that the
    rebuilds told before had led to. -/
def Event.Right (limit : Nat) (first : Table α) (key : UInt64) (before : List Event) :
    Event → Prop
  | .requested _ => False
  | .exhausted named capacity =>
    named = key ∧ capacity = capacityTold first.capacity before ∧
      ∃ events table, Rebuilds limit key first events table ∧ told events = before ∧
        table.capacity = capacity ∧ place table.slots key = .exhausted
  | .rebuilt entries start size dropped =>
    entries = first.count ∧ start = capacityTold first.capacity before ∧
      if rebuildTold before then
        start < size ∧ dropped = 0 ∧ before.getLast? = some (.exhausted key start)
      else start ≤ size ∧ dropped = first.tombstones
  | .restored slots _ => slots = first.capacity ∧ rebuildTold before = true

/-- Every record is right, given those before it. -/
def RightLog (limit : Nat) (first : Table α) (key : UInt64) (records : List Event) : Prop :=
  ∀ before record after, records = before ++ record :: after →
    record.Right limit first key before

theorem told_append (earlier later : List Event) :
    told (earlier ++ later) = told earlier ++ told later :=
  List.filter_append earlier later

/-- The lines of the log are those of its records, one for each. -/
theorem map_line_told (history : List Event) :
    (told history).map Event.line? = (logLines history).map some := by
  unfold told logLines
  induction history with
  | nil => rfl
  | cons event rest ih =>
      cases hline : event.line? with
      | none =>
          simp only [List.filter_cons, List.filterMap_cons, hline, Option.isSome_none,
            Bool.false_eq_true, ↓reduceIte, ih]
      | some line =>
          simp only [List.filter_cons, List.filterMap_cons, hline, Option.isSome_some, ↓reduceIte,
            List.map_cons, ih]

/-- The last record has the last line. -/
theorem getLast?_logLines {history others : List Event} {record : Event}
    (h : told history = others ++ [record]) : (logLines history).getLast? = record.line? := by
  have hlast := congrArg List.getLast? (map_line_told history)
  rw [h, List.map_append, List.map_singleton, List.getLast?_concat, List.getLast?_map] at hlast
  cases hline : (logLines history).getLast? with
  | none =>
      rw [hline] at hlast
      exact absurd hlast (by simp only [Option.map_none, reduceCtorEq, not_false_eq_true])
  | some line =>
      rw [hline, Option.map_some, Option.some.injEq] at hlast
      exact hlast.symm

theorem rebuildTold_append (earlier later : List Event) :
    rebuildTold (earlier ++ later) = (rebuildTold earlier || rebuildTold later) :=
  List.any_append

/-- No rebuild goes untold. -/
theorem rebuildTold_told (history : List Event) :
    rebuildTold (told history) = rebuildTold history := by
  unfold rebuildTold told
  rw [List.any_filter]
  refine congrArg (history.any ·) (funext fun event => ?_)
  cases event <;> rfl

theorem capacityTold_append (capacity : Nat) (earlier later : List Event) :
    capacityTold capacity (earlier ++ later) = capacityTold (capacityTold capacity earlier) later :=
  List.foldl_append

theorem told_restoration (first : Table α) (events : List Event) (fault : Fault) :
    told (restoration first events fault) = restoration first events fault := by
  unfold restoration
  cases events <;> rfl

namespace RightLog

variable {limit : Nat} {first : Table α} {key : UInt64} {records : List Event} {record : Event}

theorem nil : RightLog limit first key [] := by
  intro before record after hsplit
  exact absurd hsplit.symm (List.append_ne_nil_of_right_ne_nil _ (List.cons_ne_nil _ _))

/-- One more record at the end is judged by all the others. -/
theorem snoc (h : RightLog limit first key records) (hnext : record.Right limit first key records) :
    RightLog limit first key (records ++ [record]) := by
  intro before other after hsplit
  rcases List.eq_nil_or_concat after with rfl | ⟨between, last, rfl⟩
  · rcases List.append_inj' hsplit rfl with ⟨hbefore, hother⟩
    rw [← hbefore, ← List.head_eq_of_cons_eq hother]
    exact hnext
  · rw [List.concat_eq_append, ← List.cons_append, ← List.append_assoc] at hsplit
    exact h before other between (List.append_inj' hsplit rfl).1

end RightLog

namespace Table

variable {table : Table α} {limit capacity : Nat} {key : UInt64}

theorem sighting_eq (table : Table α) (key : UInt64) :
    table.sighting key = [] ∨ (place table.slots key = .exhausted ∧
      table.sighting key = [.exhausted key table.capacity]) := by
  unfold sighting
  split
  · next hplace => exact Or.inr ⟨hplace, rfl⟩
  · exact Or.inl rfl

theorem told_sighting (table : Table α) (key : UInt64) :
    told (table.sighting key) = table.sighting key := by
  rcases table.sighting_eq key with hnone | ⟨_, hfull⟩
  · rw [hnone]
    rfl
  · rw [hfull]
    rfl

theorem told_requested (sizes : List Nat) : told (sizes.map Event.requested) = [] := by
  refine List.filter_eq_nil_iff.mpr fun event hmem => ?_
  rcases List.mem_map.mp hmem with ⟨slots, _, rfl⟩
  exact Bool.false_ne_true

/-- A rebuild tells what it moved, from where to where, and what it left behind. -/
theorem told_rebuild {left : Layout α} (h : (table.rebuild limit capacity).answer = .ok left) :
    told (table.rebuild limit capacity).history =
      [.rebuilt table.count table.capacity (table.rebuild limit capacity).state.capacity
        table.tombstones] := by
  rcases rebuild_eq_of_ok h with ⟨_, slots, hfit, hstate⟩
  rw [hstate, rebuild_eq_of_refit_ok hfit, told_append, told_requested]
  rfl

theorem told_rebuild_of_error {fault : Fault}
    (h : (table.rebuild limit capacity).answer = .error fault) :
    told (table.rebuild limit capacity).history = [] := by
  rw [rebuild_eq_of_refit_error (rebuild_eq_of_error h).1]
  exact told_requested _

/-- Below half load a rebuild is planned for a full window only. -/
theorem sighting_of_plan_eq_rebuild (hplan : table.plan key = .rebuild capacity)
    (hload : table.count < table.capacity / 2) :
    table.sighting key = [.exhausted key table.capacity] := by
  have hplace : place table.slots key = .exhausted := by
    have hplanned := table.planned key
    rw [hplan] at hplanned
    cases hplanned with
    | refresh hplace _ _ => exact hplace
    | enlarge hgrow _ =>
        rcases hgrow with ⟨_, _, hfull⟩ | ⟨hplace, _, _⟩
        · exact absurd hload hfull
        · exact hplace
  unfold sighting
  rw [hplace]

/-- A full window is no rebuild. -/
theorem rebuildTold_sighting (records : List Event) (table : Table α) (key : UInt64) :
    rebuildTold (records ++ table.sighting key) = rebuildTold records := by
  rw [rebuildTold_append]
  rcases table.sighting_eq key with hnone | ⟨_, hfull⟩
  · rw [hnone]
    exact Bool.or_false _
  · rw [hfull]
    exact Bool.or_false _

/-- A rebuild makes room in the load. It doubles the capacity at least, or
    there were more tombstones than entries, which needs room as well. -/
theorem Valid.count_lt_half_of_rebuild (h : table.Valid) {left : Layout α}
    (hplan : table.plan key = .rebuild capacity)
    (hok : (table.rebuild limit capacity).answer = .ok left) :
    (table.rebuild limit capacity).state.count <
      (table.rebuild limit capacity).state.capacity / 2 := by
  have hhalf := h.two_mul_count_le
  have hpos : 0 < table.capacity := h.capacity_pos
  rcases rebuild_ok hok with ⟨_, hcount, hgrown⟩
  rw [hcount]
  rw [eq_nextSize_of_plan hplan] at hgrown ⊢
  rcases nextSize_eq_or table key with hdouble | ⟨hsame, hfull, hmore⟩
  · omega
  · have hload : table.count ≠ table.capacity / 2 := fun heq =>
      Nat.not_le.mpr hmore (h.tombstones_le_count hfull heq)
    omega

end Table

/-- The records so far led to this table. It has the entries of the first one,
    and it is the first one as long as no rebuild was told. Afterwards it has no
    tombstone and room in the load. -/
structure Tracks (limit : Nat) (first : Table α) (key : UInt64) (records : List Event)
    (table : Table α) : Prop where
  valid : table.Valid
  count_eq : table.count = first.count
  capacity_eq : capacityTold first.capacity records = table.capacity
  unchanged : rebuildTold records = false → table = first
  rebuilt : rebuildTold records = true →
    table.tombstones = 0 ∧ table.count < table.capacity / 2
  unrestored : ∀ record ∈ records, record.isRestored = false
  right : RightLog limit first key records

namespace Tracks

variable {first table : Table α} {key : UInt64} {records : List Event} {limit capacity : Nat}

theorem start (h : first.Valid) : Tracks limit first key [] first where
  valid := h
  count_eq := rfl
  capacity_eq := rfl
  unchanged := fun _ => rfl
  rebuilt := fun hnone => absurd hnone Bool.false_ne_true
  unrestored := fun _ hmem => absurd hmem List.not_mem_nil
  right := .nil

theorem not_exists_restored (h : Tracks limit first key records table) :
    ¬ ∃ record ∈ records, record.isRestored = true := by
  intro hsome
  rcases hsome with ⟨record, hmem, hrestored⟩
  exact absurd ((h.unrestored record hmem).symm.trans hrestored) Bool.false_ne_true

/-- A full window is told with the key and the present capacity. -/
theorem sighting {events : List Event} (h : Tracks limit first key (told events) table)
    (hcourse : Rebuilds limit key first events table) :
    Tracks limit first key (told events ++ table.sighting key) table := by
  rcases table.sighting_eq key with hnone | ⟨hplace, hfull⟩
  · rwa [hnone, List.append_nil]
  · have hright : Event.Right limit first key (told events) (.exhausted key table.capacity) :=
      ⟨rfl, h.capacity_eq.symm, events, table, hcourse, rfl, rfl, hplace⟩
    refine ⟨h.valid, h.count_eq, ?_, ?_, ?_, ?_, ?_⟩
    · rw [hfull, capacityTold_append]
      exact h.capacity_eq
    · rw [Table.rebuildTold_sighting]
      exact h.unchanged
    · rw [Table.rebuildTold_sighting]
      exact h.rebuilt
    · rw [hfull]
      intro record hmem
      rcases List.mem_append.mp hmem with hearlier | hlast
      · exact h.unrestored record hearlier
      · rw [List.mem_singleton.mp hlast]
        rfl
    · rw [hfull]
      exact h.right.snoc hright

/-- The record of a rebuild is right after the others. -/
theorem right_rebuilt (hseen : Tracks limit first key (records ++ table.sighting key) table)
    {left : Layout α} (hplan : table.plan key = .rebuild capacity)
    (hok : (table.rebuild limit capacity).answer = .ok left) :
    Event.Right limit first key (records ++ table.sighting key)
      (.rebuilt table.count table.capacity (table.rebuild limit capacity).state.capacity
        table.tombstones) := by
  have hgrown := (Table.rebuild_ok hok).2.2
  refine ⟨hseen.count_eq, hseen.capacity_eq.symm, ?_⟩
  by_cases hagain : rebuildTold (records ++ table.sighting key) = true
  · rw [if_pos hagain]
    rcases hseen.rebuilt hagain with ⟨hnone, hload⟩
    refine ⟨?_, hnone, ?_⟩
    · -- Without tombstones, the plan is to double.
      rcases Table.plan_eq_rebuild hplan with ⟨hdouble, hpos, _⟩ | ⟨_, hmore⟩
      · omega
      · omega
    · rw [Table.sighting_of_plan_eq_rebuild hplan hload, List.getLast?_concat]
  · rw [if_neg hagain]
    have hsame := hseen.unchanged (Bool.eq_false_iff.mpr hagain)
    refine ⟨?_, by rw [hsame]⟩
    have hplanned := (Table.le_of_plan_eq_rebuild hplan).1
    omega

/-- A rebuild is told, and leaves no tombstone and room in the load. -/
theorem rebuild (hseen : Tracks limit first key (records ++ table.sighting key) table)
    {left : Layout α} (hplan : table.plan key = .rebuild capacity)
    (hok : (table.rebuild limit capacity).answer = .ok left) :
    Tracks limit first key (records ++ table.sighting key ++
      told (table.rebuild limit capacity).history) (table.rebuild limit capacity).state := by
  have hright := hseen.right_rebuilt hplan hok
  rcases Table.rebuild_ok hok with ⟨hnone, hcount, _⟩
  rcases Table.le_of_plan_eq_rebuild hplan with ⟨hle, hpow⟩
  have htold : rebuildTold (records ++ table.sighting key ++
      told (table.rebuild limit capacity).history) = true := by
    rw [rebuildTold_append, Table.told_rebuild hok]
    exact Bool.or_true _
  refine ⟨(hseen.valid.rebuild hle (hpow hseen.valid.isPowerOfTwo) hok).1,
    hcount.trans hseen.count_eq,
    ?_, ?_, ?_, ?_, ?_⟩
  · rw [capacityTold_append, Table.told_rebuild hok]
    rfl
  · rw [htold]
    exact fun hfalse => absurd hfalse.symm Bool.false_ne_true
  · exact fun _ => ⟨hnone, hseen.valid.count_lt_half_of_rebuild hplan hok⟩
  · rw [Table.told_rebuild hok]
    intro record hmem
    rcases List.mem_append.mp hmem with hearlier | hlast
    · exact hseen.unrestored record hearlier
    · rw [List.mem_singleton.mp hlast]
      rfl
  · rw [Table.told_rebuild hok]
    exact hseen.right.snoc hright

end Tracks

/-- One more rebuild at the end. -/
theorem Rebuilds.concat {first table : Table α} {key : UInt64} {limit capacity : Nat}
    {events : List Event} {left : Layout α} (h : Rebuilds limit key first events table)
    (hplan : table.plan key = .rebuild capacity)
    (hok : (table.rebuild limit capacity).answer = .ok left) :
    Rebuilds limit key first
      (events ++ (table.sighting key ++ (table.rebuild limit capacity).history))
      (table.rebuild limit capacity).state := by
  induction h with
  | done table =>
      rw [List.nil_append, ← List.append_nil (table.sighting key ++ _)]
      exact .more hplan hok (.done _)
  | more hfirst hdone _ ih =>
      rw [List.append_assoc]
      exact .more hfirst hdone (ih hplan hok)

/-- The log stays right along all rebuilds of an insertion. -/
theorem Rebuilds.tracks {first table last : Table α} {key : UInt64} {limit : Nat}
    {earlier events : List Event} (h : Rebuilds limit key table events last)
    (hcourse : Rebuilds limit key first earlier table)
    (htracks : Tracks limit first key (told earlier) table) :
    Tracks limit first key (told (earlier ++ events)) last := by
  -- Each rebuild adds its events to those before it.
  induction h generalizing earlier with
  | done table => rwa [List.append_nil]
  | more hplan hok _ ih =>
      have hnext := (htracks.sighting hcourse).rebuild hplan hok
      rw [List.append_assoc, ← Table.told_sighting, ← told_append, ← told_append] at hnext
      rw [← List.append_assoc]
      exact ih (hcourse.concat hplan hok) hnext

/-- A rebuild is told unless nothing happened at all. -/
theorem Rebuilds.rebuildTold_eq {table last : Table α} {key : UInt64} {limit : Nat}
    {events : List Event} (h : Rebuilds limit key table events last) :
    rebuildTold (told events) = !events.isEmpty := by
  cases h with
  | done => rfl
  | more hplan hok _ =>
      have hsome := Table.history_rebuild_ne_nil hok
      rw [told_append, told_append, rebuildTold_append, rebuildTold_append,
        Table.told_rebuild hok]
      have hone : ∀ entries start size dropped,
          rebuildTold [.rebuilt entries start size dropped] = true := fun _ _ _ _ => rfl
      rw [hone, Bool.or_true, Bool.true_or, List.isEmpty_eq_false_iff.mpr fun hnone => hsome
        (List.append_eq_nil_iff.mp (List.append_eq_nil_iff.mp hnone).1).2, Bool.not_false]

/-- An insertion that is refused tells once more that the window is full, if it
    is, and then what it puts back. -/
theorem Ends.told_eq {limit : Nat} {key : UInt64} {value : α} {first last : Table α}
    {events : List Event} {outcome : Outcome (Table α) (Option α)}
    (h : Ends limit key value first events last outcome) :
    (∃ previous, outcome.answer = .ok previous ∧ told outcome.history = told events ∧
        outcome.state.capacity = last.capacity) ∨
      ∃ fault, outcome.answer = .error fault ∧ told outcome.history =
        told events ++ last.sighting key ++ restoration first events fault := by
  cases h with
  | overwrote hplan => exact Or.inl ⟨_, rfl, rfl, Table.capacity_overwrite _ _ _ _⟩
  | occupied hplan => exact Or.inl ⟨_, rfl, rfl, Table.capacity_occupy _ _ _ _⟩
  | refused hplan =>
      refine Or.inr ⟨_, rfl, ?_⟩
      rw [told_append, told_append, Table.told_sighting, told_restoration]
  | stuck hplan herror =>
      refine Or.inr ⟨_, rfl, ?_⟩
      rw [told_append, told_append, told_append, Table.told_sighting, told_restoration,
        Table.told_rebuild_of_error herror, List.append_nil]

namespace Table

variable {table : Table α}

/-- A log that is right up to its end. A fault ends it with the record that the
    first layout is put back, if a rebuild was told. -/
theorem Valid.told_put (h : table.Valid) (limit : Nat) (key : UInt64) (value : α) :
    ∃ records last, Tracks limit table key records last ∧
      ((∃ previous, (table.put limit key value).answer = .ok previous ∧
          told (table.put limit key value).history = records ∧
          (table.put limit key value).state.capacity = last.capacity) ∨
        ∃ fault, (table.put limit key value).answer = .error fault ∧
          told (table.put limit key value).history = records ++
            if rebuildTold records then [.restored table.capacity fault] else []) := by
  rcases put_course limit table key value with ⟨events, last, hrebuilds, hend⟩
  have htracks : Tracks limit table key (told events) last :=
    hrebuilds.tracks (.done table) (.start h)
  rcases hend.told_eq with hok | ⟨fault, herror, htold⟩
  · exact ⟨told events, last, htracks, Or.inl hok⟩
  · refine ⟨told events ++ last.sighting key, last, htracks.sighting hrebuilds,
      Or.inr ⟨fault, herror, ?_⟩⟩
    rw [htold, rebuildTold_sighting, hrebuilds.rebuildTold_eq, restoration]
    cases events <;> rfl

/-- The log of an insertion into a reachable table has one line for each record, in
    the words given here, and is right, record by record: each rebuild starts at
    the capacity that the last one led to, moves all entries and grows the table,
    but for the first, which may keep the capacity and alone drops tombstones; a
    full window is told with the key and the present capacity, and just before
    every rebuild but the first. The last rebuild led to the capacity that an
    insertion leaves. The first layout is put back exactly if a fault came after a
    rebuild. This is the last record, and the only one of its kind, and it gives
    the fault. -/
theorem put_log_right (h : table.Reachable) (limit : Nat) (key : UInt64) (value : α) :
    let outcome := table.put limit key value
    let records := told outcome.history
    (logLines outcome.history).map some = records.map Event.line? ∧
      (logLines outcome.history).map some = records.map (fun
        | .requested _ => none
        | .rebuilt entries start size dropped => some
            (s!"DEBUG rehashed {entries} entries from {start} to {size} slots, " ++
              s!"dropped {dropped} tombstones")
        | .exhausted named capacity => some
            ("TRACE probe window for key " ++ Text.hexWord named ++
              s!" exhausted at capacity {capacity}")
        | .restored slots fault => some
            (s!"DEBUG restoring {slots} slots after failed insert: " ++ fault.message)) ∧
      RightLog limit table key records ∧
      (∀ previous, outcome.answer = .ok previous →
        outcome.state.capacity = capacityTold table.capacity records) ∧
      ((∃ record ∈ records, record.isRestored = true) ↔
        (∃ fault, outcome.answer = .error fault) ∧ rebuildTold records = true) ∧
      ∀ fault, outcome.answer = .error fault → rebuildTold records = true →
        (∃ others, records = others ++ [.restored table.capacity fault] ∧
          ∀ record ∈ others, record.isRestored = false) ∧
        (logLines outcome.history).getLast? = some
          (s!"DEBUG restoring {table.capacity} slots after failed insert: " ++ fault.message) := by
  intro outcome records
  have hlines : (logLines outcome.history).map some = records.map Event.line? :=
    (map_line_told outcome.history).symm
  refine ⟨hlines, hlines.trans (List.map_congr_left fun record _ => ?_), ?_⟩
  · cases record <;> rfl
  rcases h.valid.told_put limit key value with ⟨others, last, htracks, hend⟩
  rcases hend with ⟨previous, hok, htold, hcapacity⟩ | ⟨fault, herror, htold⟩
  · have hrecords : records = others := htold
    rw [hrecords]
    refine ⟨htracks.right, fun _ _ => hcapacity.trans htracks.capacity_eq.symm,
      ⟨fun hsome => absurd hsome htracks.not_exists_restored, fun hboth => ?_⟩, ?_⟩
    · rcases hboth.1 with ⟨fault, herror⟩
      exact absurd (hok.symm.trans herror) (by simp only [reduceCtorEq, not_false_eq_true])
    · intro fault herror
      exact absurd (hok.symm.trans herror) (by simp only [reduceCtorEq, not_false_eq_true])
  · by_cases hrebuilt : rebuildTold others = true
    · have hrecords : records = others ++ [.restored table.capacity fault] :=
        htold.trans (by rw [if_pos hrebuilt])
      have hagain : rebuildTold records = true := by
        rw [hrecords, rebuildTold_append, hrebuilt, Bool.true_or]
      have hright : Event.Right limit table key others (.restored table.capacity fault) :=
        ⟨rfl, hrebuilt⟩
      refine ⟨hrecords ▸ htracks.right.snoc hright, fun previous hok => ?_,
        ⟨fun _ => ⟨⟨fault, herror⟩, hagain⟩, fun _ => ?_⟩, fun other hother _ => ?_⟩
      · exact absurd (herror.symm.trans hok) (by simp only [reduceCtorEq, not_false_eq_true])
      · exact ⟨.restored table.capacity fault,
          hrecords ▸ List.mem_append_right _ (List.mem_singleton_self _), rfl⟩
      · have hfault : fault = other := Except.error.inj (herror.symm.trans hother)
        rw [← hfault]
        exact ⟨⟨others, hrecords, htracks.unrestored⟩, getLast?_logLines hrecords⟩
    · -- Without a rebuild there is nothing to put back.
      have hrecords : records = others :=
        htold.trans (by rw [if_neg hrebuilt, List.append_nil])
      rw [hrecords]
      refine ⟨htracks.right, fun previous hok => ?_,
        ⟨fun hsome => absurd hsome htracks.not_exists_restored,
          fun hboth => absurd hboth.2 hrebuilt⟩,
        fun _ _ hagain => absurd hagain hrebuilt⟩
      exact absurd (herror.symm.trans hok) (by simp only [reduceCtorEq, not_false_eq_true])

/-- A table of more tombstones than entries is rebuilt at its own size, then
    doubled, and the key's window is full each time. The next doubling is
    refused, and the first layout put back. -/
theorem put_log_right_refreshed :
    let passing : List UInt64 := [41, 26, 86, 14, 7, 4, 72, 11, 30, 31]
    let crowding : List UInt64 := [0, 121, 242, 377, 387, 447, 529, 1229]
    let crowded := ((blank 32 : Table Nat).run (passing.map (.put 32 · 0) ++
      .put 32 37 0 :: passing.map .remove ++ crowding.map (.put 32 · 1))).1
    let outcome := crowded.put 64 1274 2
    crowded.Reachable ∧ outcome.answer = .error (.outOfMemory 128) ∧
      told outcome.history = [.exhausted 1274 32, .rebuilt 9 32 32 10, .exhausted 1274 32,
        .rebuilt 9 32 64 0, .exhausted 1274 64, .restored 32 (.outOfMemory 128)] ∧
      logLines outcome.history =
        ["TRACE probe window for key 0x00000000000004fa exhausted at capacity 32",
          "DEBUG rehashed 9 entries from 32 to 32 slots, dropped 10 tombstones",
          "TRACE probe window for key 0x00000000000004fa exhausted at capacity 32",
          "DEBUG rehashed 9 entries from 32 to 64 slots, dropped 0 tombstones",
          "TRACE probe window for key 0x00000000000004fa exhausted at capacity 64",
          "DEBUG restoring 32 slots after failed insert: failed to allocate a table of 128 slots"] ∧
      RightLog 64 crowded 1274 (told outcome.history) ∧
      (logLines outcome.history).getLast? =
        some (s!"DEBUG restoring {crowded.capacity} slots after failed insert: " ++
          (Fault.outOfMemory 128).message) := by
  intro passing crowding crowded outcome
  have hmade : withCapacity 32 32 = .ok (blank 32 : Table Nat) := rfl
  have hreach : crowded.Reachable := Reachable.run (.made hmade) _
  have hanswer : outcome.answer = .error (.outOfMemory 128) := by decide +kernel
  have htold : told outcome.history = [.exhausted 1274 32, .rebuilt 9 32 32 10,
      .exhausted 1274 32, .rebuilt 9 32 64 0, .exhausted 1274 64,
      .restored 32 (.outOfMemory 128)] := by
    decide +kernel
  rcases put_log_right hreach 64 1274 2 with ⟨_, hwords, hright, _, _, hlast⟩
  rw [htold] at hwords
  refine ⟨hreach, hanswer, htold, ?_, hright, (hlast _ hanswer (by rw [htold]; rfl)).2⟩
  refine (List.map_inj_right fun _ _ => Option.some.inj).mp (hwords.trans ?_)
  decide +kernel

end Table

end BoundedProbing
