import BoundedProbing.Proofs.Agreement

/-!
# The Shortcut of a Removal

A removal without its shortcut, and why nobody can tell the difference.

A removed entry leaves a tombstone, unless the next slot is empty: then its own
slot becomes empty as well. The plain removal of this module knows no such
exception. Run side by side, a table and its plain companion drift apart. The
plain one collects tombstones where the other has none, its searches go on
where those of the other give up, and its count of tombstones is larger.

But they never differ in more than that. `Table.Trims` says that the two hold
the same entries in the same slots, and that a free slot in which they differ
is a tombstone of the plain table and empty in the other. Both tables are valid,
so a search finds the same entry or the same free slot in both. Entries decide
where a rebuild puts them, so two tables that are rebuilt become one and the
same. If the rebuild is refused, each is what it was.

Only one decision looks at the number of tombstones. An insertion that meets a
full window rebuilds at the same capacity if there are more of them than there
are entries. So the two tables may part there, and the runs compared here come
to no such insertion. It is enough to ask this of its first look at the table.
If the first look calls for a rebuild, no difference is left for a later one.

## Main definitions

* `Table.bury`, `Table.removePlain`: Removal without the shortcut.
* `Table.performPlain`, `Table.runPlain`: Operations with such a removal.
* `Table.MeetsFullWindow`, `Table.NeverFull`: A new key finds its window full,
  and a run in which none does.
* `Table.Trims`: The same entries, and no more tombstones.

## Theorems

* `Table.Trims.put`, `Table.Trims.remove`: What the two operations preserve that
  depend on free slots.
* `Table.Trims.perform`, `Table.Trims.run`: One operation, and all of a run.
* `Table.runPlain_trims`: The shortcut cannot be seen from outside.
-/

namespace BoundedProbing

universe u

variable {α : Type u}

namespace Table

/-- Frees the slot with this index by a tombstone, whatever comes after it. -/
def bury (table : Table α) (index : Nat) : Table α :=
  ⟨⟨table.slots.write index .tombstone, table.tombstones + 1⟩, table.count - 1⟩

/-- Removes the entry under a key, always by a tombstone. -/
def removePlain (table : Table α) (key : UInt64) : Table α × Option α :=
  match locate table.slots key with
  | none => (table, none)
  | some index => (table.bury index, (table.slots.read index).value?)

/-- One operation of a table without the shortcut. -/
def performPlain (table : Table α) : Op α → Table α × Reply α
  | .remove key => ((table.removePlain key).1, .found (table.removePlain key).2)
  | op => table.perform op

/-- Operations one after the other, without the shortcut. -/
def runPlain (table : Table α) : List (Op α) → Table α × List (Reply α)
  | [] => (table, [])
  | op :: rest =>
    (((table.performPlain op).1.runPlain rest).1,
      (table.performPlain op).2 :: ((table.performPlain op).1.runPlain rest).2)

/-- The operation puts a key that is not stored, and entries take every place of
    its window. -/
def MeetsFullWindow (table : Table α) : Op α → Prop
  | .put _ key _ => table.get key = none ∧ table.slots.WindowFull key
  | _ => False

instance (table : Table α) : (op : Op α) → Decidable (table.MeetsFullWindow op)
  | .put _ key _ => inferInstanceAs (Decidable (table.get key = none ∧ table.slots.WindowFull key))
  | .get _ | .contains _ | .remove _ | .clear | .length | .copy => isFalse id

/-- No insertion of the run meets a full window. -/
def NeverFull (table : Table α) : List (Op α) → Prop
  | [] => True
  | op :: rest => ¬ table.MeetsFullWindow op ∧ (table.perform op).1.NeverFull rest

instance NeverFull.decidable : (table : Table α) → (ops : List (Op α)) →
    Decidable (table.NeverFull ops)
  | _, [] => isTrue trivial
  | table, op :: rest =>
    have := NeverFull.decidable (table.perform op).1 rest
    inferInstanceAs (Decidable (¬ table.MeetsFullWindow op ∧ (table.perform op).1.NeverFull rest))

/-- The tables are of one size and hold the same entries in the same slots. A
    slot in which they differ is empty in the first and a tombstone of the
    second. -/
structure Trims (table plain : Table α) : Prop where
  size_eq : table.slots.size = plain.slots.size
  count_eq : table.count = plain.count
  read_eq_or : ∀ index, table.slots.read index = plain.slots.read index ∨
    (plain.slots.read index = .tombstone ∧ table.slots.read index = .empty)

variable {table plain : Table α} {limit index : Nat} {key : UInt64} {value : α}

theorem Valid.removePlain (h : table.Valid) (key : UInt64) : (table.removePlain key).1.Valid := by
  unfold Table.removePlain
  cases hlocate : locate table.slots key with
  | none => exact h
  | some index =>
      have hholds := h.sound.locate_eq_some_iff_holds.mp hlocate
      exact h.free hholds rfl fun hempty => absurd hempty (by simp only [reduceCtorEq,
        not_false_eq_true])

theorem Valid.performPlain (h : table.Valid) (op : Op α) : (table.performPlain op).1.Valid := by
  cases op with
  | remove key => exact h.removePlain key
  | put limit key value => exact h.put limit key value
  | clear => exact h.clear
  | get key => exact h
  | contains key => exact h
  | length => exact h
  | copy => exact h

theorem Valid.place_eq_exhausted_iff (h : table.Valid) :
    place table.slots key = .exhausted ↔ table.get key = none ∧ table.slots.WindowFull key := by
  rw [h.get_eq_none_iff]
  constructor
  · intro hplace
    have hnone := (BoundedProbing.place_eq_exhausted_iff.mp hplace).1
    exact ⟨hnone, (place_eq_exhausted_iff_windowFull hnone).mp hplace⟩
  · exact fun hboth => (place_eq_exhausted_iff_windowFull hboth.1).mpr hboth.2

namespace Trims

theorem refl (table : Table α) : table.Trims table :=
  ⟨rfl, rfl, fun _ => Or.inl rfl⟩

theorem sameEntries (h : table.Trims plain) : table.slots.SameEntries plain.slots := by
  refine ⟨h.size_eq, fun index key value => ?_⟩
  rcases h.read_eq_or index with heq | ⟨htomb, hempty⟩
  · rw [heq]
  · rw [htomb, hempty]
    simp only [reduceCtorEq]

theorem locate_eq (h : table.Trims plain) (ht : table.Valid) (hp : plain.Valid) (key : UInt64) :
    locate table.slots key = locate plain.slots key :=
  h.sameEntries.locate_eq ht.sound hp.sound key

theorem get_eq (h : table.Trims plain) (ht : table.Valid) (hp : plain.Valid) (key : UInt64) :
    table.get key = plain.get key := by
  ext value
  rw [ht.get_eq_some_iff, hp.get_eq_some_iff]
  simp only [Slots.Stores, h.sameEntries.read_iff]

/-- Two writes to one slot, of the same slot or of an empty one beside a
    tombstone. -/
theorem write (h : table.Trims plain) {slot other : Slot α} (hi : index < table.slots.size)
    (hslot : slot = other ∨ (other = .tombstone ∧ slot = .empty)) (left right count : Nat) :
    Trims ⟨⟨table.slots.write index slot, left⟩, count⟩
      ⟨⟨plain.slots.write index other, right⟩, count⟩ := by
  refine ⟨?_, rfl, fun place => ?_⟩
  · rw [Slots.size_write, Slots.size_write, h.size_eq]
  · rw [Slots.read_write _ _ _ _ hi, Slots.read_write _ _ _ _ (h.size_eq ▸ hi)]
    by_cases hat : place = index
    · rw [if_pos hat, if_pos hat]
      exact hslot
    · rw [if_neg hat, if_neg hat]
      exact h.read_eq_or place

/-- Without a full window, no plan looks at the number of tombstones. -/
theorem plan_eq (h : table.Trims plain) (ht : table.Valid) (hp : plain.Valid)
    (hroom : place table.slots key ≠ .exhausted) : plain.plan key = table.plan key := by
  have hplace := h.sameEntries.place_eq_of_sound ht.sound hp.sound key
  have hcapacity : table.capacity = plain.capacity := h.size_eq
  unfold plan
  rw [← hplace, ← h.count_eq, ← hcapacity]
  cases hcase : place table.slots key with
  | found index => rfl
  | vacant index => rfl
  | exhausted => exact absurd hcase hroom

/-- A rebuild makes the two tables one, or is refused for the same reason. -/
theorem rebuild (h : table.Trims plain) (limit capacity : Nat) :
    ((∃ left other, (table.rebuild limit capacity).answer = .ok left ∧
        (plain.rebuild limit capacity).answer = .ok other) ∧
      (plain.rebuild limit capacity).state = (table.rebuild limit capacity).state) ∨
      ∃ fault, (table.rebuild limit capacity).answer = .error fault ∧
        (plain.rebuild limit capacity).answer = .error fault := by
  -- The entries are all that a rebuild looks at.
  cases hfit : (refit limit table.slots.entries capacity).2 with
  | ok slots =>
      have hplain := h.sameEntries.entries_eq ▸ hfit
      rw [rebuild_eq_of_refit_ok hfit, rebuild_eq_of_refit_ok hplain, h.count_eq]
      exact Or.inl ⟨⟨_, _, rfl, rfl⟩, rfl⟩
  | error fault =>
      have hplain := h.sameEntries.entries_eq ▸ hfit
      rw [rebuild_eq_of_refit_error hfit, rebuild_eq_of_refit_error hplain]
      exact Or.inr ⟨fault, rfl, rfl⟩

/-- An insertion without a rebuild. -/
theorem put_at_once (h : table.Trims plain) (ht : table.Valid) (hp : plain.Valid)
    (hroom : place table.slots key ≠ .exhausted) {outcome : Outcome (Table α) (Option α)}
    (hend : Ends limit key value table [] table outcome) :
    (plain.put limit key value).answer = outcome.answer ∧
      outcome.state.Trims (plain.put limit key value).state := by
  have hsame := h.plan_eq ht hp hroom
  cases hend with
  | @overwrote index hplan =>
      have hholds := holds_of_plan_eq_overwrite ht hplan
      rw [put_eq_of_plan_eq_overwrite (hsame.trans hplan)]
      refine ⟨?_, ?_⟩
      · rcases hholds with ⟨held, hread⟩
        rw [hread, (h.sameEntries.read_iff index key held).mp hread]
      · rw [overwrite_eq, overwrite_eq, ← h.count_eq]
        exact h.write hholds.lt (Or.inl rfl) _ _ _
  | @occupied index hplan =>
      have hi := Slots.lt_of_vacant ht.capacity_pos (place_of_plan_eq_occupy hplan).1
      rw [put_eq_of_plan_eq_occupy (hsame.trans hplan), occupy_eq, occupy_eq, ← h.count_eq]
      exact ⟨rfl, h.write hi (Or.inl rfl) _ _ _⟩
  | refused hplan =>
      rw [put_eq_of_plan_eq_refuse (hsame.trans hplan)]
      exact ⟨rfl, h⟩
  | @stuck capacity fault hplan herror =>
      rcases h.rebuild limit capacity with ⟨⟨_, _, hok, _⟩, _⟩ | ⟨cause, hcause, hplain⟩
      · exact absurd (herror.symm.trans hok) (by simp only [reduceCtorEq, not_false_eq_true])
      · rw [herror, Except.error.injEq] at hcause
        rw [put_eq_of_course (.done plain) (.stuck (hsame.trans hplan) hplain), hcause]
        exact ⟨rfl, h⟩

/-- Two insertions that were rebuilt into one table end there alike, or put back
    the tables they started from. -/
theorem put_after_rebuilds (h : table.Trims plain) {last : Table α} {told events : List Event}
    {outcome : Outcome (Table α) (Option α)} (hend : Ends limit key value table told last outcome)
    (hplain : Rebuilds limit key plain events last) :
    (plain.put limit key value).answer = outcome.answer ∧
      outcome.state.Trims (plain.put limit key value).state := by
  cases hend with
  | overwrote hplan =>
      rw [put_eq_of_course hplain (.overwrote hplan)]
      exact ⟨rfl, refl _⟩
  | occupied hplan =>
      rw [put_eq_of_course hplain (.occupied hplan)]
      exact ⟨rfl, refl _⟩
  | refused hplan =>
      rw [put_eq_of_course hplain (.refused hplan)]
      exact ⟨rfl, h⟩
  | stuck hplan herror =>
      rw [put_eq_of_course hplain (.stuck hplan herror)]
      exact ⟨rfl, h⟩

/-- An insertion gives the same answer, and the tables stay as close. -/
theorem put (h : table.Trims plain) (ht : table.Valid) (hp : plain.Valid)
    (hroom : place table.slots key ≠ .exhausted) (limit : Nat) (value : α) :
    (plain.put limit key value).answer = (table.put limit key value).answer ∧
      (table.put limit key value).state.Trims (plain.put limit key value).state := by
  rcases put_course limit table key value with ⟨events, last, hrebuilds, hend⟩
  generalize table.put limit key value = outcome at hend ⊢
  cases hrebuilds with
  | done => exact h.put_at_once ht hp hroom hend
  | @more _ _ capacity left _ hplan hok hrest =>
      rcases h.rebuild limit capacity with ⟨⟨_, other, _, hplain⟩, hstate⟩ | ⟨_, herror, _⟩
      · -- From the first rebuild on, the two insertions are one.
        rw [← hstate] at hrest
        exact h.put_after_rebuilds hend
          (.more ((h.plan_eq ht hp hroom).trans hplan) hplain hrest)
      · exact absurd (hok.symm.trans herror) (by simp only [reduceCtorEq, not_false_eq_true])

/-- A removal gives the same answer. It may empty a slot in the first table that
    becomes a tombstone of the second. -/
theorem remove (h : table.Trims plain) (ht : table.Valid) (hp : plain.Valid) (key : UInt64) :
    (plain.removePlain key).2 = (table.remove key).2 ∧
      (table.remove key).1.Trims (plain.removePlain key).1 := by
  unfold Table.removePlain
  rw [← h.locate_eq ht hp key]
  rcases ht.remove_eq key with ⟨heq, hnone⟩ | ⟨index, value, heq, hread⟩
  · rw [heq, ht.get_eq_none_iff.mp hnone]
    exact ⟨rfl, h⟩
  · have hholds : table.slots.Holds index key := ⟨value, hread⟩
    rw [heq, ht.sound.locate_eq_some_iff_holds.mpr hholds]
    refine ⟨?_, ?_⟩
    · simp only [(h.sameEntries.read_iff index key value).mp hread, Slot.value?]
    · rcases vacate_eq table index with ⟨slot, hfree, _, hvacate⟩
      rw [hvacate, h.count_eq]
      refine h.write hholds.lt ?_ _ _ _
      cases slot with
      | empty => exact Or.inr ⟨rfl, rfl⟩
      | tombstone => exact Or.inl rfl
      | entry stored kept => exact absurd hfree (by simp only [Slot.isEntry, reduceCtorEq,
          not_false_eq_true])

/-- One operation of both tables. -/
theorem perform (h : table.Trims plain) (ht : table.Valid) (hp : plain.Valid) {op : Op α}
    (hop : ¬ table.MeetsFullWindow op) :
    (plain.performPlain op).2 = (table.perform op).2 ∧
      (table.perform op).1.Trims (plain.performPlain op).1 := by
  cases op with
  | put limit key value =>
      have hroom : place table.slots key ≠ .exhausted :=
        fun hplace => hop (ht.place_eq_exhausted_iff.mp hplace)
      rcases h.put ht hp hroom limit value with ⟨hanswer, htrims⟩
      exact ⟨congrArg Reply.stored hanswer, htrims⟩
  | remove key =>
      rcases h.remove ht hp key with ⟨hanswer, htrims⟩
      exact ⟨congrArg Reply.found hanswer, htrims⟩
  | get key => exact ⟨congrArg Reply.found (h.get_eq ht hp key).symm, h⟩
  | contains key =>
      refine ⟨congrArg Reply.verdict ?_, h⟩
      rw [Table.contains, Table.contains, h.locate_eq ht hp]
  | clear =>
      refine ⟨rfl, ?_⟩
      have hcapacity : table.capacity = plain.capacity := h.size_eq
      change table.clear.Trims plain.clear
      rw [Table.clear, Table.clear, hcapacity]
      exact refl _
  | length => exact ⟨congrArg Reply.size h.count_eq.symm, h⟩
  | copy => exact ⟨rfl, h⟩

/-- Operations one after the other. -/
theorem run (h : table.Trims plain) (ht : table.Valid) (hp : plain.Valid) {ops : List (Op α)}
    (hops : table.NeverFull ops) :
    (plain.runPlain ops).2 = (table.run ops).2 ∧
      (table.run ops).1.Trims (plain.runPlain ops).1 := by
  -- Both tables stay valid, and stay this close, from operation to operation.
  induction ops generalizing table plain with
  | nil => exact ⟨rfl, h⟩
  | cons op rest ih =>
      rcases hops with ⟨hop, hrest⟩
      rcases h.perform ht hp hop with ⟨hreply, hnext⟩
      rcases ih hnext (ht.perform op) (hp.performPlain op) hrest with ⟨hreplies, hlast⟩
      refine ⟨?_, hlast⟩
      rw [runPlain, Table.run, hreply, hreplies]

end Trims

/-- The shortcut of a removal cannot be seen from outside. As long as no new key
    meets a full window, a table and one without the shortcut give the same
    answers, have the same capacity and hold the same entries in the same slots.
    What is empty without the shortcut is empty with it, and where they differ,
    the one without has a tombstone and the other an empty slot. -/
theorem runPlain_trims {wanted : Nat} (h : withCapacity limit wanted = .ok table)
    {ops : List (Op α)} (hops : table.NeverFull ops) :
    (table.run ops).2 = (table.runPlain ops).2 ∧
      let real := (table.run ops).1
      let plain := (table.runPlain ops).1
      real.capacity = plain.capacity ∧ real.count = plain.count ∧
        (∀ index key value,
          real.slots.read index = .entry key value ↔ plain.slots.read index = .entry key value) ∧
        (∀ index, plain.slots.read index = .empty → real.slots.read index = .empty) ∧
        ∀ index, real.slots.read index ≠ plain.slots.read index →
          plain.slots.read index = .tombstone ∧ real.slots.read index = .empty := by
  have hvalid := valid_of_withCapacity h
  rcases (Trims.refl table).run hvalid hvalid hops with ⟨hreplies, htrims⟩
  refine ⟨hreplies.symm, htrims.size_eq, htrims.count_eq, htrims.sameEntries.read_iff, ?_, ?_⟩
  · intro index hempty
    rcases htrims.read_eq_or index with heq | ⟨_, hreal⟩
    · rw [heq, hempty]
    · exact hreal
  · intro index hne
    rcases htrims.read_eq_or index with heq | hdrift
    · exact absurd heq hne
    · exact hdrift

/-- Keys that went around the end of eight slots, removals that empty their
    slots, and one doubling that is refused at half load. After the last removal
    the tables differ in one slot. -/
theorem runPlain_trims_refused :
    let ops : List (Op Nat) := [.put 8 1 10, .put 8 2 20, .put 8 4 40, .remove 4, .remove 2,
      .put 8 0 0, .put 8 20 200, .put 8 3 30, .put 8 6 60, .remove 3, .get 27]
    let real := ((blank 8 : Table Nat).run ops).1
    let plain := ((blank 8 : Table Nat).runPlain ops).1
    withCapacity 8 8 = .ok (blank 8 : Table Nat) ∧ (blank 8 : Table Nat).NeverFull ops ∧
      Reply.stored (.error (.outOfMemory 16)) ∈ ((blank 8 : Table Nat).run ops).2 ∧
      ((blank 8 : Table Nat).run ops).2 = ((blank 8 : Table Nat).runPlain ops).2 ∧
      real.slots.read 2 = .empty ∧ plain.slots.read 2 = .tombstone ∧
      real.capacity = plain.capacity ∧ ∀ index key value,
        real.slots.read index = .entry key value ↔ plain.slots.read index = .entry key value := by
  intro ops real plain
  have hmade : withCapacity 8 8 = .ok (blank 8 : Table Nat) := rfl
  have hroom : (blank 8 : Table Nat).NeverFull ops := by decide +kernel
  rcases runPlain_trims hmade hroom with ⟨hreplies, hcapacity, _, hentries, _⟩
  exact ⟨hmade, hroom, by decide +kernel, hreplies, by decide +kernel, by decide +kernel,
    hcapacity, hentries⟩

-- A full window tells the tables apart: nine tombstones against eight entries
-- call for a rebuild at the same capacity, no tombstone calls for a larger one.
example :
    let passing : List UInt64 := [4, 5, 7, 8, 9, 11, 12, 13, 14]
    let crowding : List UInt64 := [0, 40, 51, 99, 121, 144, 149, 209]
    let ops := passing.flatMap (fun key => [.put 32 key 0, .remove key]) ++
      crowding.map (.put 32 · 1)
    (((blank 32 : Table Nat).run ops).1.put 16 242 2).answer = .error (.outOfMemory 64) ∧
      (((blank 32 : Table Nat).runPlain ops).1.put 16 242 2).answer =
        .error (.outOfMemory 32) := by
  decide +kernel

end Table

end BoundedProbing
