import BoundedProbing.Proofs.Requests

/-!
# Growth

When a new key makes a table grow, and by how much.

Three things bear on a new key: the load, the places of its window, and the
tombstones against the entries. While there is room, in the load and in the
window, none of the rest matters. The key takes the nearest free place, an
empty one or a tombstone, and nothing else happens. Without room the table is
rebuilt, and then it has no tombstone left.

A rebuild doubles the capacity at least, with one exception: a full window in a
table of more tombstones than entries is first tried at the same capacity. That
exception never meets the other reason to grow. A full window lies in a table
of more than eight slots, and at half load as many slots are entries as are
not, so tombstones cannot be more than entries.

## Main definitions

* `Slots.WindowFull`: Every place of a key's window is taken.
* `Table.HasRoom`: There is room for a new key.
* `Table.TakesNearest`: An insertion that fills the nearest free place.

## Theorems

* `Table.Valid.exists_vacant`: A key whose window is not full finds a place.
* `Table.Valid.takesNearest_of_hasRoom`: What happens while there is room.
* `Rebuilds.eq_or`: What any number of rebuilds leaves behind.
* `Table.Valid.rebuilt_of_not_hasRoom`: What happens without room.
* `Table.Valid.probeLimit_lt_capacity`: A full window lies in a larger table.
* `Table.Valid.tombstones_le_count`: The two reasons to grow do not conflict.
* `Table.put_growth`: The policy as a whole.
-/

namespace BoundedProbing

universe u

variable {α : Type u}

namespace Slots

variable {slots : Slots α} {key : UInt64}

/-- Every place of the key's window is taken. -/
def WindowFull (slots : Slots α) (key : UInt64) : Prop :=
  ∀ index ∈ windowOf slots key, (slots.read index).isEntry = true

instance (slots : Slots α) (key : UInt64) : Decidable (slots.WindowFull key) :=
  inferInstanceAs (Decidable (∀ index ∈ windowOf slots key, (slots.read index).isEntry = true))

theorem find?_windowOf_eq_none_iff :
    ((windowOf slots key).find? fun index => !(slots.read index).isEntry) = none ↔
      slots.WindowFull key := by
  unfold WindowFull
  simp only [List.find?_eq_none, Bool.not_eq_true', Bool.not_eq_false]

theorem countP_isEntry_add_countP_isTombstone_le (slots : Slots α) :
    slots.countP Slot.isEntry + slots.countP Slot.isTombstone ≤ slots.size := by
  rw [← Array.countP_toList, ← Array.countP_toList, ← Array.length_toList,
    List.length_eq_countP_add_countP Slot.isEntry]
  -- A tombstone is one of the slots that are no entries.
  refine Nat.add_le_add_left (List.countP_mono_left fun slot _ htomb => ?_) _
  cases slot with
  | tombstone => rfl
  | empty => exact absurd htomb Bool.false_ne_true
  | entry key value => exact absurd htomb Bool.false_ne_true

/-- In an array no larger than a window, every slot is in every window. -/
theorem mem_windowOf_of_size_le (hsize : slots.size ≤ probeLimit) {index : Nat}
    (hi : index < slots.size) : index ∈ windowOf slots key := by
  have hhome : home key slots.size < slots.size := home_lt key (by omega)
  have hlt := distanceFrom_lt (by omega : 0 < slots.size) (home key slots.size) index
  refine List.mem_map.mpr ⟨_, List.mem_range.mpr (Nat.lt_of_lt_of_le hlt hsize), ?_⟩
  exact ahead_distanceFrom hhome hi

end Slots

namespace Table

variable {table : Table α} {limit : Nat} {key : UInt64} {value : α}

/-- Fewer than half of the slots are taken, and a place of the key's window is
    free. -/
def HasRoom (table : Table α) (key : UInt64) : Prop :=
  table.count < table.capacity / 2 ∧ ¬ table.slots.WindowFull key

/-- The key takes the nearest place of its window that no entry takes, this one.
    Nothing is asked for, nothing is told and no other slot changes. A tombstone
    is one less if it is the one that was written over. -/
structure TakesNearest (table : Table α) (key : UInt64) (value : α) (index : Nat)
    (outcome : Outcome (Table α) (Option α)) : Prop where
  nearest : ((windowOf table.slots key).find? fun place =>
    !(table.slots.read place).isEntry) = some index
  answer : outcome.answer = .ok none
  history : outcome.history = []
  capacity : outcome.state.capacity = table.capacity
  count : outcome.state.count = table.count + 1
  slots : ∀ other, outcome.state.slots.read other =
    if other = index then .entry key value else table.slots.read other
  tombstones : outcome.state.tombstones +
    (if (table.slots.read index).isTombstone then 1 else 0) = table.tombstones

theorem place_eq_vacant_of_find? {index : Nat} (hnone : locate table.slots key = none)
    (hfind : ((windowOf table.slots key).find? fun place =>
      !(table.slots.read place).isEntry) = some index) :
    place table.slots key = .vacant index := by
  have hfree : firstFree table.slots (home key table.slots.size) offsets = some index := hfind
  rw [place_eq_locate, hnone, hfree]

/-- A new key whose window is not full has a nearest free place. -/
theorem Valid.exists_vacant (h : table.Valid) (habsent : table.get key = none)
    (hwindow : ¬ table.slots.WindowFull key) :
    ∃ index, ((windowOf table.slots key).find? fun place =>
        !(table.slots.read place).isEntry) = some index ∧
      place table.slots key = .vacant index := by
  cases hfind : (windowOf table.slots key).find? fun place => !(table.slots.read place).isEntry with
  | none => exact absurd (Slots.find?_windowOf_eq_none_iff.mp hfind) hwindow
  | some index => exact ⟨index, rfl, place_eq_vacant_of_find? (h.get_eq_none_iff.mp habsent) hfind⟩

/-- While there is room, the key takes the nearest free place. -/
theorem Valid.takesNearest_of_hasRoom (h : table.Valid) (habsent : table.get key = none)
    (hroom : table.HasRoom key) (value : α) :
    ∃ index, ∀ limit, table.TakesNearest key value index (table.put limit key value) := by
  rcases hroom with ⟨hload, hwindow⟩
  rcases h.exists_vacant habsent hwindow with ⟨index, hfind, hplace⟩
  have hplan : table.plan key = .occupy index := by
    unfold plan
    simp only [hplace, if_pos hload]
  have hi := Slots.lt_of_vacant h.capacity_pos hplace
  refine ⟨index, fun limit => ?_⟩
  rw [put_eq_of_plan_eq_occupy hplan]
  refine ⟨hfind, rfl, rfl, capacity_occupy table index key value, rfl,
    fun other => Slots.read_write table.slots index other (.entry key value) hi, ?_⟩
  -- The counts of valid tables are those of their slots, before and after.
  rw [(h.occupy hplace hload value).tombstones_eq, h.tombstones_eq]
  exact Slots.countP_isTombstone_write_entry hi key value

theorem hasRoom_of_plan_eq_occupy {index : Nat} (hplan : table.plan key = .occupy index) :
    table.HasRoom key := by
  rcases place_of_plan_eq_occupy hplan with ⟨hplace, hload⟩
  rcases (place_eq_vacant_iff.mp hplace).2 with ⟨distance, hlt, rfl, hfree, _⟩
  refine ⟨hload, fun hfull => ?_⟩
  rw [hfull _ (List.mem_map.mpr ⟨distance, List.mem_range.mpr hlt, rfl⟩)] at hfree
  exact absurd hfree.symm Bool.false_ne_true

theorem rebuilt_mem_history {capacity : Nat} {left : Layout α}
    (h : (table.rebuild limit capacity).answer = .ok left) :
    ∃ after, Event.rebuilt table.count table.capacity after table.tombstones ∈
      (table.rebuild limit capacity).history := by
  rcases rebuild_eq_of_ok h with ⟨_, slots, hfit, _⟩
  rw [rebuild_eq_of_refit_ok hfit]
  exact ⟨slots.size, List.mem_append_right _ List.mem_cons_self⟩

end Table

/-- Either there was no rebuild, or there is no tombstone left, a rebuild of all
    entries is told, and the capacity is at least the one planned first. -/
theorem Rebuilds.eq_or {limit : Nat} {key : UInt64} {table last : Table α} {events : List Event}
    (h : Rebuilds limit key table events last) :
    last = table ∨ (last.tombstones = 0 ∧
      (∃ before after dropped, Event.rebuilt table.count before after dropped ∈ events) ∧
      ∃ capacity, table.plan key = .rebuild capacity ∧ capacity ≤ last.capacity) := by
  induction h with
  | done table => exact Or.inl rfl
  | @more table last capacity left events hplan hok hrest ih =>
      rcases Table.rebuild_ok hok with ⟨hnone, _, hle⟩
      rcases Table.rebuilt_mem_history hok with ⟨after, hmem⟩
      refine Or.inr ⟨?_, ⟨table.capacity, after, table.tombstones, ?_⟩, capacity, hplan, ?_⟩
      · -- The rest is no rebuild, or ends in one as well.
        rcases ih with hlast | ⟨hlast, _⟩
        · rw [hlast, hnone]
        · exact hlast
      · exact List.mem_append_left _ (List.mem_append_right _ hmem)
      · exact Nat.le_trans hle hrest.capacity_le

namespace Table

variable {table : Table α} {limit : Nat} {key : UInt64} {value : α}

/-- Without room, a new key is stored after a rebuild only. -/
theorem Valid.rebuilt_of_not_hasRoom (h : table.Valid)
    (hok : (table.put limit key value).answer = .ok none) (hroom : ¬ table.HasRoom key) :
    (∃ before after dropped, Event.rebuilt table.count before after dropped ∈
        (table.put limit key value).history) ∧
      (table.put limit key value).state.tombstones = 0 ∧
      ∃ capacity, table.plan key = .rebuild capacity ∧
        capacity ≤ (table.put limit key value).state.capacity := by
  rcases put_course limit table key value with ⟨events, last, hrebuilds, hend⟩
  have hlast := (hrebuilds.valid h).1
  generalize table.put limit key value = outcome at hok hend ⊢
  cases hend with
  | overwrote hplan =>
      -- Overwriting answers with the value that was there.
      rcases holds_of_plan_eq_overwrite hlast hplan with ⟨held, hread⟩
      rw [hread, Slot.value?, Except.ok.injEq] at hok
      exact absurd hok (by simp only [reduceCtorEq, not_false_eq_true])
  | @occupied index hplan =>
      rcases hrebuilds.eq_or with hsame | ⟨hnone, htold, capacity, hfirst, hle⟩
      · rw [hsame] at hplan
        exact absurd (hasRoom_of_plan_eq_occupy hplan) hroom
      · refine ⟨htold, ?_, capacity, hfirst, ?_⟩
        · rw [occupy_eq, hnone, Nat.zero_sub, ite_self]
        · rwa [capacity_occupy]
  | refused hplan => exact absurd hok (by simp only [reduceCtorEq, not_false_eq_true])
  | stuck hplan herror => exact absurd hok (by simp only [reduceCtorEq, not_false_eq_true])

/-- A window that is full takes part of the slots only, since half of them are
    free. -/
theorem Valid.probeLimit_lt_capacity (h : table.Valid) (hfull : table.slots.WindowFull key) :
    probeLimit < table.capacity := by
  by_contra hsmall
  have hall : ∀ slot ∈ table.slots, Slot.isEntry slot = true := by
    intro slot hmem
    rcases Array.mem_iff_getElem.mp hmem with ⟨index, hi, rfl⟩
    rw [← Slots.read_eq_getElem hi]
    exact hfull index (Slots.mem_windowOf_of_size_le (Nat.le_of_not_lt hsmall) hi)
  -- Otherwise every slot would be an entry.
  have hcount : table.count = table.slots.size :=
    h.count_eq.trans (Array.countP_eq_size.mpr hall)
  have hpos := h.capacity_pos
  have hload := h.two_mul_count_le
  unfold capacity at hload
  omega

/-- At half load, a table with a full window has no more tombstones than
    entries. -/
theorem Valid.tombstones_le_count (h : table.Valid) (hfull : table.slots.WindowFull key)
    (hload : table.count = table.capacity / 2) : table.tombstones ≤ table.count := by
  have hsize := h.probeLimit_lt_capacity hfull
  have hslots := Slots.countP_isEntry_add_countP_isTombstone_le table.slots
  rw [← h.count_eq, ← h.tombstones_eq] at hslots
  unfold capacity at hload hsize
  -- A power of two beyond one is even, so the halves are equal.
  rcases h.isPowerOfTwo with ⟨exponent, hexponent⟩
  unfold capacity at hexponent
  cases exponent with
  | zero =>
      rw [pow_zero] at hexponent
      unfold probeLimit at hsize
      omega
  | succ half =>
      rw [pow_succ] at hexponent
      omega

/-- The growth policy for a key that is not stored. While there is room the key
    takes the nearest free place, under every limit. Otherwise the table is
    rebuilt and keeps no tombstone. At half load its capacity at least doubles,
    and so it does for a full window, unless there were more tombstones than
    entries. In a table of eight slots or fewer no window is full, and only load
    makes it grow. -/
theorem put_growth (h : table.Reachable) (habsent : table.get key = none) (value : α) :
    (table.HasRoom key →
        ∃ index, ∀ limit, table.TakesNearest key value index (table.put limit key value)) ∧
      (∀ limit, (table.put limit key value).answer = .ok none →
        let outcome := table.put limit key value
        (¬ table.HasRoom key →
            (∃ before after dropped,
              Event.rebuilt table.count before after dropped ∈ outcome.history) ∧
            outcome.state.tombstones = 0) ∧
          (table.count = table.capacity / 2 → 2 * table.capacity ≤ outcome.state.capacity) ∧
          (table.slots.WindowFull key → table.count < table.capacity / 2 →
            (outcome.state.capacity = table.capacity ∧ table.count < table.tombstones) ∨
              2 * table.capacity ≤ outcome.state.capacity) ∧
          (table.capacity ≤ probeLimit → table.capacity < outcome.state.capacity →
            table.count = table.capacity / 2)) ∧
      (table.capacity ≤ probeLimit → ¬ table.slots.WindowFull key) := by
  have hvalid := h.valid
  have hsmall : table.capacity ≤ probeLimit → ¬ table.slots.WindowFull key :=
    fun hle hfull => absurd (hvalid.probeLimit_lt_capacity hfull) (Nat.not_lt.mpr hle)
  refine ⟨fun hroom => hvalid.takesNearest_of_hasRoom habsent hroom value, ?_, hsmall⟩
  intro limit hok outcome
  refine ⟨fun hroom => ?_, fun hload => ?_, fun hfull hload => ?_, fun hle hgrown => ?_⟩
  · rcases hvalid.rebuilt_of_not_hasRoom hok hroom with ⟨htold, hnone, _⟩
    exact ⟨htold, hnone⟩
  · have hroom : ¬ table.HasRoom key := fun hroom => by
      have hless := hroom.1
      omega
    rcases hvalid.rebuilt_of_not_hasRoom hok hroom with ⟨_, _, capacity, hplan, hcapacity⟩
    -- A rebuild of the same size would need more tombstones than there can be.
    rw [eq_nextSize_of_plan hplan] at hcapacity
    rcases nextSize_eq_or table key with hdouble | ⟨_, hfull, hmore⟩
    · rwa [hdouble] at hcapacity
    · exact absurd (hvalid.tombstones_le_count hfull hload) (Nat.not_le.mpr hmore)
  · have hroom : ¬ table.HasRoom key := fun hroom => hroom.2 hfull
    rcases hvalid.rebuilt_of_not_hasRoom hok hroom with ⟨_, _, capacity, hplan, hcapacity⟩
    rw [eq_nextSize_of_plan hplan] at hcapacity
    rcases nextSize_eq_or table key with hdouble | ⟨hsame, _, hmore⟩
    · exact Or.inr (hdouble ▸ hcapacity)
    · -- The rebuild may have doubled all the same.
      rw [hsame] at hcapacity
      rcases Nat.eq_or_lt_of_le hcapacity with heq | hlt
      · exact Or.inl ⟨heq.symm, hmore⟩
      · exact Or.inr (two_mul_le_of_isPowerOfTwo hvalid.isPowerOfTwo
          (hvalid.put limit key value).isPowerOfTwo hlt)
  · by_contra hload
    have hhalf := hvalid.two_mul_count_le
    rcases hvalid.takesNearest_of_hasRoom habsent ⟨by omega, hsmall hle⟩ value with
      ⟨index, htakes⟩
    have hkept : outcome.state.capacity = table.capacity := (htakes limit).capacity
    omega

/-- Eight keys crowd a window in a table of more tombstones than entries. The
    table is rebuilt at its own size, which moves four of them back home and
    makes room. A key with a home elsewhere writes over a tombstone instead. -/
theorem put_growth_refreshed :
    let shifted : List UInt64 := [72, 98, 138, 148, 169, 202, 214, 283, 18, 23, 25, 69]
    let passing : List UInt64 := [0, 40, 51, 99, 121, 144, 149, 209]
    let crowded := ((blank 32 : Table Nat).run (shifted.map (.put 32 · 1) ++
      (shifted.take 4).map .remove ++ passing.map (.put 32 · 2) ++
      (passing.take 7).map .remove)).1
    crowded.Reachable ∧ crowded.get 37 = none ∧ crowded.slots.WindowFull 37 ∧
      (crowded.put 32 37 3).answer = .ok none ∧ (crowded.put 32 37 3).state.tombstones = 0 ∧
      (crowded.put 32 37 3).state.capacity = crowded.capacity ∧
      crowded.count < crowded.tombstones ∧
      ∃ index, crowded.TakesNearest 0 3 index (crowded.put 0 0 3) := by
  intro shifted passing crowded
  have hmade : withCapacity 32 32 = .ok (blank 32 : Table Nat) := rfl
  have hreach : crowded.Reachable := Reachable.run (.made hmade) _
  have habsent : crowded.get 37 = none := by decide +kernel
  have hfull : crowded.slots.WindowFull 37 := by decide +kernel
  have hanswer : (crowded.put 32 37 3).answer = .ok none := by decide +kernel
  rcases put_growth hreach habsent 3 with ⟨_, hpolicy, _⟩
  rcases hpolicy 32 hanswer with ⟨hrebuilt, _, hwindow, _⟩
  have hsame : (crowded.put 32 37 3).state.capacity = crowded.capacity := by decide +kernel
  have hmore : crowded.count < crowded.tombstones := by
    rcases hwindow hfull (by decide +kernel) with ⟨_, hmore⟩ | hdouble
    · exact hmore
    · rw [hsame] at hdouble
      exact absurd hdouble (by decide +kernel)
  -- The other key has room, so its insertion needs no memory at all.
  have hother : crowded.get 0 = none := by decide +kernel
  rcases (put_growth hreach hother 3).1 (by unfold HasRoom; decide +kernel) with ⟨index, htakes⟩
  exact ⟨hreach, habsent, hfull, hanswer, (hrebuilt fun hroom => hroom.2 hfull).2, hsame, hmore,
    index, htakes 0⟩

end Table

end BoundedProbing
