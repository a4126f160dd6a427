import BoundedProbing.Proofs.Run

/-!
# What Fits into an Array

A rebuild moves every entry or none, and stops at the first capacity that fits.

A rebuild uses the search of an insertion, which might find a key it has placed
already and drop an entry. It never does, since the entries of a valid table
have different keys and the array starts blank. So every entry goes to the
nearest free place of its window. `Fills` says just that, as a relation between
the array before and after, and knows neither a search nor tombstones. A
capacity fits some entries if a blank array of that size can be filled with
them in their order. The order matters, because the entries that come first
take the places they like.

With this the course of a rebuild is a search for the least number of doublings
that fits. It is cut short by a size above the limit, and then nothing has
changed, because the old array was only read.

## Main definitions

* `Slots.nearestFree`: The first place of a window that no entry takes.
* `Fills`, `Fits`: Entries placed one after the other, and whether they can be.
* `Slots.Solid`: Only entries lie between an entry and its home.
* `Table.Moved`: What a rebuild leaves behind.

## Theorems

* `placeAll_eq_some_iff_fills`: The attempts of a rebuild in these terms.
* `Table.Valid.moved`: A rebuild that succeeds moves every entry.
* `Table.rebuild_all_or_nothing`: The two ends of a rebuild.
-/

namespace BoundedProbing

universe u

variable {α : Type u}

namespace Slots

variable {slots : Slots α} {key : UInt64} {index : Nat}

/-- The first place of the key's window that no entry takes. -/
def nearestFree (slots : Slots α) (key : UInt64) : Option Nat :=
  (windowOf slots key).find? fun place => !(slots.read place).isEntry

theorem lt_of_nearestFree (hpos : 0 < slots.size) (h : slots.nearestFree key = some index) :
    index < slots.size :=
  lt_of_mem_window hpos (List.mem_of_find?_eq_some h)

/-- Every slot between an entry's home and the entry is taken. -/
def Solid (slots : Slots α) : Prop :=
  ∀ key index, slots.Holds index key →
    ∀ nearer, nearer < distanceFrom (home key slots.size) index slots.size →
      (slots.read (ahead (home key slots.size) nearer slots.size)).isEntry = true

theorem read_ne_tombstone (h : slots.countP Slot.isTombstone = 0) (index : Nat) :
    slots.read index ≠ .tombstone := by
  intro hread
  have hi : index < slots.size := lt_of_read_ne_empty (by
    rw [hread]
    simp only [ne_eq, reduceCtorEq, not_false_eq_true])
  have hpos := countP_pos_of_read hi (p := Slot.isTombstone) (by rw [hread]; rfl)
  omega

/-- Without tombstones, what is not empty on the way to an entry is an entry. -/
theorem Sound.solid (h : slots.Sound) (htombs : ∀ index, slots.read index ≠ .tombstone) :
    slots.Solid := by
  intro key index hholds nearer hlt
  have hclear := (h.reached key index hholds).2 nearer hlt
  cases hread : slots.read (ahead (home key slots.size) nearer slots.size) with
  | empty => exact absurd hread hclear
  | tombstone => exact absurd hread (htombs _)
  | entry stored kept => rfl

end Slots

/-- The entries are written one after the other, each to the nearest free place
    of its window, and this is the array that comes of it. -/
inductive Fills : Slots α → List (UInt64 × α) → Slots α → Prop where
  | done (slots : Slots α) : Fills slots [] slots
  | next {slots filled : Slots α} {key : UInt64} {value : α} {rest : List (UInt64 × α)}
      {index : Nat} (hfree : slots.nearestFree key = some index)
      (hrest : Fills (slots.write index (.entry key value)) rest filled) :
      Fills slots ((key, value) :: rest) filled

/-- In this order, there is a place for each of the entries in a blank array. -/
def Fits (pairs : List (UInt64 × α)) (capacity : Nat) : Prop :=
  ∃ filled, Fills (Slots.blank capacity) pairs filled

variable {slots filled : Slots α} {pairs rest : List (UInt64 × α)} {capacity limit : Nat}

/-- A new key goes to the nearest free place. -/
theorem placeAll_cons_of_absent {key : UInt64} (h : ∀ index, ¬ slots.Holds index key) (value : α) :
    placeAll ((key, value) :: rest) slots =
      (slots.nearestFree key).bind fun index =>
        placeAll rest (slots.write index (.entry key value)) := by
  have hfirst : firstFree slots (home key slots.size) offsets = slots.nearestFree key := rfl
  rw [placeAll, place_eq_locate, locate_eq_none_of_absent h, hfirst]
  cases slots.nearestFree key <;> rfl

theorem placeAll_eq_some_iff_fills (hpos : 0 < slots.size) (hnodup : (pairs.map Prod.fst).Nodup)
    (hnew : ∀ pair ∈ pairs, ∀ index, ¬ slots.Holds index pair.1) :
    placeAll pairs slots = some filled ↔ Fills slots pairs filled := by
  -- The array changes with every entry, and the keys still to come stay new to it.
  induction pairs generalizing slots with
  | nil =>
      rw [placeAll, Option.some.injEq]
      constructor
      · intro heq
        exact heq ▸ .done slots
      · intro hfills
        cases hfills with
        | done => rfl
  | cons pair rest ih =>
      rcases pair with ⟨key, value⟩
      have habsent : ∀ index, ¬ slots.Holds index key := hnew (key, value) List.mem_cons_self
      have hrest : ∀ index, slots.nearestFree key = some index →
          (placeAll rest (slots.write index (.entry key value)) = some filled ↔
            Fills (slots.write index (.entry key value)) rest filled) := by
        intro index hfree
        have hi := Slots.lt_of_nearestFree hpos hfree
        refine ih ?_ (List.nodup_cons.mp hnodup).2 (not_holds_write_of_nodup hi hnodup hnew)
        rw [Slots.size_write]
        exact hpos
      rw [placeAll_cons_of_absent habsent, Option.bind_eq_some_iff]
      constructor
      · intro hplaced
        rcases hplaced with ⟨index, hfree, hplaced⟩
        exact .next hfree ((hrest index hfree).mp hplaced)
      · intro hfills
        cases hfills with
        | @next _ _ _ _ _ index hfree hlater => exact ⟨index, hfree, (hrest index hfree).mpr hlater⟩

theorem placeAll_blank_eq_some_iff (hpos : 0 < capacity) (hnodup : (pairs.map Prod.fst).Nodup) :
    placeAll pairs (Slots.blank capacity) = some filled ↔
      Fills (Slots.blank capacity) pairs filled := by
  refine placeAll_eq_some_iff_fills ?_ hnodup fun pair _ index =>
    Slots.not_holds_blank capacity index pair.1
  rwa [Slots.size_blank]

theorem placeAll_blank_eq_none_iff (hpos : 0 < capacity) (hnodup : (pairs.map Prod.fst).Nodup) :
    placeAll pairs (Slots.blank capacity) = none ↔ ¬ Fits pairs capacity := by
  unfold Fits
  simp only [Option.eq_none_iff_forall_ne_some, ← placeAll_blank_eq_some_iff hpos hnodup,
    not_exists]

namespace Table

variable {table : Table α}

/-- What a rebuild that succeeds makes of a table: a valid table with the same
    entries, each key once, without a tombstone and without a gap before an
    entry. The layout that is left is the one the table had. -/
structure Moved (before after : Table α) (left : Layout α) : Prop where
  valid : after.Valid
  stores : ∀ key value, after.slots.Stores key value ↔ before.slots.Stores key value
  distinct : after.slots.Distinct
  noTombstone : ∀ index, after.slots.read index ≠ .tombstone
  solid : after.slots.Solid
  tombstones : after.tombstones = 0
  count : after.count = after.slots.countP Slot.isEntry
  left : left = before.toLayout

/-- A rebuild that succeeds moves every entry. -/
theorem Valid.moved (h : table.Valid) {left : Layout α} (hle : table.capacity ≤ capacity)
    (hpow : capacity.isPowerOfTwo) (hok : (table.rebuild limit capacity).answer = .ok left) :
    Moved table (table.rebuild limit capacity).state left := by
  rcases h.rebuild hle hpow hok with ⟨hvalid, hstores⟩
  have hnone := (rebuild_ok hok).1
  have htombs := Slots.read_ne_tombstone (hvalid.tombstones_eq.symm.trans hnone)
  exact ⟨hvalid, hstores, hvalid.sound.distinct, htombs, hvalid.sound.solid htombs, hnone,
    hvalid.count_eq, (rebuild_eq_of_ok hok).1⟩

/-- A rebuild moves every entry or none. Under a limit of fewer than 64 bits it
    tries the capacity asked for, twice that, and so on. Every size before the
    last is granted and does not fit the entries in the order of their slots. At
    the last size they fit, and the table is moved there. Or that size is the
    first one above the limit, and the table is what it was. -/
theorem rebuild_all_or_nothing (h : table.Reachable) (hpow : capacity.isPowerOfTwo)
    (hle : table.capacity ≤ capacity) (hlimit : limit < 2 ^ 63) :
    let outcome := table.rebuild limit capacity
    ∃ doublings,
      (∀ fewer, fewer < doublings → capacity * 2 ^ fewer ≤ limit ∧
        ¬ Fits table.slots.entries (capacity * 2 ^ fewer)) ∧
      ((∃ left, outcome.answer = .ok left ∧ capacity * 2 ^ doublings ≤ limit ∧
          outcome.state.capacity = capacity * 2 ^ doublings ∧
          Fills (Slots.blank (capacity * 2 ^ doublings)) table.slots.entries outcome.state.slots ∧
          Moved table outcome.state left) ∨
        (outcome.answer = .error (.outOfMemory (capacity * 2 ^ doublings)) ∧
          limit < capacity * 2 ^ doublings ∧ outcome.state = table)) := by
  intro outcome
  have hvalid := h.valid
  have hnodup := Slots.nodup_keys hvalid.sound.distinct
  have hpos : ∀ count, 0 < capacity * 2 ^ count := fun count =>
    Nat.pos_of_isPowerOfTwo (isPowerOfTwo_mul_two_pow hpow count)
  rcases refit_attempts limit table.slots.entries capacity with ⟨doublings, hfailed, hend⟩
  refine ⟨doublings, fun fewer hlt => ?_, ?_⟩
  · rcases hfailed fewer hlt with ⟨hgranted, hnone⟩
    exact ⟨hgranted, (placeAll_blank_eq_none_iff (hpos fewer) hnodup).mp hnone⟩
  · cases hfit : (refit limit table.slots.entries capacity).2 with
    | ok slots =>
        rw [hfit] at hend
        have houtcome : outcome = _ := rebuild_eq_of_refit_ok hfit
        have hok : outcome.answer = .ok table.toLayout := by rw [houtcome]
        cases hend with
        | fitted hgranted hfill =>
            have hsize := size_placeAll _ _ _ hfill
            rw [Slots.size_blank] at hsize
            refine Or.inl ⟨table.toLayout, hok, hgranted, ?_, ?_, hvalid.moved hle hpow hok⟩
            · rw [houtcome]
              exact hsize
            · rw [houtcome]
              exact (placeAll_blank_eq_some_iff (hpos doublings) hnodup).mp hfill
    | error fault =>
        rw [hfit] at hend
        have houtcome : outcome = _ := rebuild_eq_of_refit_error hfit
        rcases hend.outOfMemory (hpos doublings) hlimit with ⟨hfault, hover⟩
        rw [houtcome, hfault]
        exact Or.inr ⟨rfl, hover, rfl⟩

/-- Eight keys fill the last slots up to the end, and a ninth, at home among
    them, went around to the first slot. A rebuild takes it first, which leaves
    the last of the eight without a place. So it needs twice the capacity, and
    is refused that much memory or granted it. -/
theorem rebuild_all_or_nothing_wrapped :
    let keys : List UInt64 := [18, 23, 25, 69, 94, 158, 245, 365, 5]
    let wrapped := ((blank 32 : Table Nat).run (keys.map (.put 32 · 0))).1
    wrapped.Reachable ∧ (32).isPowerOfTwo ∧ wrapped.capacity ≤ 32 ∧ 64 < 2 ^ 63 ∧
      wrapped.slots.read 0 = .entry 5 0 ∧ ¬ Fits wrapped.slots.entries 32 ∧
      (wrapped.rebuild 63 32).answer = .error (.outOfMemory 64) ∧
      (wrapped.rebuild 63 32).state = wrapped ∧
      (wrapped.rebuild 64 32).state.capacity = 64 ∧
      Moved wrapped (wrapped.rebuild 64 32).state wrapped.toLayout := by
  intro keys wrapped
  have hmade : withCapacity 32 32 = .ok (blank 32 : Table Nat) := rfl
  have hreach : wrapped.Reachable := Reachable.run (.made hmade) _
  have hpow : (32).isPowerOfTwo := ⟨5, rfl⟩
  have hle : wrapped.capacity ≤ 32 := by decide +kernel
  have hfits : ¬ Fits wrapped.slots.entries 32 :=
    (placeAll_blank_eq_none_iff (by decide) (Slots.nodup_keys hreach.valid.sound.distinct)).mp
      (by decide +kernel)
  have hrefused : (wrapped.rebuild 63 32).answer = .error (.outOfMemory 64) := by decide +kernel
  have hgranted : (wrapped.rebuild 64 32).answer = .ok wrapped.toLayout := by decide +kernel
  refine ⟨hreach, hpow, hle, by decide, by decide +kernel, hfits, hrefused, ?_,
    by decide +kernel, ?_⟩
  · rcases rebuild_all_or_nothing hreach hpow hle (by decide : 63 < 2 ^ 63) with
      ⟨_, _, ⟨_, hok, _⟩ | ⟨_, _, hstate⟩⟩
    · exact absurd (hok.symm.trans hrefused) (by simp only [reduceCtorEq, not_false_eq_true])
    · exact hstate
  · rcases rebuild_all_or_nothing hreach hpow hle (by decide : 64 < 2 ^ 63) with
      ⟨_, _, ⟨left, hok, _, _, _, hmoved⟩ | ⟨herror, _⟩⟩
    · rw [hgranted, Except.ok.injEq] at hok
      rwa [hok]
    · exact absurd (hgranted.symm.trans herror) (by simp only [reduceCtorEq, not_false_eq_true])

end Table

end BoundedProbing
