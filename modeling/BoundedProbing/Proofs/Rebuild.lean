import Mathlib.Tactic.Ring
import BoundedProbing.Proofs.Sound
import BoundedProbing.Table.Rebuild

/-!
# What a Rebuild Moves

Placing entries into a blank array stores exactly these entries.

The entries of a sound array have different keys, so no entry that is placed
replaces an earlier one: each goes to a free place. The array that is filled
stays sound on the way and never holds a tombstone. What is left to chance is
only whether every window has room, and that decides how often the capacity is
doubled.

## Main definitions

* `Attempts`, `LastAttempt`: The attempts of a rebuild, and how they can end.

## Theorems

* `placeAll_blank`: What a filled array stores.
* `refit_attempts`: A rebuild makes such attempts.
* `exists_placeAll_of_refit`: The array that took every entry is a blank one,
  filled, of the capacity asked for or some doubling of it.
* `refit_error`: A rebuild is refused for lack of memory or of numbers.
* `Table.rebuild_eq_of_refit_ok`, `Table.rebuild_eq_of_refit_error`: The two
  ends of a rebuild.
* `Table.rebuild_eq_of_ok`, `Table.rebuild_state_of_error`: The same, from the
  answer.
-/

namespace BoundedProbing

universe u

variable {α : Type u}

/-- Keys that are not in an array, nor the one just written, are not in the
    written array. -/
theorem not_holds_write_of_nodup {slots : Slots α} {key : UInt64} {value : α} {index : Nat}
    {rest : List (UInt64 × α)} (hi : index < slots.size)
    (hnodup : (((key, value) :: rest).map Prod.fst).Nodup)
    (hnew : ∀ pair ∈ (key, value) :: rest, ∀ other, ¬ slots.Holds other pair.1) :
    ∀ pair ∈ rest, ∀ other, ¬ (slots.write index (.entry key value)).Holds other pair.1 := by
  intro pair hpair
  refine Slots.not_holds_write_entry hi (hnew pair (List.mem_cons_of_mem _ hpair)) ?_
  intro heq
  rw [List.map_cons, List.nodup_cons] at hnodup
  exact hnodup.1 (List.mem_map.mpr ⟨pair, hpair, heq⟩)

/-- Placing entries of new keys keeps an array sound and adds these entries. -/
theorem placeAll_sound {pairs : List (UInt64 × α)} {slots filled : Slots α}
    (hsound : slots.Sound) (hpos : 0 < slots.size) (hnodup : (pairs.map Prod.fst).Nodup)
    (hnew : ∀ pair ∈ pairs, ∀ index, ¬ slots.Holds index pair.1)
    (h : placeAll pairs slots = some filled) :
    filled.Sound ∧ filled.countP Slot.isEntry = slots.countP Slot.isEntry + pairs.length ∧
      filled.countP Slot.isTombstone ≤ slots.countP Slot.isTombstone ∧
      ∀ key value, filled.Stores key value ↔ (key, value) ∈ pairs ∨ slots.Stores key value := by
  -- The array changes with every entry, so the induction is over all arrays.
  induction pairs generalizing slots with
  | nil =>
      unfold placeAll at h
      rw [Option.some.injEq] at h
      subst h
      refine ⟨hsound, rfl, le_refl _, ?_⟩
      intro key value
      simp only [List.not_mem_nil, false_or]
  | cons pair rest ih =>
      rcases pair with ⟨key, value⟩
      have habsent : ∀ index, ¬ slots.Holds index key := hnew (key, value) List.mem_cons_self
      unfold placeAll at h
      cases hplace : place slots key with
      | found index =>
          -- A search that came to the key would have found it stored.
          have hfound := place_eq_found_iff.mp hplace
          exact absurd (hsound.locate_eq_some_iff_holds.mp hfound) (habsent index)
      | exhausted =>
          rw [hplace] at h
          exact absurd h (by simp only [reduceCtorEq, not_false_eq_true])
      | vacant index =>
          rw [hplace] at h
          have hi := Slots.lt_of_vacant hpos hplace
          -- The keys still to come are neither stored nor the one just written.
          have hlater := not_holds_write_of_nodup hi hnodup hnew
          rw [List.map_cons, List.nodup_cons] at hnodup
          have hwritten : 0 < (slots.write index (.entry key value)).size := by
            rw [Slots.size_write]
            exact hpos
          rcases ih (hsound.write_vacant hpos hplace value) hwritten hnodup.2 hlater h with
            ⟨hfilled, hentries, htombs, hstores⟩
          refine ⟨hfilled, ?_, ?_, ?_⟩
          · rw [hentries, Slots.countP_isEntry_write_vacant hpos hplace, List.length_cons]
            omega
          · have hcount := Slots.countP_isTombstone_write_entry hi key value
            omega
          · intro stored kept
            rw [hstores, hsound.stores_write_vacant_iff hpos hplace, List.mem_cons, Prod.mk.injEq]
            by_cases hkey : stored = key
            · have hrest : (stored, kept) ∉ rest := fun hmem =>
                hnodup.1 (List.mem_map.mpr ⟨(stored, kept), hmem, hkey⟩)
              have hold : ¬ slots.Stores stored kept := by
                intro hstored
                rcases hstored with ⟨other, hread⟩
                exact habsent other ⟨kept, hkey ▸ hread⟩
              simp only [hkey, if_true, true_and, hkey ▸ hrest, hkey ▸ hold, false_or, or_false]
            · simp only [hkey, if_false, false_and, false_or]

/-- Placing entries of different keys into a blank array stores exactly these
    entries, with no tombstone. -/
theorem placeAll_blank {pairs : List (UInt64 × α)} {capacity : Nat} {filled : Slots α}
    (hpos : 0 < capacity) (hnodup : (pairs.map Prod.fst).Nodup)
    (h : placeAll pairs (Slots.blank capacity) = some filled) :
    filled.Sound ∧ filled.countP Slot.isEntry = pairs.length ∧
      filled.countP Slot.isTombstone = 0 ∧
      ∀ key value, filled.Stores key value ↔ (key, value) ∈ pairs := by
  have hsize : 0 < (Slots.blank capacity : Slots α).size := by
    rw [Slots.size_blank]
    exact hpos
  rcases placeAll_sound (Slots.sound_blank capacity) hsize hnodup
    (fun pair _ index => Slots.not_holds_blank capacity index pair.1) h with
    ⟨hsound, hentries, htombs, hstores⟩
  refine ⟨hsound, ?_, ?_, ?_⟩
  · rw [hentries, Slots.countP_blank rfl, Nat.zero_add]
  · rw [Slots.countP_blank rfl] at htombs
    omega
  · intro key value
    rw [hstores]
    refine or_iff_left ?_
    intro hstored
    rcases hstored with ⟨index, hread⟩
    exact Slots.not_holds_blank capacity index key ⟨value, hread⟩

theorem doubled_of_lt {capacity : Nat} (hpos : 0 < capacity) (hlt : capacity < 2 ^ 63) :
    doubled capacity = some (2 * capacity) := by
  refine doubled_eq_some_iff.mpr ⟨rfl, hpos, ?_⟩
  simp only [UInt64.size]
  omega

/-- How the last attempt of a rebuild ends, which is made at this size. -/
inductive LastAttempt (limit : Nat) (pairs : List (UInt64 × α)) (size : Nat) :
    Except Fault (Slots α) → Prop where
  | refused (hover : limit < size) : LastAttempt limit pairs size (.error (.outOfMemory size))
  | fitted {filled : Slots α} (hle : size ≤ limit)
      (hfill : placeAll pairs (Slots.blank size) = some filled) :
      LastAttempt limit pairs size (.ok filled)
  | overflowed (hle : size ≤ limit) (hnone : placeAll pairs (Slots.blank size) = none)
      (hlast : doubled size = none) : LastAttempt limit pairs size (.error (.capacityOverflow size))

/-- Every size that a limit below `2 ^ 63` grants can be doubled, so attempts end
    without success for lack of memory only. -/
theorem LastAttempt.outOfMemory {limit size : Nat} {pairs : List (UInt64 × α)} {fault : Fault}
    (h : LastAttempt limit pairs size (.error fault)) (hpos : 0 < size) (hlimit : limit < 2 ^ 63) :
    fault = .outOfMemory size ∧ limit < size := by
  cases h with
  | refused hover => exact ⟨rfl, hover⟩
  | overflowed hle _ hlast =>
      have hdouble := doubled_of_lt hpos (Nat.lt_of_le_of_lt hle hlimit)
      exact absurd (hlast.symm.trans hdouble) (by simp only [reduceCtorEq, not_false_eq_true])

/-- One attempt after the other, from this capacity on. All but the last are
    granted their arrays and leave some entry without a place. -/
def Attempts (limit : Nat) (pairs : List (UInt64 × α)) (capacity : Nat)
    (result : Except Fault (Slots α)) : Prop :=
  ∃ doublings, (∀ fewer, fewer < doublings → capacity * 2 ^ fewer ≤ limit ∧
      placeAll pairs (Slots.blank (capacity * 2 ^ fewer)) = none) ∧
    LastAttempt limit pairs (capacity * 2 ^ doublings) result

theorem LastAttempt.attempts {limit capacity : Nat} {pairs : List (UInt64 × α)}
    {result : Except Fault (Slots α)} (h : LastAttempt limit pairs capacity result) :
    Attempts limit pairs capacity result := by
  refine ⟨0, fun fewer hlt => absurd hlt (Nat.not_lt_zero fewer), ?_⟩
  rw [pow_zero, Nat.mul_one]
  exact h

/-- An attempt that fails, before those at twice the capacity. -/
theorem Attempts.step {limit capacity : Nat} {pairs : List (UInt64 × α)}
    {result : Except Fault (Slots α)} (hle : capacity ≤ limit)
    (hnone : placeAll pairs (Slots.blank capacity) = none)
    (h : Attempts limit pairs (2 * capacity) result) : Attempts limit pairs capacity result := by
  rcases h with ⟨doublings, hfailed, hend⟩
  have hshift : ∀ count, 2 * capacity * 2 ^ count = capacity * 2 ^ (count + 1) := by
    intro count
    ring
  refine ⟨doublings + 1, fun fewer hlt => ?_, hshift doublings ▸ hend⟩
  cases fewer with
  | zero =>
      rw [pow_zero, Nat.mul_one]
      exact ⟨hle, hnone⟩
  | succ count =>
      rw [← hshift]
      exact hfailed count (Nat.lt_of_succ_lt_succ hlt)

theorem refit_attempts (limit : Nat) (pairs : List (UInt64 × α)) (capacity : Nat) :
    Attempts limit pairs capacity (refit limit pairs capacity).2 := by
  fun_induction refit limit pairs capacity with
  | case1 capacity hover => exact (LastAttempt.refused hover).attempts
  | case2 capacity hover filled hfill =>
      exact (LastAttempt.fitted (Nat.le_of_not_lt hover) hfill).attempts
  | case3 capacity hover hnone hlast =>
      exact (LastAttempt.overflowed (Nat.le_of_not_lt hover) hnone hlast).attempts
  | case4 capacity hover hnone larger hlarger tried ih =>
      have hlater : Attempts limit pairs (2 * capacity) tried.2 :=
        (doubled_eq_some_iff.mp hlarger).1 ▸ ih
      exact hlater.step (Nat.le_of_not_lt hover) hnone

/-- The array that took every entry is a filled blank one, of the capacity asked
    for or a doubling of it. -/
theorem exists_placeAll_of_refit {limit capacity : Nat} {pairs : List (UInt64 × α)}
    {slots : Slots α} (h : (refit limit pairs capacity).2 = .ok slots) :
    ∃ doublings, placeAll pairs (Slots.blank (capacity * 2 ^ doublings)) = some slots := by
  rcases refit_attempts limit pairs capacity with ⟨doublings, _, hend⟩
  rw [h] at hend
  cases hend with
  | fitted _ hfill => exact ⟨doublings, hfill⟩

/-- A rebuild is refused for lack of memory, or because the next capacity has
    more than 64 bits. -/
theorem refit_error {limit capacity : Nat} {pairs : List (UInt64 × α)} {fault : Fault}
    (h : (refit limit pairs capacity).2 = .error fault) :
    ∃ wanted, fault = .outOfMemory wanted ∨ fault = .capacityOverflow wanted := by
  rcases refit_attempts limit pairs capacity with ⟨doublings, _, hend⟩
  rw [h] at hend
  cases hend with
  | refused _ => exact ⟨_, Or.inl rfl⟩
  | overflowed _ _ _ => exact ⟨_, Or.inr rfl⟩

theorem isPowerOfTwo_mul_two_pow {capacity : Nat} (h : capacity.isPowerOfTwo) (doublings : Nat) :
    (capacity * 2 ^ doublings).isPowerOfTwo := by
  rcases h with ⟨exponent, rfl⟩
  exact ⟨exponent + doublings, (pow_add 2 exponent doublings).symm⟩

theorem dvd_of_isPowerOfTwo_of_le {smaller larger : Nat} (hs : smaller.isPowerOfTwo)
    (hl : larger.isPowerOfTwo) (hle : smaller ≤ larger) : smaller ∣ larger := by
  rcases hs with ⟨low, rfl⟩
  rcases hl with ⟨high, rfl⟩
  exact Nat.pow_dvd_pow 2 ((Nat.pow_le_pow_iff_right (by omega)).mp hle)

/-- A larger power of two is at least twice as large. -/
theorem two_mul_le_of_isPowerOfTwo {smaller larger : Nat} (hs : smaller.isPowerOfTwo)
    (hl : larger.isPowerOfTwo) (hlt : smaller < larger) : 2 * smaller ≤ larger := by
  rcases hs with ⟨low, rfl⟩
  rcases hl with ⟨high, rfl⟩
  have hexponents : low < high := (Nat.pow_lt_pow_iff_right (by omega)).mp hlt
  rw [← pow_succ']
  exact Nat.pow_le_pow_right (by omega) hexponents

namespace Table

variable {limit capacity : Nat} {table : Table α}

theorem rebuild_eq_of_refit_ok {slots : Slots α}
    (h : (refit limit table.slots.entries capacity).2 = .ok slots) :
    table.rebuild limit capacity = ⟨⟨⟨slots, 0⟩, table.count⟩, .ok table.toLayout,
      (refit limit table.slots.entries capacity).1.map Event.requested ++
        [.rebuilt table.count table.capacity slots.size table.tombstones]⟩ := by
  unfold rebuild
  simp only [h]

theorem rebuild_eq_of_refit_error {fault : Fault}
    (h : (refit limit table.slots.entries capacity).2 = .error fault) :
    table.rebuild limit capacity = ⟨table, .error fault,
      (refit limit table.slots.entries capacity).1.map Event.requested⟩ := by
  unfold rebuild
  simp only [h]

/-- A rebuild that succeeds leaves a filled array, and answers with the layout
    the table had. -/
theorem rebuild_eq_of_ok {left : Layout α} (h : (table.rebuild limit capacity).answer = .ok left) :
    left = table.toLayout ∧ ∃ slots, (refit limit table.slots.entries capacity).2 = .ok slots ∧
      (table.rebuild limit capacity).state = ⟨⟨slots, 0⟩, table.count⟩ := by
  cases hfit : (refit limit table.slots.entries capacity).2 with
  | ok slots =>
      rw [rebuild_eq_of_refit_ok hfit, Except.ok.injEq] at h
      rw [rebuild_eq_of_refit_ok hfit]
      exact ⟨h.symm, slots, rfl, rfl⟩
  | error fault => simp only [rebuild_eq_of_refit_error hfit, reduceCtorEq] at h

/-- A rebuild that fails has found no array to fill, and leaves the table as it
    is. -/
theorem rebuild_eq_of_error {fault : Fault}
    (h : (table.rebuild limit capacity).answer = .error fault) :
    (refit limit table.slots.entries capacity).2 = .error fault ∧
      (table.rebuild limit capacity).state = table := by
  cases hfit : (refit limit table.slots.entries capacity).2 with
  | ok slots => simp only [rebuild_eq_of_refit_ok hfit, reduceCtorEq] at h
  | error cause =>
      rw [rebuild_eq_of_refit_error hfit, Except.error.injEq] at h
      rw [rebuild_eq_of_refit_error hfit, h]
      exact ⟨rfl, rfl⟩

theorem history_rebuild_ne_nil {left : Layout α}
    (h : (table.rebuild limit capacity).answer = .ok left) :
    (table.rebuild limit capacity).history ≠ [] := by
  rcases rebuild_eq_of_ok h with ⟨_, slots, hfit, _⟩
  rw [rebuild_eq_of_refit_ok hfit]
  exact List.append_ne_nil_of_right_ne_nil _ (List.cons_ne_nil _ _)

/-- A rebuild that is refused leaves the table as it is. -/
theorem rebuild_state_of_error {fault : Fault}
    (h : (table.rebuild limit capacity).answer = .error fault) :
    (table.rebuild limit capacity).state = table ∧
      ∃ wanted, fault = .outOfMemory wanted ∨ fault = .capacityOverflow wanted := by
  rcases rebuild_eq_of_error h with ⟨hfit, hstate⟩
  exact ⟨hstate, refit_error hfit⟩

end Table

end BoundedProbing
