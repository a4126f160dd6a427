import BoundedProbing.Proofs.Fitting
import BoundedProbing.Proofs.Homes
import BoundedProbing.Proofs.Requests

/-!
# Rebuilding without Wrapped Entries

If no entry went around the end of the array, a rebuild fits at once.

A window holds eight places, so placing entries anew can fail. What makes it
succeed is a *spot* for every key, kept free until the key's turn comes. A spot
is a place of the key's window, without going around, and the key is put there
or nearer. So an earlier key can be in the way only if the spot of a later one
lies between its own home and its own spot. If that is so for no earlier and
later key, the entries fit in their order, and none goes beyond its spot.

The spot comes from the old array. A larger power of two is made of blocks as
large as the old array, and a key's home moves to the same place of one of these
blocks. There its spot is as far from home as its old place was. Two keys in
different blocks cannot be in each other's way, and in one block the spots are
in the order of the old places, which is the order of the rebuild.

An entry that went around breaks this. Its old place comes before its home, so
it is taken first and may be put at the spot of an entry that comes last.

## Main definitions

* `Reserves`: A spot in the window of a key, between its home and the end.
* `Contends`: A key that may be put at the spot of another.
* `Slots.Within`: No entry is beyond its spot.
* `Table.Unwrapped`: No entry went around the end of the array.
* `Table.spot`: The spot of a key in a larger array.

## Theorems

* `exists_fills_of_spots`: Entries with spots can be placed.
* `Table.Valid.reserves_spot`, `Table.Valid.not_contends_spot`: The old places
  give such spots.
* `Table.rebuild_of_unwrapped`: A rebuild then fits at the first attempt, and
  moves no entry further from its home.
-/

namespace BoundedProbing

universe u

variable {α : Type u}

/-- A place of the key's window that is reached without going around the end of
    the array. -/
structure Reserves (capacity : Nat) (key : UInt64) (spot : Nat) : Prop where
  home_le : home key capacity ≤ spot
  near : spot < home key capacity + probeLimit
  lt_capacity : spot < capacity

/-- The earlier key may be put at the spot of the later one, which lies between
    its home and its own spot. -/
def Contends (capacity : Nat) (spot : UInt64 → Nat) (earlier later : UInt64) : Prop :=
  home earlier capacity ≤ spot later ∧ spot later ≤ spot earlier

namespace Slots

variable {slots : Slots α} {key : UInt64} {spot : UInt64 → Nat}

/-- Every entry lies between its home and its spot. -/
def Within (slots : Slots α) (spot : UInt64 → Nat) : Prop :=
  ∀ index key, slots.Holds index key → home key slots.size ≤ index ∧ index ≤ spot key

/-- A key is put at its spot, if that is free, or nearer. -/
theorem exists_nearestFree_of_spot {place : Nat} (h : Reserves slots.size key place)
    (hfree : (slots.read place).isEntry = false) :
    ∃ index, slots.nearestFree key = some index ∧ home key slots.size ≤ index ∧ index ≤ place := by
  have hhome := h.home_le
  have hnear := h.near
  have hplace := h.lt_capacity
  -- The spot is one of the places that the search examines.
  have hspot : ahead (home key slots.size) (place - home key slots.size) slots.size = place := by
    rw [ahead, Nat.add_sub_cancel' hhome, Nat.mod_eq_of_lt hplace]
  have htaken : ¬ (slots.read
      (ahead (home key slots.size) (place - home key slots.size) slots.size)).isEntry = true := by
    rw [hspot, hfree]
    exact Bool.false_ne_true
  change ∃ index, firstFree slots (home key slots.size) offsets = some index ∧ _ ∧ _
  cases hfound : firstFree slots (home key slots.size) offsets with
  | none => exact absurd (firstFree_offsets_eq_none_iff.mp hfound _ (by omega)) htaken
  | some index =>
      rcases firstFree_offsets_eq_some_iff.mp hfound with ⟨distance, _, rfl, _, hnearer⟩
      have hle : distance ≤ place - home key slots.size := by
        by_contra hc
        exact htaken (hnearer _ (by omega))
      have hindex : ahead (home key slots.size) distance slots.size =
          home key slots.size + distance := by
        rw [ahead, Nat.mod_eq_of_lt (by omega)]
      rw [hindex]
      exact ⟨_, rfl, by omega, by omega⟩

/-- The spot of a key is free while no entry contends for it. -/
theorem Within.isEntry_spot_eq_false (h : slots.Within spot)
    (hclear : ∀ index stored, slots.Holds index stored → ¬ Contends slots.size spot stored key) :
    (slots.read (spot key)).isEntry = false := by
  rw [← Bool.not_eq_true]
  intro hentry
  rcases exists_holds_of_isEntry hentry with ⟨stored, hholds⟩
  exact hclear (spot key) stored hholds (h (spot key) stored hholds)

theorem Within.write (h : slots.Within spot) {index : Nat} (hi : index < slots.size)
    (hhome : home key slots.size ≤ index) (hspot : index ≤ spot key) (value : α) :
    (slots.write index (.entry key value)).Within spot := by
  intro other stored hholds
  rw [holds_write_entry_iff hi] at hholds
  rw [size_write]
  by_cases hat : other = index
  · rw [if_pos hat] at hholds
    rw [hat, hholds]
    exact ⟨hhome, hspot⟩
  · rw [if_neg hat] at hholds
    exact h other stored hholds

end Slots

section Spots

variable {pairs : List (UInt64 × α)} {slots : Slots α} {spot : UInt64 → Nat}

/-- Entries can be placed if each has a spot for which neither a stored key nor
    an earlier one contends. -/
theorem exists_fills_of_spots (hwithin : slots.Within spot)
    (hspots : ∀ pair ∈ pairs, Reserves slots.size pair.1 (spot pair.1))
    (hclear : ∀ pair ∈ pairs, ∀ index stored, slots.Holds index stored →
      ¬ Contends slots.size spot stored pair.1)
    (hpairs : pairs.Pairwise fun earlier later => ¬ Contends slots.size spot earlier.1 later.1) :
    ∃ filled, Fills slots pairs filled ∧ filled.Within spot := by
  -- What is kept from entry to entry is that the spots still to come are free.
  induction pairs generalizing slots with
  | nil => exact ⟨slots, .done slots, hwithin⟩
  | cons pair rest ih =>
      rcases pair with ⟨key, value⟩
      have hspot : Reserves slots.size key (spot key) := hspots (key, value) List.mem_cons_self
      have hfree : (slots.read (spot key)).isEntry = false :=
        hwithin.isEntry_spot_eq_false (hclear (key, value) List.mem_cons_self)
      rcases Slots.exists_nearestFree_of_spot hspot hfree with ⟨index, hnearest, hhome, hle⟩
      have hi : index < slots.size := Nat.lt_of_le_of_lt hle hspot.lt_capacity
      rw [List.pairwise_cons] at hpairs
      have hrest : ∀ later ∈ rest, Reserves slots.size later.1 (spot later.1) :=
        fun later hlater => hspots later (List.mem_cons_of_mem _ hlater)
      -- The key that was just put contends for none of them, as it came earlier.
      have hstill : ∀ later ∈ rest, ∀ other stored,
          (slots.write index (.entry key value)).Holds other stored →
          ¬ Contends slots.size spot stored later.1 := by
        intro later hlater other stored hholds
        rw [Slots.holds_write_entry_iff hi] at hholds
        by_cases hat : other = index
        · rw [if_pos hat] at hholds
          rw [hholds]
          exact hpairs.1 later hlater
        · rw [if_neg hat] at hholds
          exact hclear later (List.mem_cons_of_mem _ hlater) other stored hholds
      rw [← Slots.size_write slots index (.entry key value)] at hrest hstill hpairs
      rcases ih (hwithin.write hi hhome hle value) hrest hstill hpairs.2 with
        ⟨filled, hfills, hfilled⟩
      exact ⟨filled, .next hnearest hfills, hfilled⟩

end Spots

namespace Table

variable {table : Table α} {capacity limit index other : Nat} {key later : UInt64}

/-- No entry went around the end of the array. -/
def Unwrapped (table : Table α) : Prop :=
  ∀ index key, table.slots.Holds index key → home key table.capacity ≤ index

instance (table : Table α) : Decidable table.Unwrapped :=
  decidable_of_iff (∀ index, index < table.capacity →
      ∀ pair ∈ Slot.entry? (table.slots.read index), home pair.1 table.capacity ≤ index)
    (by
      constructor
      · intro hall index key hholds
        have hlt := hholds.lt
        rcases hholds with ⟨value, hread⟩
        exact hall index hlt (key, value) (Slots.entry?_eq_some_iff.mpr hread)
      · intro hunwrapped index _ pair hpair
        exact hunwrapped index pair.1 ⟨pair.2, Slots.entry?_eq_some_iff.mp hpair⟩)

/-- The place in a larger array that is as far from the key's home as the place
    where the key is stored. -/
def spot (table : Table α) (capacity : Nat) (key : UInt64) : Nat :=
  home key capacity + ((locate table.slots key).getD 0 - home key table.capacity)

theorem Valid.spot_eq_home_add (h : table.Valid) (hholds : table.slots.Holds index key)
    (capacity : Nat) :
    table.spot capacity key = home key capacity + (index - home key table.capacity) := by
  rw [spot, h.sound.locate_eq_some_iff_holds.mpr hholds, Option.getD_some]

/-- Within its block, the spot of a key is where the key was. -/
theorem Valid.spot_eq_add_index (h : table.Valid) (hunwrapped : table.Unwrapped)
    (hdvd : table.capacity ∣ capacity) (hholds : table.slots.Holds index key) :
    table.spot capacity key =
      table.capacity * (home key capacity / table.capacity) + index := by
  have hhome := home_eq_add_home hdvd key
  have hle := hunwrapped index key hholds
  rw [h.spot_eq_home_add hholds]
  omega

theorem Valid.spot_div (h : table.Valid) (hunwrapped : table.Unwrapped)
    (hdvd : table.capacity ∣ capacity) (hholds : table.slots.Holds index key) :
    table.spot capacity key / table.capacity = home key capacity / table.capacity := by
  have hi : index < table.capacity := hholds.lt
  rw [h.spot_eq_add_index hunwrapped hdvd hholds, Nat.mul_add_div (by omega),
    Nat.div_eq_of_lt hi, Nat.add_zero]

theorem Valid.reserves_spot (h : table.Valid) (hunwrapped : table.Unwrapped)
    (hdvd : table.capacity ∣ capacity) (hpos : 0 < capacity)
    (hholds : table.slots.Holds index key) :
    Reserves capacity key (table.spot capacity key) := by
  have hi : index < table.capacity := hholds.lt
  have hhome : home key table.capacity < table.capacity := home_lt key (by omega)
  have hle := hunwrapped index key hholds
  -- The distance of a stored key is that of its place, as nothing goes around.
  have hnear := (h.sound.reached key index hholds).1
  have hdistance : distanceFrom (home key table.capacity) index table.capacity =
      index - home key table.capacity := by
    rw [distanceFrom_eq_ite hhome hi, if_pos hle]
  rw [show table.slots.size = table.capacity from rfl, hdistance] at hnear
  have hspot := h.spot_eq_home_add hholds capacity
  refine ⟨by omega, by omega, ?_⟩
  -- The block ends no later than the array.
  rw [h.spot_eq_add_index hunwrapped hdvd hholds]
  have hblock : home key capacity / table.capacity < capacity / table.capacity :=
    Nat.div_lt_div_of_lt_of_dvd hdvd (home_lt key hpos)
  have hblocks : table.capacity * (home key capacity / table.capacity + 1) ≤ capacity := by
    calc table.capacity * (home key capacity / table.capacity + 1)
        ≤ table.capacity * (capacity / table.capacity) := Nat.mul_le_mul_left _ hblock
      _ = capacity := Nat.mul_div_cancel' hdvd
  rw [Nat.mul_add, Nat.mul_one] at hblocks
  omega

/-- A key contends for the spot of no key that comes later in the old array. -/
theorem Valid.not_contends_spot (h : table.Valid) (hunwrapped : table.Unwrapped)
    (hdvd : table.capacity ∣ capacity) (hholds : table.slots.Holds index key)
    (hlater : table.slots.Holds other later) (hlt : index < other) :
    ¬ Contends capacity (table.spot capacity) key later := by
  intro hcontends
  rcases hcontends with ⟨hhome, hspot⟩
  -- The spot would have to lie in the block of the key, so both keys have one block.
  have hlow := Nat.div_le_div_right (c := table.capacity) hhome
  have hhigh := Nat.div_le_div_right (c := table.capacity) hspot
  rw [h.spot_div hunwrapped hdvd hlater] at hlow hhigh
  rw [h.spot_div hunwrapped hdvd hholds] at hhigh
  have hblock : home later capacity / table.capacity = home key capacity / table.capacity := by
    omega
  -- And there the spots are in the order of the old places.
  rw [h.spot_eq_add_index hunwrapped hdvd hholds, h.spot_eq_add_index hunwrapped hdvd hlater,
    hblock] at hspot
  omega

/-- Without wrapped entries, those of a table fit at every larger capacity. -/
theorem Valid.exists_fills_of_unwrapped (h : table.Valid) (hunwrapped : table.Unwrapped)
    (hdvd : table.capacity ∣ capacity) (hpos : 0 < capacity) :
    ∃ filled, Fills (Slots.blank capacity) table.slots.entries filled ∧
      filled.Within (table.spot capacity) := by
  have hsize : (Slots.blank capacity : Slots α).size = capacity := Slots.size_blank capacity
  refine exists_fills_of_spots ?_ ?_ ?_ ?_
  · exact fun index key hholds => absurd hholds (Slots.not_holds_blank capacity index key)
  · intro pair hpair
    rcases Slots.mem_entries_iff.mp hpair with ⟨index, hread⟩
    rw [hsize]
    exact h.reserves_spot hunwrapped hdvd hpos ⟨pair.2, hread⟩
  · exact fun _ _ index stored hholds => absurd hholds (Slots.not_holds_blank capacity index stored)
  · rw [hsize]
    exact Slots.pairwise_entries fun index other key value otherKey otherValue hlt hread hother =>
      h.not_contends_spot hunwrapped hdvd ⟨value, hread⟩ ⟨otherValue, hother⟩ hlt

/-- The first attempt of a rebuild takes every entry. -/
theorem Valid.refit_of_unwrapped (h : table.Valid) (hunwrapped : table.Unwrapped)
    (hdvd : table.capacity ∣ capacity) (hpos : 0 < capacity) (hlimit : capacity ≤ limit) :
    ∃ filled, refit limit table.slots.entries capacity = ([capacity], .ok filled) ∧
      filled.size = capacity ∧ filled.Within (table.spot capacity) := by
  rcases h.exists_fills_of_unwrapped hunwrapped hdvd hpos with ⟨filled, hfills, hwithin⟩
  have hfill := (placeAll_blank_eq_some_iff hpos (Slots.nodup_keys h.sound.distinct)).mpr hfills
  have hsize := size_placeAll _ _ _ hfill
  rw [Slots.size_blank] at hsize
  refine ⟨filled, ?_, hsize, hwithin⟩
  unfold refit
  rw [if_neg (Nat.not_lt.mpr hlimit), hfill]

/-- An entry that is not beyond its spot is no further from its home than it was
    in the old array. -/
theorem Valid.distance_le_of_within (h : table.Valid) (hunwrapped : table.Unwrapped)
    {filled : Slots α} (hwithin : filled.Within (table.spot filled.size))
    (hholds : table.slots.Holds index key) (hplace : filled.Holds other key) :
    distanceFrom (home key filled.size) other filled.size ≤
      distanceFrom (home key table.capacity) index table.capacity := by
  have hlt := hplace.lt
  have hi : index < table.capacity := hholds.lt
  have hnew := hwithin other key hplace
  rw [h.spot_eq_home_add hholds] at hnew
  rw [distanceFrom_eq_ite (home_lt key (by omega)) hlt, if_pos hnew.1,
    distanceFrom_eq_ite (home_lt key (by omega)) hi, if_pos (hunwrapped index key hholds)]
  omega

/-- A rebuild of a table in which no entry went around the end fits at the first
    attempt. It asks for one array, of the capacity it was given, and moves every
    entry there. No entry lies further from its home than it did before. -/
theorem rebuild_of_unwrapped (h : table.Reachable) (hunwrapped : table.Unwrapped)
    (hpow : capacity.isPowerOfTwo) (hle : table.capacity ≤ capacity) (hlimit : capacity ≤ limit) :
    let outcome := table.rebuild limit capacity
    outcome.answer = .ok table.toLayout ∧ outcome.state.capacity = capacity ∧
      requests outcome.history = [capacity] ∧
      (∀ key value, outcome.state.slots.Stores key value ↔ table.slots.Stores key value) ∧
      ∀ key index place, table.slots.Holds index key → outcome.state.slots.Holds place key →
        distanceFrom (home key capacity) place capacity ≤
          distanceFrom (home key table.capacity) index table.capacity := by
  intro outcome
  have hvalid := h.valid
  have hpos := Nat.pos_of_isPowerOfTwo hpow
  have hdvd := dvd_of_isPowerOfTwo_of_le hvalid.isPowerOfTwo hpow hle
  rcases hvalid.refit_of_unwrapped hunwrapped hdvd hpos hlimit with ⟨filled, hfit, rfl, hwithin⟩
  have hrequests : requests outcome.history = [filled.size] := by
    rw [requests_rebuild, hfit]
  have houtcome : outcome = _ := rebuild_eq_of_refit_ok (congrArg Prod.snd hfit)
  have hok : outcome.answer = .ok table.toLayout := by rw [houtcome]
  have hslots : outcome.state.slots = filled := by rw [houtcome]
  refine ⟨hok, congrArg Array.size hslots, hrequests, (hvalid.rebuild hle hpow hok).2, ?_⟩
  intro key index place hholds hplace
  rw [hslots] at hplace
  exact hvalid.distance_le_of_within hunwrapped hwithin hholds hplace

/-- Five keys of one home behind a tombstone. In twice as many slots one of them
    stays where it was at home, and four move to the other half. -/
theorem rebuild_of_unwrapped_halves :
    let keys : List UInt64 := [18, 23, 25, 69, 94, 158]
    let unwrapped := ((blank 32 : Table Nat).run (keys.map (.put 32 · 0) ++ [.remove 18])).1
    let moved := (unwrapped.rebuild 64 64).state
    unwrapped.Reachable ∧ unwrapped.Unwrapped ∧ (64).isPowerOfTwo ∧ unwrapped.capacity ≤ 64 ∧
      (unwrapped.rebuild 64 64).answer = .ok unwrapped.toLayout ∧ moved.capacity = 64 ∧
      requests (unwrapped.rebuild 64 64).history = [64] ∧
      unwrapped.slots.read 29 = .entry 158 0 ∧ moved.slots.read 59 = .entry 158 0 ∧
      distanceFrom (home 158 64) 59 64 ≤
        distanceFrom (home 158 unwrapped.capacity) 29 unwrapped.capacity := by
  intro keys unwrapped moved
  have hmade : withCapacity 32 32 = .ok (blank 32 : Table Nat) := rfl
  have hreach : unwrapped.Reachable := Reachable.run (.made hmade) _
  have hunwrapped : unwrapped.Unwrapped := by decide +kernel
  have hpow : (64).isPowerOfTwo := ⟨6, rfl⟩
  have hle : unwrapped.capacity ≤ 64 := by decide +kernel
  have hread : unwrapped.slots.read 29 = .entry 158 0 := by decide +kernel
  have hmoved : moved.slots.read 59 = .entry 158 0 := by decide +kernel
  rcases rebuild_of_unwrapped hreach hunwrapped hpow hle (le_refl 64) with
    ⟨hok, hcapacity, hrequests, _, hdistance⟩
  exact ⟨hreach, hunwrapped, hpow, hle, hok, hcapacity, hrequests, hread, hmoved,
    hdistance 158 29 59 ⟨0, hread⟩ ⟨0, hmoved⟩⟩

end Table

end BoundedProbing
