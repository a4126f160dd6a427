import Mathlib.Data.Nat.Bitwise
import BoundedProbing.Proofs.Saturation

/-!
# Guarded Searches

The searches of a table as a machine carries them out, step by step.

The library reads an array at any index and subtracts any two numbers. A
machine stops where an array has no such slot, where a difference would be less
than zero, and where a sum or product needs more than 64 bits. The definitions
in `Guarded` are written with such steps only. Each of them answers with
nothing if it stops, and otherwise with the result. They also find a place in
the way a machine does. The remainder by a capacity is a mask of its low bits,
and the next place of a window is worked out from the one before it.

A guarded search agrees with the search of the library in every array whose
size is a power of two of 64 bits, whatever its slots hold. That a search never
stops is one half of this, and that masks are remainders is the other.

## Main definitions

* `Guarded.fetch`, `Guarded.store`: Reading and writing a slot that is there.
* `Guarded.add`, `Guarded.sub`, `Guarded.mul`: Arithmetic in 64 bits.
* `Guarded.Addressable`: Sizes of arrays that can be searched.
* `Guarded.home`, `Guarded.following`: Places by masks.
* `Guarded.locate`, `Guarded.place`, `Guarded.saturated`: The searches.

## Theorems

* `Guarded.Addressable.home_eq`, `Guarded.Addressable.following_eq`: Masks are
  remainders.
* `Guarded.Addressable.locate_eq`, `Guarded.Addressable.place_eq`,
  `Guarded.Addressable.saturated_eq`: No search stops, and each finds what the
  library's search finds.
* `Table.Valid.count_lt_size`, `Table.Valid.tombstones_lt_size`: The counts of a
  valid table can be raised by one.
-/

namespace BoundedProbing

universe u

variable {α : Type u}

namespace Guarded

/-- The slot at an index, if the array has one there. -/
def fetch (slots : Slots α) (index : Nat) : Option (Slot α) :=
  slots[index]?

/-- The array with another slot at an index, if the array has one there. -/
def store (slots : Slots α) (index : Nat) (slot : Slot α) : Option (Slots α) :=
  if index < slots.size then some (slots.write index slot) else none

/-- The sum, if it has 64 bits. -/
def add (left right : Nat) : Option Nat :=
  if left + right < UInt64.size then some (left + right) else none

/-- The difference, if it is not below zero. -/
def sub (left right : Nat) : Option Nat :=
  if right ≤ left then some (left - right) else none

/-- The product, if it has 64 bits. -/
def mul (left right : Nat) : Option Nat :=
  if left * right < UInt64.size then some (left * right) else none

/-- The bits that tell the places of an array apart. -/
def mask (capacity : Nat) : Option Nat :=
  sub capacity 1

/-- The place a key asks for first. -/
def home (key : UInt64) (capacity : Nat) : Option Nat :=
  (mask capacity).map fun mask => (mix key).toNat &&& mask

/-- The place after a place, around the end of the array. -/
def following (mask index : Nat) : Option Nat :=
  (add index 1).map fun next => next &&& mask

/-- The look-up, with this many places still to examine from this one on. -/
def locateSteps (slots : Slots α) (key : UInt64) (mask : Nat) : Nat → Nat → Option (Option Nat)
  | 0, _ => some none
  | steps + 1, index =>
    (fetch slots index).bind fun
      | .empty => some none
      | .tombstone => (following mask index).bind (locateSteps slots key mask steps)
      | .entry stored _ =>
        if stored = key then some (some index)
        else (following mask index).bind (locateSteps slots key mask steps)

/-- Where a key is stored. -/
def locate (slots : Slots α) (key : UInt64) : Option (Option Nat) :=
  (mask slots.size).bind fun mask =>
    (home key slots.size).bind (locateSteps slots key mask probeLimit)

/-- The search of an insertion, with this many places still to examine. The
    first tombstone that was passed is remembered. -/
def placeSteps (slots : Slots α) (key : UInt64) (mask : Nat) :
    Nat → Nat → Option Nat → Option Place
  | 0, _, some index => some (.vacant index)
  | 0, _, none => some .exhausted
  | steps + 1, index, reusable =>
    (fetch slots index).bind fun
      | .empty => some (.vacant (reusable.getD index))
      | .tombstone => (following mask index).bind fun next =>
        placeSteps slots key mask steps next (some (reusable.getD index))
      | .entry stored _ =>
        if stored = key then some (.found index)
        else (following mask index).bind fun next => placeSteps slots key mask steps next reusable

/-- Where a key is stored or may be written. -/
def place (slots : Slots α) (key : UInt64) : Option Place :=
  (mask slots.size).bind fun mask =>
    (home key slots.size).bind fun start => placeSteps slots key mask probeLimit start none

/-- How many of the places at these distances hold a key that mixes to the
    word. -/
def countSharing (slots : Slots α) (word : UInt32) (mask start : Nat) : List Nat → Option Nat
  | [] => some 0
  | distance :: farther =>
    (add start distance).bind fun place =>
      (fetch slots (place &&& mask)).bind fun slot =>
        (countSharing slots word mask start farther).map fun count =>
          match slot with
          | .entry stored _ => if mix stored = word then count + 1 else count
          | _ => count

/-- Whether eight places of the key's window hold keys that mix alike. -/
def saturated (slots : Slots α) (key : UInt64) : Option Bool :=
  (mask slots.size).bind fun mask =>
    (home key slots.size).bind fun start =>
      (countSharing slots (mix key) mask start (List.range (min probeLimit slots.size))).map
        fun count => count == probeLimit

section Steps

variable {slots : Slots α} {index left right : Nat}

theorem fetch_eq (h : index < slots.size) : fetch slots index = some (slots.read index) := by
  rw [fetch, Array.getElem?_eq_getElem h, Slots.read_eq_getElem h]

theorem store_eq (h : index < slots.size) (slot : Slot α) :
    store slots index slot = some (slots.write index slot) :=
  if_pos h

theorem add_eq (h : left + right < UInt64.size) : add left right = some (left + right) :=
  if_pos h

theorem sub_eq (h : right ≤ left) : sub left right = some (left - right) :=
  if_pos h

theorem mul_eq (h : left * right < UInt64.size) : mul left right = some (left * right) :=
  if_pos h

end Steps

/-- A power of two of 64 bits. An array of such a size can be searched. -/
structure Addressable (capacity : Nat) : Prop where
  isPowerOfTwo : capacity.isPowerOfTwo
  lt_size : capacity < UInt64.size

namespace Addressable

variable {capacity index : Nat} {slots : Slots α} {key : UInt64}

theorem pos (h : Addressable capacity) : 0 < capacity :=
  Nat.pos_of_isPowerOfTwo h.isPowerOfTwo

/-- The greatest power of two of 64 bits is half of what 64 bits can count. -/
theorem two_mul_le_size (h : Addressable capacity) : 2 * capacity ≤ UInt64.size :=
  two_mul_le_of_isPowerOfTwo h.isPowerOfTwo ⟨64, rfl⟩ h.lt_size

theorem mask_eq (h : Addressable capacity) : mask capacity = some (capacity - 1) :=
  sub_eq h.pos

/-- Masking the low bits is dividing with remainder. -/
theorem and_mask (h : Addressable capacity) (number : Nat) :
    number &&& (capacity - 1) = number % capacity := by
  rcases h.isPowerOfTwo with ⟨exponent, rfl⟩
  exact Nat.and_two_pow_sub_one_eq_mod number exponent

theorem home_eq (h : Addressable capacity) (key : UInt64) :
    home key capacity = some (BoundedProbing.home key capacity) := by
  unfold home
  rw [h.mask_eq, Option.map_some, h.and_mask, BoundedProbing.home]

theorem following_eq (h : Addressable capacity) (hi : index < capacity) :
    following (capacity - 1) index = some ((index + 1) % capacity) := by
  have hbits : index + 1 < UInt64.size := Nat.lt_of_le_of_lt hi h.lt_size
  unfold following
  rw [add_eq hbits, Option.map_some, h.and_mask]

theorem following_ahead (h : Addressable capacity) (start distance : Nat) :
    following (capacity - 1) (ahead start distance capacity) =
      some (ahead start (distance + 1) capacity) := by
  rw [h.following_eq (ahead_lt h.pos start distance), ahead_succ]

/-- The steps of a look-up, from the place at a distance on. -/
theorem locateSteps_eq (h : Addressable slots.size) (key : UInt64) (start steps distance : Nat) :
    locateSteps slots key (slots.size - 1) steps (ahead start distance slots.size) =
      some (locateFrom slots key start (List.range' distance steps)) := by
  -- Each step leads from the place at one distance to that at the next.
  induction steps generalizing distance with
  | zero => rfl
  | succ steps ih =>
      rw [List.range'_succ, locateSteps, fetch_eq (ahead_lt h.pos start distance),
        Option.bind_some, locateFrom, h.following_ahead, Option.bind_some, ih]
      cases slots.read (ahead start distance slots.size) with
      | empty => rfl
      | tombstone => rfl
      | entry stored value =>
          by_cases heq : stored = key
          · simp only [if_pos heq]
          · simp only [if_neg heq]

/-- A guarded look-up does not stop, and finds what the look-up finds. -/
theorem locate_eq (h : Addressable slots.size) (key : UInt64) :
    locate slots key = some (BoundedProbing.locate slots key) := by
  have hsteps := h.locateSteps_eq key (BoundedProbing.home key slots.size) probeLimit 0
  rw [ahead_zero (home_lt key h.pos), ← List.range_eq_range'] at hsteps
  unfold locate
  rw [h.mask_eq, h.home_eq, Option.bind_some, Option.bind_some, hsteps]
  rfl

theorem placeSteps_eq (h : Addressable slots.size) (key : UInt64) (start steps distance : Nat)
    (reusable : Option Nat) :
    placeSteps slots key (slots.size - 1) steps (ahead start distance slots.size) reusable =
      some (placeFrom slots key start reusable (List.range' distance steps)) := by
  induction steps generalizing distance reusable with
  | zero => cases reusable <;> rfl
  | succ steps ih =>
      rw [List.range'_succ, placeSteps, fetch_eq (ahead_lt h.pos start distance),
        Option.bind_some, placeFrom, h.following_ahead]
      simp only [Option.bind_some, ih]
      cases slots.read (ahead start distance slots.size) with
      | empty => rfl
      | tombstone => rfl
      | entry stored value =>
          by_cases heq : stored = key
          · simp only [if_pos heq]
          · simp only [if_neg heq]

/-- The guarded search of an insertion does not stop, and comes to the same. -/
theorem place_eq (h : Addressable slots.size) (key : UInt64) :
    place slots key = some (BoundedProbing.place slots key) := by
  have hsteps := h.placeSteps_eq key (BoundedProbing.home key slots.size) probeLimit 0 none
  rw [ahead_zero (home_lt key h.pos), ← List.range_eq_range'] at hsteps
  unfold place
  rw [h.mask_eq, h.home_eq, Option.bind_some, Option.bind_some, hsteps]
  rfl

theorem countSharing_eq (h : Addressable slots.size) (word : UInt32) {start : Nat}
    (hs : start < slots.size) {distances : List Nat}
    (hnear : ∀ distance ∈ distances, distance < probeLimit) :
    countSharing slots word (slots.size - 1) start distances =
      some (distances.countP fun distance =>
        slots.shares word (ahead start distance slots.size)) := by
  induction distances with
  | nil => rfl
  | cons distance farther ih =>
      have hbits : start + distance < UInt64.size := by
        have hdistance := hnear distance List.mem_cons_self
        have hhalf := h.two_mul_le_size
        have hsize : UInt64.size = 2 ^ 64 := rfl
        unfold probeLimit at hdistance
        omega
      have hplace : (start + distance) &&& (slots.size - 1) = ahead start distance slots.size :=
        h.and_mask (start + distance)
      rw [countSharing, add_eq hbits, Option.bind_some, hplace,
        fetch_eq (ahead_lt h.pos start distance), Option.bind_some,
        ih fun later hlater => hnear later (List.mem_cons_of_mem _ hlater), Option.map_some,
        List.countP_cons]
      unfold Slots.shares
      cases slots.read (ahead start distance slots.size) with
      | empty => rfl
      | tombstone => rfl
      | entry stored value =>
          by_cases hmix : mix stored = word
          · simp only [if_pos hmix, beq_iff_eq]
          · simp only [if_neg hmix, beq_iff_eq, Nat.add_zero]

/-- The guarded inspection of a window does not stop, and says the same. -/
theorem saturated_eq (h : Addressable slots.size) (key : UInt64) :
    saturated slots key = some (BoundedProbing.saturated slots key) := by
  have hnear : ∀ distance ∈ List.range (min probeLimit slots.size), distance < probeLimit := by
    intro distance hmem
    have hlt := List.mem_range.mp hmem
    omega
  have hunfold : BoundedProbing.saturated slots key =
      (decide (probeLimit ≤ slots.size) &&
        (windowOf slots key).all (slots.shares (mix key))) := rfl
  unfold saturated
  rw [h.mask_eq, h.home_eq, Option.bind_some, Option.bind_some,
    h.countSharing_eq (mix key) (home_lt key h.pos) hnear, Option.map_some, hunfold,
    Option.some.injEq, Bool.eq_iff_iff, beq_iff_eq, Bool.and_eq_true, decide_eq_true_iff]
  by_cases hsize : probeLimit ≤ slots.size
  · -- All eight places are counted.
    have hall := List.countP_eq_length (p := fun distance =>
      slots.shares (mix key) (ahead (BoundedProbing.home key slots.size) distance slots.size))
      (l := List.range probeLimit)
    rw [List.length_range] at hall
    rw [Nat.min_eq_left hsize, and_iff_right hsize, hall, windowOf, window, List.all_map,
      List.all_eq_true]
    rfl
  · -- Fewer places than eight are looked at.
    have hle := List.countP_le_length (p := fun distance =>
      slots.shares (mix key) (ahead (BoundedProbing.home key slots.size) distance slots.size))
      (l := List.range (min probeLimit slots.size))
    rw [List.length_range] at hle
    constructor
    · intro heq
      omega
    · exact fun hboth => absurd hboth.1 hsize

end Addressable

end Guarded

namespace Table

variable {table : Table α}

/-- Half of the slots are free, so the counts have 64 bits if the capacity has. -/
theorem Valid.count_lt_size (h : table.Valid) (hsize : Guarded.Addressable table.capacity) :
    table.count + 1 < UInt64.size := by
  have hload := h.two_mul_count_le
  have hcapacity := hsize.two_mul_le_size
  have hbits : UInt64.size = 2 ^ 64 := rfl
  omega

/-- There are no more tombstones than slots, so one more has 64 bits if the
    capacity has. -/
theorem Valid.tombstones_lt_size (h : table.Valid) (hsize : Guarded.Addressable table.capacity) :
    table.tombstones + 1 < UInt64.size := by
  have hle : table.tombstones ≤ table.capacity := by
    rw [h.tombstones_eq]
    exact Array.countP_le_size
  have hcapacity := hsize.two_mul_le_size
  have hbits : UInt64.size = 2 ^ 64 := rfl
  omega

end Table

end BoundedProbing
