import BoundedProbing.Mix
import BoundedProbing.Slot

/-!
# Probing

How a key is looked for in an array of slots.

A key may only be stored in its *window*: the eight places that start at its
home and go on cyclically. In an array of fewer than eight slots the window
goes round and names some places more than once, which does no harm.

There are two searches. A look-up wants the key and gives up at the first
empty place. An insertion also wants a place to put the key, and prefers the
first tombstone it passed to an empty place further on, but only once the key
is known to be absent. The two are written separately, each as a recursion
along the distances from home, nearest first, so that a search works out no
place beyond the one that settles it.

## Main definitions

* `probeLimit`: The length of a window.
* `offsets`, `ahead`: The distances from home, and the place at a distance.
* `window`: The places of a window, in the order they are examined.
* `locate`: Where a key is stored.
* `Place`, `place`: Where a key is stored or may be written.
* `saturated`: Whether a window is full of keys that mix alike.

## Theorems

* `length_window`: Every window has eight places.
* `lt_of_mem_window`: A window stays inside its array.
-/

namespace BoundedProbing

universe u

variable {α : Type u}

/-- How many places are examined for a key. -/
def probeLimit : Nat := 8

/-- The distances from home at which a key may be stored, nearest first. -/
def offsets : List Nat := List.range probeLimit

/-- The place at a distance from a start, around the end of the array. -/
@[inline] def ahead (start distance capacity : Nat) : Nat :=
  (start + distance) % capacity

/-- The places examined from a given start, cyclically. -/
def window (start capacity : Nat) : List Nat :=
  offsets.map fun distance => ahead start distance capacity

/-- The window of a key in an array of slots. -/
def windowOf (slots : Slots α) (key : UInt64) : List Nat :=
  window (home key slots.size) slots.size

/-- The first place at one of the given distances that holds the key, none if
    an empty place comes before it. -/
def locateFrom (slots : Slots α) (key : UInt64) (start : Nat) : List Nat → Option Nat
  | [] => none
  | distance :: farther =>
    let index := ahead start distance slots.size
    match slots.read index with
    | .empty => none
    | .tombstone => locateFrom slots key start farther
    | .entry stored _ =>
      if stored = key then some index else locateFrom slots key start farther

/-- Where a key is stored. -/
def locate (slots : Slots α) (key : UInt64) : Option Nat :=
  locateFrom slots key (home key slots.size) offsets

/-- What the search of an insertion comes to. -/
inductive Place where
  /-- The key is stored at this place. -/
  | found (index : Nat)
  /-- The key is absent and may be written at this place. -/
  | vacant (index : Nat)
  /-- Every place of the window is taken by another key. -/
  | exhausted
  deriving Repr, DecidableEq, Inhabited

/-- The search of an insertion along the places at the given distances. The
    tombstone remembered in `reusable` is the first that was passed. -/
def placeFrom (slots : Slots α) (key : UInt64) (start : Nat) (reusable : Option Nat) :
    List Nat → Place
  | [] =>
    match reusable with
    | some index => .vacant index
    | none => .exhausted
  | distance :: farther =>
    let index := ahead start distance slots.size
    match slots.read index with
    | .empty => .vacant (reusable.getD index)
    | .tombstone => placeFrom slots key start (some (reusable.getD index)) farther
    | .entry stored _ =>
      if stored = key then .found index else placeFrom slots key start reusable farther

/-- Where a key is stored or may be written. -/
def place (slots : Slots α) (key : UInt64) : Place :=
  placeFrom slots key (home key slots.size) none offsets

/-- Whether all eight places of the key's window are taken by keys that mix to
    the same word. Such keys share their window at every capacity, so a larger
    array would not help. Below eight slots the window has fewer than eight
    different places and is never saturated. -/
def saturated (slots : Slots α) (key : UInt64) : Bool :=
  probeLimit ≤ slots.size && (windowOf slots key).all fun index =>
    match slots.read index with
    | .entry stored _ => mix stored == mix key
    | _ => false

@[simp] theorem length_window (start capacity : Nat) :
    (window start capacity).length = probeLimit := by
  simp only [window, offsets, List.length_map, List.length_range]

/-- A window stays inside its array. -/
theorem lt_of_mem_window {start capacity index : Nat} (h : 0 < capacity)
    (hi : index ∈ window start capacity) : index < capacity := by
  simp only [window, List.mem_map] at hi
  rcases hi with ⟨distance, _, rfl⟩
  exact Nat.mod_lt _ h

end BoundedProbing
