import BoundedProbing.Histogram
import BoundedProbing.Table.Basic
import BoundedProbing.Text.Places

/-!
# Statistics of a Table

How full a table is, and how far its entries lie from their homes.

The distance of an entry is counted forward from its home and around the end of
the array, which is the way a search goes. The two ratios, entries per slot and
distance per entry, are the only floating-point numbers of the library. They
are computed last, from exact counts.

## Main definitions

* `distanceFrom`: How far a place lies past another, cyclically.
* `Table.distanceAt`, `Table.distances`, `Table.histogram`: The distances of one
  and of all entries.
* `Stats`, `Table.stats`: The figures.
* `Stats.report`: The figures as lines of text.
-/

namespace BoundedProbing

universe u

variable {α : Type u}

/-- How many steps forward, around the end of the array, lead from one place to
    another. -/
def distanceFrom (start index capacity : Nat) : Nat :=
  (index + capacity - start) % capacity

/-- The distance from home of the entry in a slot, if there is one. -/
def Table.distanceAt (table : Table α) (index : Nat) : Option Nat :=
  match table.slots.read index with
  | .entry key _ => some (distanceFrom (home key table.capacity) index table.capacity)
  | _ => none

/-- The distance of each entry from its home, in slot order. -/
def Table.distances (table : Table α) : List Nat :=
  ((Array.range table.capacity).filterMap table.distanceAt).toList

/-- How many entries lie how far from their home. -/
def Table.histogram (table : Table α) : Histogram :=
  Histogram.ofDistances table.distances

structure Stats where
  count : Nat
  capacity : Nat
  tombstones : Nat
  /-- The longest distance of an entry from its home. -/
  longest : Nat
  /-- The distances of all entries added up. -/
  totalDistance : Nat
  deriving Repr, DecidableEq

def Table.stats (table : Table α) : Stats :=
  let histogram := table.histogram
  ⟨table.count, table.capacity, table.tombstones, histogram.longest, histogram.totalDistance⟩

namespace Stats

/-- Entries per slot. -/
def loadFactor (stats : Stats) : Float :=
  stats.count.toFloat / stats.capacity.toFloat

/-- The mean distance of an entry from its home, 0 if there is no entry. -/
def meanDistance (stats : Stats) : Float :=
  if stats.count = 0 then 0.0 else stats.totalDistance.toFloat / stats.count.toFloat

/-- A ratio as a percentage with two decimal places, the sign left off. -/
def percentage (ratio : Float) : String :=
  Text.twoPlaces (ratio * 100.0)

def report (stats : Stats) : List String :=
  -- The ratio is rounded to a double before it is scaled, and again after.
  let load := percentage stats.loadFactor
  let mean := Text.twoPlaces stats.meanDistance
  ["=== Hash Table Debug Statistics ===",
    s!"Population: {stats.count}/{stats.capacity} ({load}% load factor)",
    s!"Tombstones: {stats.tombstones}",
    s!"Probe length: {mean} mean, {stats.longest} longest"]

end Stats

end BoundedProbing
