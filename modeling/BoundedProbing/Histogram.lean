import BoundedProbing.Probe

/-!
# Histograms of Distances

How many entries lie how far from their home.

An entry lies fewer than eight places past its home, so eight counts say all.
They are also drawn as a chart of horizontal bars: the most frequent distance
gets a bar of full length and the others get their share of it, rounded up, so
that no distance that occurs is left without a bar.

## Main definitions

* `Histogram`: The counts, with `Histogram.ofDistances`.
* `Histogram.longest`, `Histogram.totalDistance`: What the counts tell.
* `barLength`: The length of a bar.
* `Histogram.chart`: The lines of the chart.
-/

namespace BoundedProbing

/-- The number of entries at each distance from home. -/
structure Histogram where
  /-- The counts for the distances 0, 1, and so on. -/
  counts : List Nat
  deriving Repr, DecidableEq

def fullBar : Nat := 60

/-- The length of the bar for a count, where `most` is the greatest count. -/
def barLength (count most : Nat) : Nat :=
  (count * fullBar + most - 1) / most

namespace Histogram

/-- Counts how often each distance below the probe limit occurs. -/
def ofDistances (distances : List Nat) : Histogram :=
  ⟨(List.range probeLimit).map fun distance => distances.count distance⟩

def bins (histogram : Histogram) : List (Nat × Nat) :=
  histogram.counts.zipIdx.map fun (count, distance) => (distance, count)

def most (histogram : Histogram) : Nat :=
  histogram.counts.foldl max 0

/-- The longest distance that occurs, 0 if none does. -/
def longest (histogram : Histogram) : Nat :=
  histogram.bins.foldl (fun far (distance, count) => if 0 < count then distance else far) 0

/-- All distances added up. -/
def totalDistance (histogram : Histogram) : Nat :=
  histogram.bins.foldl (fun total (distance, count) => total + distance * count) 0

/-- One line of the chart: the distance in two columns, the bar, the count. -/
def chartRow (most distance count : Nat) : String :=
  (if distance < 10 then " " else "") ++ toString distance ++ " | "
    ++ String.ofList (List.replicate (barLength count most) '█') ++ s!" ({count})"

def chart (histogram : Histogram) : List String :=
  if histogram.most = 0 then ["probe histogram: empty"]
  else histogram.bins.map fun (distance, count) => chartRow histogram.most distance count

end Histogram

end BoundedProbing
