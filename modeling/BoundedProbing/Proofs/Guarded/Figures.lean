import BoundedProbing.Proofs.Distances
import BoundedProbing.Proofs.Guarded.Probe

/-!
# Guarded Statistics

The histogram, the figures and the chart of a table, as a machine works them
out.

A machine finds the distance of an entry by a difference that wraps around at
64 bits and a mask, and counts it in an array of eight. That there are eight
counts is enough because no entry of a valid table lies farther. The products
and sums that follow are bounded by the number of entries, so what they need is
a capacity that leaves some of the 64 bits free.

## Main definitions

* `Guarded.distance`, `Guarded.tally`, `Guarded.histogram`: Counting distances.
* `Guarded.totalDistance`, `Guarded.stats`: The figures.
* `Guarded.barLength`, `Guarded.chart`: The chart.

## Theorems

* `Guarded.Addressable.distance_eq`: A difference that wraps around is the
  distance.
* `Guarded.tally_eq`: Counting one distance more.
* `Table.Valid.guarded_histogram_eq`, `Table.Valid.guarded_stats_eq`,
  `Table.Valid.guarded_chart_eq`: The statistics of a valid table do not stop.
-/

namespace BoundedProbing

universe u

variable {α : Type u}

namespace Guarded

/-- How many steps forward lead from one place to another. The difference wraps
    around at 64 bits. -/
def distance (mask start index : Nat) : Nat :=
  (UInt64.ofNat index - UInt64.ofNat start).toNat &&& mask

/-- One more at a distance, if there is a count for it. -/
def tally (counts : List Nat) (distance : Nat) : Option (List Nat) :=
  counts[distance]?.bind fun count => (add count 1).map fun more => counts.set distance more

/-- Counts the distances of the entries in the slots with these indices. -/
def tallyAll (table : Table α) (mask : Nat) : List Nat → List Nat → Option (List Nat)
  | [], counts => some counts
  | index :: rest, counts =>
    (fetch table.slots index).bind fun
      | .entry key _ =>
        (home key table.capacity).bind fun start =>
          (tally counts (distance mask start index)).bind (tallyAll table mask rest)
      | _ => tallyAll table mask rest counts

/-- How many entries lie how far from their home. -/
def histogram (table : Table α) : Option Histogram :=
  (mask table.capacity).bind fun mask =>
    (tallyAll table mask (List.range table.capacity) (List.replicate probeLimit 0)).map
      Histogram.mk

/-- Adds up the distances of the entries in these bins. -/
def totalFrom (total : Nat) : List (Nat × Nat) → Option Nat
  | [] => some total
  | (distance, count) :: rest =>
    (mul distance count).bind fun product =>
      (add total product).bind fun larger => totalFrom larger rest

/-- All distances added up. -/
def totalDistance (histogram : Histogram) : Option Nat :=
  totalFrom 0 histogram.bins

/-- The figures of a table. -/
def stats (table : Table α) : Option Stats :=
  (histogram table).bind fun histogram =>
    (totalDistance histogram).map fun total =>
      ⟨table.count, table.capacity, table.tombstones, histogram.longest, total⟩

/-- The length of the bar for a count: a quotient, rounded up. -/
def barLength (count most : Nat) : Option Nat :=
  (mul count fullBar).bind fun scaled =>
    if most = 0 then none
    else if 0 < scaled % most then add (scaled / most) 1
    else some (scaled / most)

/-- The lines of the chart for these bins. -/
def chartRows (most : Nat) : List (Nat × Nat) → Option (List String)
  | [] => some []
  | (distance, count) :: rest =>
    (barLength count most).bind fun length =>
      (chartRows most rest).map fun rows =>
        ((if distance < 10 then " " else "") ++ toString distance ++ " | "
          ++ String.ofList (List.replicate length '█') ++ s!" ({count})") :: rows

/-- The lines of the chart. -/
def chart (histogram : Histogram) : Option (List String) :=
  if histogram.most = 0 then some ["probe histogram: empty"]
  else chartRows histogram.most histogram.bins

/-- A difference that wraps around at 64 bits, masked, is the distance. -/
theorem Addressable.distance_eq {capacity start index : Nat} (h : Addressable capacity)
    (hs : start < capacity) (hi : index < capacity) :
    distance (capacity - 1) start index = distanceFrom start index capacity := by
  have hlt := h.lt_size
  -- The size of the words is a multiple of the capacity.
  have hdvd : capacity ∣ 2 ^ 64 := by
    rcases h.isPowerOfTwo with ⟨exponent, rfl⟩
    exact Nat.pow_dvd_pow 2 (Nat.le_of_lt ((Nat.pow_lt_pow_iff_right (by omega)).mp hlt))
  rcases hdvd with ⟨times, htimes⟩
  have hwrap : 2 ^ 64 - start + index = index + capacity - start + capacity * (times - 1) := by
    have hpos : 0 < times := Nat.pos_of_mul_pos_left (htimes ▸ Nat.two_pow_pos 64)
    have hsplit : capacity * times = capacity + capacity * (times - 1) := by
      rw [Nat.mul_sub_one, Nat.add_sub_cancel' (Nat.le_mul_of_pos_right capacity hpos)]
    omega
  unfold distance distanceFrom
  rw [h.and_mask, UInt64.toNat_sub, UInt64.toNat_ofNat_of_lt' (Nat.lt_trans hs hlt),
    UInt64.toNat_ofNat_of_lt' (Nat.lt_trans hi hlt), Nat.mod_mod_of_dvd _ ⟨times, htimes⟩, hwrap,
    Nat.add_mul_mod_self_left]

/-- A short distance more is counted, if the number of distances so far leaves
    room for one. -/
theorem tally_eq {seen : List Nat} {distance : Nat} (hd : distance < probeLimit)
    (hbits : seen.length + 1 < UInt64.size) :
    tally (Histogram.ofDistances seen).counts distance =
      some (Histogram.ofDistances (seen ++ [distance])).counts := by
  have hcount : seen.count distance + 1 < UInt64.size := by
    have hle := List.count_le_length (a := distance) (l := seen)
    omega
  unfold tally Histogram.ofDistances
  rw [List.getElem?_map, List.getElem?_range hd, Option.map_some, Option.bind_some,
    add_eq hcount, Option.map_some, Option.some.injEq]
  refine List.ext_getElem (by simp only [List.length_set, List.length_map]) fun other ho _ => ?_
  rw [List.getElem_set, List.getElem_map, List.getElem_map, List.getElem_range, List.count_append,
    List.count_singleton]
  by_cases hat : distance = other
  · rw [if_pos hat, hat, if_pos (beq_self_eq_true other)]
  · rw [if_neg hat, if_neg (by rwa [beq_iff_eq]), Nat.add_zero]

/-- Slots with short distances are counted. -/
theorem Addressable.tallyAll_eq {table : Table α} (h : Addressable table.capacity)
    {indices seen : List Nat} (hin : ∀ index ∈ indices, index < table.capacity)
    (hshort : ∀ distance ∈ indices.filterMap table.distanceAt, distance < probeLimit)
    (hbits : (seen ++ indices.filterMap table.distanceAt).length < UInt64.size) :
    tallyAll table (table.capacity - 1) indices (Histogram.ofDistances seen).counts =
      some (Histogram.ofDistances (seen ++ indices.filterMap table.distanceAt)).counts := by
  -- What has been counted is the histogram of the distances seen so far.
  induction indices generalizing seen with
  | nil => rw [List.filterMap_nil, List.append_nil, tallyAll]
  | cons index rest ih =>
      have hi : index < table.slots.size := hin index List.mem_cons_self
      have hrest : ∀ later ∈ rest, later < table.capacity :=
        fun later hlater => hin later (List.mem_cons_of_mem _ hlater)
      have hskip : table.distanceAt index = none →
          tallyAll table (table.capacity - 1) rest (Histogram.ofDistances seen).counts =
            some (Histogram.ofDistances
              (seen ++ (index :: rest).filterMap table.distanceAt)).counts := by
        intro hat
        rw [List.filterMap_cons_none hat] at hshort hbits ⊢
        exact ih hrest hshort hbits
      rw [tallyAll, fetch_eq hi, Option.bind_some]
      cases hread : table.slots.read index with
      | empty => exact hskip (by rw [Table.distanceAt, hread])
      | tombstone => exact hskip (by rw [Table.distanceAt, hread])
      | entry key value =>
          have hat : table.distanceAt index = some
              (distanceFrom (BoundedProbing.home key table.capacity) index table.capacity) := by
            rw [Table.distanceAt, hread]
          rw [List.filterMap_cons_some hat] at hshort hbits ⊢
          rw [List.append_cons] at hbits ⊢
          have hroom : seen.length + 1 < UInt64.size := by
            rw [List.length_append, List.length_append, List.length_singleton] at hbits
            omega
          simp only [h.home_eq, Option.bind_some, h.distance_eq (home_lt key h.pos) hi,
            tally_eq (hshort _ List.mem_cons_self) hroom]
          exact ih hrest (fun later hlater => hshort later (List.mem_cons_of_mem _ hlater)) hbits

/-- Bins are added up if the sum has 64 bits. -/
theorem totalFrom_eq {bins : List (Nat × Nat)} {total : Nat}
    (hbits : total + (bins.map fun bin => bin.1 * bin.2).sum < UInt64.size) :
    totalFrom total bins = some (total + (bins.map fun bin => bin.1 * bin.2).sum) := by
  induction bins generalizing total with
  | nil => rfl
  | cons bin rest ih =>
      rcases bin with ⟨distance, count⟩
      rw [List.map_cons, List.sum_cons, ← Nat.add_assoc] at hbits ⊢
      -- No sum on the way is greater than the last.
      rw [totalFrom, mul_eq (by dsimp only at hbits; omega), Option.bind_some,
        add_eq (by dsimp only at hbits; omega), Option.bind_some]
      exact ih hbits

theorem totalDistance_eq {histogram : Histogram} (hbits : histogram.totalDistance < UInt64.size) :
    totalDistance histogram = some histogram.totalDistance := by
  rw [Histogram.totalDistance_eq_sum, ← Nat.zero_add (List.sum _)] at hbits ⊢
  exact totalFrom_eq hbits

/-- A quotient is rounded up by adding one to it, or by adding to the dividend. -/
theorem barLength_eq {count most : Nat} (hbits : count * fullBar < UInt64.size)
    (hmost : 0 < most) : barLength count most = some (BoundedProbing.barLength count most) := by
  have hsplit := Nat.mod_add_div (count * fullBar) most
  have hlt := Nat.mod_lt (count * fullBar) hmost
  have hle := Nat.le_mul_of_pos_left (count * fullBar / most) hmost
  unfold barLength BoundedProbing.barLength
  rw [mul_eq hbits, Option.bind_some, if_neg (Nat.ne_of_gt hmost)]
  by_cases hrest : 0 < count * fullBar % most
  · have hshift : count * fullBar + most - 1 =
        count * fullBar % most - 1 + most * (count * fullBar / most + 1) := by
      rw [Nat.mul_add_one]
      omega
    have hless : (count * fullBar % most - 1) / most = 0 := Nat.div_eq_of_lt (by omega)
    rw [if_pos hrest, add_eq (by omega), hshift, Nat.add_mul_div_left _ _ hmost, hless,
      Nat.zero_add]
  · have hshift : count * fullBar + most - 1 = most - 1 + most * (count * fullBar / most) := by
      omega
    have hless : (most - 1) / most = 0 := Nat.div_eq_of_lt (by omega)
    rw [if_neg hrest, hshift, Nat.add_mul_div_left _ _ hmost, hless, Nat.zero_add]

theorem chartRows_eq {most : Nat} {bins : List (Nat × Nat)} (hmost : 0 < most)
    (hbits : ∀ bin ∈ bins, bin.2 * fullBar < UInt64.size) :
    chartRows most bins =
      some (bins.map fun (distance, count) => Histogram.chartRow most distance count) := by
  induction bins with
  | nil => rfl
  | cons bin rest ih =>
      rcases bin with ⟨distance, count⟩
      rw [chartRows, barLength_eq (hbits _ List.mem_cons_self) hmost, Option.bind_some,
        ih fun later hlater => hbits later (List.mem_cons_of_mem _ hlater), Option.map_some]
      rfl

theorem chart_eq {histogram : Histogram}
    (hbits : ∀ bin ∈ histogram.bins, bin.2 * fullBar < UInt64.size) :
    chart histogram = some histogram.chart := by
  unfold chart Histogram.chart
  by_cases hnone : histogram.most = 0
  · rw [if_pos hnone, if_pos hnone]
  · rw [if_neg hnone, if_neg hnone]
    exact chartRows_eq (Nat.pos_of_ne_zero hnone) hbits

end Guarded

namespace Table

variable {table : Table α}

/-- The histogram of a valid table does not stop. -/
theorem Valid.guarded_histogram_eq (h : table.Valid) (hsize : Guarded.Addressable table.capacity) :
    Guarded.histogram table = some table.histogram := by
  have hshort : ∀ distance ∈ table.distances, distance < probeLimit := fun _ => h.distance_lt
  have hbits : ([] ++ table.distances).length < UInt64.size := by
    rw [List.nil_append, h.length_distances]
    exact Nat.lt_of_succ_lt (h.count_lt_size hsize)
  rw [distances_eq_filterMap] at hshort hbits
  have htally := hsize.tallyAll_eq (fun index => List.mem_range.mp) hshort hbits
  rw [List.nil_append, ← distances_eq_filterMap] at htally
  unfold Guarded.histogram
  rw [hsize.mask_eq, Option.bind_some]
  exact (congrArg (Option.map Histogram.mk) htally).trans rfl

/-- The figures of a valid table do not stop, if its capacity leaves room for
    the distances of the entries. -/
theorem Valid.guarded_stats_eq (h : table.Valid) (hsize : Guarded.Addressable table.capacity)
    (hroom : (probeLimit - 1) * table.count < UInt64.size) :
    Guarded.stats table = some table.stats := by
  have htotal := Guarded.totalDistance_eq (Nat.lt_of_le_of_lt h.totalDistance_le hroom)
  unfold Guarded.stats
  rw [h.guarded_histogram_eq hsize, Option.bind_some, htotal, Option.map_some]
  rfl

/-- The chart of a valid table does not stop, if its capacity leaves room for
    scaling the count of entries. -/
theorem Valid.guarded_chart_eq (h : table.Valid)
    (hroom : table.count * fullBar < UInt64.size) :
    Guarded.chart table.histogram = some table.histogram.chart := by
  refine Guarded.chart_eq fun bin hmem => ?_
  rw [histogram, Histogram.bins_ofDistances, List.mem_map] at hmem
  rcases hmem with ⟨distance, _, rfl⟩
  exact Nat.lt_of_le_of_lt (Nat.mul_le_mul_right fullBar (h.count_distances_le distance)) hroom

end Table

end BoundedProbing
