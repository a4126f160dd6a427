import Mathlib.Algebra.Order.Floor.Div
import BoundedProbing.Proofs.Guarded.Figures
import BoundedProbing.Proofs.Statistics

/-!
# A Chart that does not Mislead

What the chart of a table's distances shows, and how long its bars are.

A bar is a count divided by the greatest count, scaled to sixty blocks and
rounded up. A quotient that is rounded up is at most a number exactly if the
dividend is at most that many divisors. This one law settles all that a reader
of the chart relies on: which bars are missing, which are full, that none is
longer, and that bars are in the order of their counts.

The counts of a valid table add up to the number of its entries, so the greatest
of them is zero only if there are none, and nothing is ever divided by zero.

## Theorems

* `barLength_le_iff`: How long a bar is.
* `barLength_eq_zero_iff`, `barLength_eq_full_iff`, `barLength_le_full`,
  `barLength_mono`: What follows for the eye.
* `Histogram.most_eq_max?`, `Histogram.most_eq_zero_iff`: The greatest count.
* `Table.Valid.sum_counts_histogram`: The counts add up to the entries.
* `Table.Valid.chart_eq_empty_iff`: When the chart is reported empty.
* `Table.Valid.chart_eq_rows`: What it looks like otherwise.
* `Table.chart_shows_counts`: The chart of a reachable table.
-/

namespace BoundedProbing

universe u

variable {α : Type u}

section Bars

variable {count other most : Nat}

theorem barLength_eq_ceilDiv (count most : Nat) : barLength count most = (60 * count) ⌈/⌉ most := by
  rw [Nat.ceilDiv_eq_add_pred_div, barLength, fullBar, Nat.mul_comm]

/-- A quotient rounded up is at most a number exactly if the dividend is at most
    that many divisors. -/
theorem barLength_le_iff (hmost : 0 < most) (length : Nat) :
    barLength count most ≤ length ↔ 60 * count ≤ most * length := by
  rw [barLength_eq_ceilDiv, ceilDiv_le_iff_le_mul hmost]

/-- Only a count of zero has no bar. -/
theorem barLength_eq_zero_iff (hmost : 0 < most) : barLength count most = 0 ↔ count = 0 := by
  rw [← Nat.le_zero, barLength_le_iff hmost]
  omega

theorem barLength_le_full (hmost : 0 < most) (hle : count ≤ most) :
    barLength count most ≤ fullBar := by
  rw [barLength_le_iff hmost, fullBar]
  omega

/-- A bar is full if the count is more than 59 of 60 parts of the greatest. -/
theorem barLength_eq_full_iff (hmost : 0 < most) (hle : count ≤ most) :
    barLength count most = fullBar ↔ 59 * most < count * 60 := by
  have hfull := barLength_le_full hmost hle
  have hless : barLength count most ≤ 59 ↔ 60 * count ≤ most * 59 := barLength_le_iff hmost 59
  unfold fullBar at hfull ⊢
  omega

/-- A larger count never has a shorter bar. -/
theorem barLength_mono (hmost : 0 < most) (hle : count ≤ other) :
    barLength count most ≤ barLength other most := by
  have hother : 60 * other ≤ most * barLength other most := (barLength_le_iff hmost _).mp (le_refl _)
  rw [barLength_le_iff hmost]
  omega

end Bars

namespace Histogram

variable {histogram : Histogram}

/-- The greatest count, if there is any. -/
theorem most_eq_max? (histogram : Histogram) : histogram.most = histogram.counts.max?.getD 0 := by
  unfold most
  cases histogram.counts with
  | nil => rfl
  | cons count rest => rw [List.foldl_cons, Nat.zero_max, List.max?_cons', Option.getD_some]

theorem max?_counts (h : histogram.counts ≠ []) :
    histogram.counts.max? = some histogram.most := by
  rw [most_eq_max?]
  cases hmax : histogram.counts.max? with
  | none => exact absurd (List.max?_eq_none_iff.mp hmax) h
  | some most => rfl

theorem le_most {count : Nat} (hmem : count ∈ histogram.counts) : count ≤ histogram.most :=
  (List.max?_eq_some_iff.mp (max?_counts (List.ne_nil_of_mem hmem))).2 count hmem

/-- The greatest count is zero exactly if nothing was counted. -/
theorem most_eq_zero_iff : histogram.most = 0 ↔ histogram.counts.sum = 0 := by
  rw [List.sum_eq_zero_iff]
  constructor
  · intro hzero count hmem
    exact Nat.le_zero.mp (hzero ▸ le_most hmem)
  · intro hall
    by_cases hnone : histogram.counts = []
    · rw [most_eq_max?, hnone]
      rfl
    · exact hall _ (List.max?_eq_some_iff.mp (max?_counts hnone)).1

/-- A distance of one digit has a blank before it. -/
theorem chartRow_of_lt (most count : Nat) {distance : Nat} (hdigit : distance < 10) :
    chartRow most distance count =
      " " ++ toString distance ++ " | " ++
        String.ofList (List.replicate ((60 * count) ⌈/⌉ most) '█') ++ s!" ({count})" := by
  rw [chartRow, if_pos hdigit, barLength_eq_ceilDiv]

end Histogram

namespace Table

variable {table : Table α} {distance : Nat}

theorem length_counts_histogram (table : Table α) : table.histogram.counts.length = probeLimit :=
  (List.length_map _).trans List.length_range

theorem getD_counts_histogram (hd : distance < probeLimit) :
    table.histogram.counts.getD distance 0 = table.distances.count distance := by
  rw [histogram, Histogram.ofDistances, List.getD_eq_getElem?_getD, List.getElem?_map,
    List.getElem?_range hd, Option.map_some, Option.getD_some]

theorem map_getD_counts_histogram (table : Table α) :
    ((List.range probeLimit).map fun distance => table.histogram.counts.getD distance 0) =
      table.histogram.counts :=
  List.map_congr_left fun _ hmem => getD_counts_histogram (List.mem_range.mp hmem)

theorem bins_histogram (table : Table α) : table.histogram.bins =
    (List.range probeLimit).map fun distance =>
      (distance, table.histogram.counts.getD distance 0) := by
  rw [histogram, Histogram.bins_ofDistances]
  refine List.map_congr_left fun distance hmem => ?_
  rw [← getD_counts_histogram (List.mem_range.mp hmem), histogram]

/-- The counts add up to the number of entries. -/
theorem Valid.sum_counts_histogram (h : table.Valid) :
    table.histogram.counts.sum = table.count := by
  rw [histogram, Histogram.sum_counts_ofDistances fun _ => h.distance_lt, h.length_distances]

theorem Valid.most_histogram_eq_zero_iff (h : table.Valid) :
    table.histogram.most = 0 ↔ table.count = 0 := by
  rw [Histogram.most_eq_zero_iff, h.sum_counts_histogram]

/-- With entries there is a row for each distance, in order, with its bar and its
    count. -/
theorem Valid.chart_eq_rows (h : table.Valid) (hsome : table.count ≠ 0) :
    let histogram := table.histogram
    let count := fun distance => histogram.counts.getD distance 0
    let bar := fun distance => (60 * count distance) ⌈/⌉ histogram.most
    histogram.chart = (List.range 8).map fun distance =>
      " " ++ toString distance ++ " | " ++ String.ofList (List.replicate (bar distance) '█') ++
        s!" ({count distance})" := by
  intro histogram count bar
  rw [Histogram.chart, if_neg (mt h.most_histogram_eq_zero_iff.mp hsome), bins_histogram,
    List.map_map]
  refine List.map_congr_left fun distance hmem => Histogram.chartRow_of_lt _ _ ?_
  exact Nat.lt_trans (List.mem_range.mp hmem) (by decide)

/-- The chart is reported empty exactly if there are no entries. -/
theorem Valid.chart_eq_empty_iff (h : table.Valid) :
    table.histogram.chart = ["probe histogram: empty"] ↔ table.count = 0 := by
  constructor
  · intro hchart
    by_contra hsome
    -- Eight rows are no single line.
    have hlength := congrArg List.length (h.chart_eq_rows hsome)
    rw [hchart, List.length_map, List.length_range] at hlength
    exact absurd hlength (by decide)
  · intro hnone
    rw [Histogram.chart, if_pos (h.most_histogram_eq_zero_iff.mpr hnone)]

theorem getD_counts_le_most (hd : distance < probeLimit) :
    table.histogram.counts.getD distance 0 ≤ table.histogram.most := by
  have hlt : distance < table.histogram.counts.length := by rwa [length_counts_histogram]
  rw [List.getD_eq_getElem _ _ hlt]
  exact Histogram.le_most (List.getElem_mem hlt)

/-- The chart of a reachable table of at most 2^58 slots is worked out in 64 bits
    and shows its counts. It is reported empty exactly if the table has no
    entries. Otherwise there are eight rows, one for each distance in order, each
    with its count, and these add up to the number of entries. A bar is the
    count's part of the greatest count, in sixty blocks and rounded up. It is
    missing exactly if nothing was counted, it is full exactly if the count is
    more than 59 of 60 parts of the greatest, and so for the greatest itself, it
    is never longer, and a larger count never has a shorter bar. -/
theorem chart_shows_counts (h : table.Reachable) (hsize : table.capacity ≤ 2 ^ 58) :
    let histogram := table.histogram
    let count := fun distance => histogram.counts.getD distance 0
    let bar := fun distance => (60 * count distance) ⌈/⌉ histogram.most
    Guarded.chart histogram = some histogram.chart ∧
      (histogram.chart = ["probe histogram: empty"] ↔ table.count = 0) ∧
      (table.count ≠ 0 →
        (histogram.chart = (List.range 8).map fun distance =>
            " " ++ toString distance ++ " | " ++ String.ofList (List.replicate (bar distance) '█') ++
              s!" ({count distance})") ∧
          ((List.range 8).map count).sum = table.count ∧
          histogram.counts.max? = some histogram.most ∧
          ∀ distance < 8,
            Guarded.barLength (count distance) histogram.most = some (bar distance) ∧
            (bar distance = 0 ↔ count distance = 0) ∧
            (bar distance = 60 ↔ 59 * histogram.most < count distance * 60) ∧
            (count distance = histogram.most → bar distance = 60) ∧ bar distance ≤ 60 ∧
            ∀ other < 8, count distance ≤ count other → bar distance ≤ bar other) := by
  intro histogram count bar
  have hvalid := h.valid
  have hbar : ∀ distance, bar distance = barLength (count distance) histogram.most :=
    fun distance => (barLength_eq_ceilDiv _ _).symm
  -- Half of the slots at most are entries, and sixty times as many leave bits free.
  have hbits : table.count * fullBar < UInt64.size := by
    have hload := hvalid.two_mul_count_le
    unfold fullBar UInt64.size
    omega
  refine ⟨hvalid.guarded_chart_eq hbits, hvalid.chart_eq_empty_iff, fun hsome => ?_⟩
  have hmost : 0 < histogram.most :=
    Nat.pos_of_ne_zero (mt hvalid.most_histogram_eq_zero_iff.mp hsome)
  have hcounted : histogram.counts ≠ [] := by
    intro hnone
    have hlength := table.length_counts_histogram
    rw [show table.histogram.counts = [] from hnone] at hlength
    exact absurd hlength (by decide)
  refine ⟨hvalid.chart_eq_rows hsome, ?_, Histogram.max?_counts hcounted, fun distance hd => ?_⟩
  · rw [← hvalid.sum_counts_histogram]
    exact congrArg List.sum table.map_getD_counts_histogram
  · have hle : count distance ≤ histogram.most := getD_counts_le_most hd
    have hscaled : count distance * fullBar < UInt64.size := by
      have hcount := hvalid.count_distances_le distance
      rw [← getD_counts_histogram hd] at hcount
      exact Nat.lt_of_le_of_lt (Nat.mul_le_mul_right fullBar hcount) hbits
    simp only [hbar]
    refine ⟨Guarded.barLength_eq hscaled hmost, barLength_eq_zero_iff hmost,
      barLength_eq_full_iff hmost hle, fun hgreatest => ?_, barLength_le_full hmost hle,
      fun other _ hle => barLength_mono hmost hle⟩
    refine (barLength_eq_full_iff hmost hle).mpr ?_
    omega

/-- Sixteen keys, most of them at home. Three distances occur once, one occurs
    twice, and its bar is not shorter than theirs. -/
theorem chart_shows_counts_gaps :
    let table := ((blank 32 : Table Nat).run
      ((List.range 16).map fun n => .put 32 (UInt64.ofNat (100 + n)) n)).1
    let counts := table.histogram.counts
    table.Reachable ∧ table.capacity ≤ 2 ^ 58 ∧ table.count = 16 ∧
      counts = [11, 0, 1, 2, 0, 1, 1, 0] ∧
      table.histogram.chart =
        [" 0 | ████████████████████████████████████████████████████████████ (11)",
          " 1 |  (0)",
          " 2 | ██████ (1)",
          " 3 | ███████████ (2)",
          " 4 |  (0)",
          " 5 | ██████ (1)",
          " 6 | ██████ (1)",
          " 7 |  (0)"] ∧
      Guarded.chart table.histogram = some table.histogram.chart ∧
      ((List.range 8).map fun distance => counts.getD distance 0).sum = 16 ∧
      counts.max? = some 11 ∧ ((60 * counts.getD 3 0) ⌈/⌉ 11 = 60 ↔ 59 * 11 < counts.getD 3 0 * 60) ∧
      (60 * counts.getD 2 0) ⌈/⌉ 11 ≤ (60 * counts.getD 3 0) ⌈/⌉ 11 := by
  intro table counts
  have hmade : withCapacity 32 32 = .ok (blank 32 : Table Nat) := rfl
  have hreach : table.Reachable := Reachable.run (.made hmade) _
  have hsize : table.capacity = 32 := by decide +kernel
  have hcount : table.count = 16 := by decide +kernel
  have hcounts : counts = [11, 0, 1, 2, 0, 1, 1, 0] := by decide +kernel
  have hmost : table.histogram.most = 11 := by decide +kernel
  have hsmall : table.capacity ≤ 2 ^ 58 := by
    rw [hsize]
    decide
  rcases chart_shows_counts hreach hsmall with ⟨hguarded, _, hrows⟩
  rcases hrows (by rw [hcount]; decide) with ⟨_, hsum, hmax, hbars⟩
  rw [hcount] at hsum
  rw [hmost] at hmax hbars
  rcases hbars 3 (by decide) with ⟨_, _, hfull, _, _, _⟩
  rcases hbars 2 (by decide) with ⟨_, _, _, _, _, hmono⟩
  have hless : counts.getD 2 0 ≤ counts.getD 3 0 := by
    rw [hcounts]
    decide
  exact ⟨hreach, hsmall, hcount, hcounts, by decide +kernel, hguarded, hsum, hmax, hfull,
    hmono 3 (by decide) hless⟩

end Table

end BoundedProbing
