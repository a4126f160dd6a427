import BoundedProbing.Proofs.Growth
import BoundedProbing.Proofs.Distances

/-!
# Statistics that Tell the Truth

What the figures of a table say about the searches in it.

The figures are worked out from the places of the entries: each entry lies so
many places past its home, around the end of the array. Nobody searches for
anything. What they are meant to tell is the cost of a look-up, which is the
number of slots it examines before the one that holds the key. `Slots.trace`
is the look-up with a list of the places it passes, so this number can be read
off it.

The two agree where the way from a home to an entry is unbroken. There a
look-up goes on until it meets the key, and it has passed as many places as the
entry lies past its home. In an array smaller than a window a search may go
around, but it meets a stored key before it has come back to its home.

## Main definitions

* `Slots.trace`: A look-up with the places it passes.

## Theorems

* `Slots.trace_snd`: It finds what the look-up finds.
* `Slots.Sound.trace_of_holds`: What it passes on the way to a stored key.
* `Table.Valid.distances_eq`: The distances of a table in these terms.
* `Histogram.sum_counts_ofDistances`, `Histogram.longest_ofDistances`: What
  the counts of short distances tell.
* `Table.stats_of_lookups`: The figures of a reachable table.
-/

namespace BoundedProbing

universe u

variable {α : Type u}

namespace Slots

/-- A look-up along the places at the given distances: those it passes, in
    order, and the one at which it finds the key. -/
def traceFrom (slots : Slots α) (key : UInt64) (start : Nat) :
    List Nat → List Nat × Option Nat
  | [] => ([], none)
  | distance :: farther =>
    let index := ahead start distance slots.size
    let later := traceFrom slots key start farther
    match slots.read index with
    | .empty => ([], none)
    | .tombstone => (index :: later.1, later.2)
    | .entry stored _ => if stored = key then ([], some index) else (index :: later.1, later.2)

/-- A look-up of the key: the places it passes, in order, and the one at which
    it finds the key. -/
def trace (slots : Slots α) (key : UInt64) : List Nat × Option Nat :=
  slots.traceFrom key (home key slots.size) offsets

variable {slots : Slots α} {key : UInt64} {start distance index : Nat}

theorem traceFrom_snd (slots : Slots α) (key : UInt64) (start : Nat) (distances : List Nat) :
    (slots.traceFrom key start distances).2 = locateFrom slots key start distances := by
  induction distances with
  | nil => rfl
  | cons distance farther ih =>
      rw [traceFrom, locateFrom]
      cases slots.read (ahead start distance slots.size) with
      | empty => rfl
      | tombstone => exact ih
      | entry stored value =>
          by_cases h : stored = key
          · simp only [if_pos h]
          · simp only [if_neg h, ih]

/-- The places that are passed make no difference to what is found. -/
theorem trace_snd (slots : Slots α) (key : UInt64) :
    (slots.trace key).2 = locate slots key :=
  traceFrom_snd slots key _ offsets

theorem traceFrom_cons_of_holds {farther : List Nat}
    (h : slots.Holds (ahead start distance slots.size) key) :
    slots.traceFrom key start (distance :: farther) =
      ([], some (ahead start distance slots.size)) := by
  rcases h with ⟨value, hread⟩
  simp only [traceFrom, hread, if_true]

theorem traceFrom_cons_of_pass {farther : List Nat}
    (hempty : slots.read (ahead start distance slots.size) ≠ .empty)
    (hother : ¬ slots.Holds (ahead start distance slots.size) key) :
    (slots.traceFrom key start (distance :: farther)).1 =
      ahead start distance slots.size :: (slots.traceFrom key start farther).1 := by
  rw [traceFrom]
  cases hread : slots.read (ahead start distance slots.size) with
  | empty => exact absurd hread hempty
  | tombstone => rfl
  | entry stored value =>
      have hne : stored ≠ key := fun heq => hother ⟨value, heq ▸ hread⟩
      simp only [if_neg hne]

theorem traceFrom_append_cons {nearer farther : List Nat}
    (hpass : ∀ before ∈ nearer, slots.read (ahead start before slots.size) ≠ .empty ∧
      ¬ slots.Holds (ahead start before slots.size) key)
    (h : slots.Holds (ahead start distance slots.size) key) :
    (slots.traceFrom key start (nearer ++ distance :: farther)).1 =
      nearer.map fun before => ahead start before slots.size := by
  induction nearer with
  | nil => rw [List.nil_append, traceFrom_cons_of_holds h, List.map_nil]
  | cons before rest ih =>
      rcases hpass before List.mem_cons_self with ⟨hempty, hother⟩
      rw [List.cons_append, traceFrom_cons_of_pass hempty hother, List.map_cons,
        ih fun later hlater => hpass later (List.mem_cons_of_mem _ hlater)]

/-- On the way to a stored key, a look-up passes the places from its home up to
    it and no others. -/
theorem Sound.trace_of_holds (h : slots.Sound) (hholds : slots.Holds index key) :
    (slots.trace key).1 =
      (List.range (distanceFrom (home key slots.size) index slots.size)).map fun before =>
        ahead (home key slots.size) before slots.size := by
  rcases h.reached key index hholds with ⟨hnear, hclear⟩
  have hhome := hholds.home_lt key
  have hback := ahead_distanceFrom hhome hholds.lt
  rw [trace, offsets_eq_append_cons_iff.mpr ⟨hnear, rfl, rfl⟩]
  refine traceFrom_append_cons (fun before hbefore => ?_) (hback.symm ▸ hholds)
  have hlt := List.mem_range.mp hbefore
  refine ⟨hclear before hlt, fun hearlier => ?_⟩
  -- The key is nowhere else, and the places short of one walk around differ.
  have hsame := h.distinct key _ _ hearlier hholds
  have hcap := distanceFrom_lt (Nat.zero_lt_of_lt hhome) (home key slots.size) index
  have heq := ahead_inj hhome (Nat.lt_trans hlt hcap) hcap (hsame.trans hback.symm)
  omega

theorem Sound.length_trace_of_holds (h : slots.Sound) (hholds : slots.Holds index key) :
    (slots.trace key).1.length = distanceFrom (home key slots.size) index slots.size := by
  rw [h.trace_of_holds hholds, List.length_map, List.length_range]

end Slots

namespace Histogram

variable {distances : List Nat}

/-- The counts of short distances count them all. -/
theorem sum_counts_ofDistances (h : ∀ distance ∈ distances, distance < probeLimit) :
    (ofDistances distances).counts.sum = distances.length := by
  have hmem : ∀ distance ∈ (distances : Multiset Nat), distance ∈ Finset.range probeLimit :=
    fun distance hdistance => Finset.mem_range.mpr (h distance hdistance)
  calc (ofDistances distances).counts.sum
      = ∑ distance ∈ Finset.range probeLimit, distances.count distance := rfl
    _ = ∑ distance ∈ Finset.range probeLimit, (distances : Multiset Nat).count distance := by
        simp only [Multiset.coe_count]
    _ = distances.length := Multiset.sum_count_eq_card hmem

/-- The last place below a bound where something is counted, found by a walk
    from the first place on. It is zero if nothing is counted. -/
theorem foldl_range_last (count : Nat → Nat) (bound : Nat) :
    let last := (List.range bound).foldl (fun far place => if 0 < count place then place else far) 0
    (∀ place < bound, 0 < count place → place ≤ last) ∧
      (0 < count last ∨ ∀ place < bound, count place = 0) := by
  induction bound with
  | zero =>
      exact ⟨fun _ hlt => absurd hlt (Nat.not_lt_zero _),
        Or.inr fun _ hlt => absurd hlt (Nat.not_lt_zero _)⟩
  | succ bound ih =>
      rw [List.range_succ, List.foldl_append]
      rcases ih with ⟨hle, hlast⟩
      by_cases hpos : 0 < count bound
      · simp only [List.foldl_cons, List.foldl_nil, if_pos hpos]
        exact ⟨fun place hlt _ => by omega, Or.inl hpos⟩
      · simp only [List.foldl_cons, List.foldl_nil, if_neg hpos]
        refine ⟨fun place hlt hplace => ?_, hlast.imp_right fun hnone place hlt => ?_⟩
        · have hne : place ≠ bound := fun heq => hpos (heq ▸ hplace)
          exact hle place (by omega) hplace
        · by_cases heq : place = bound
          · rw [heq]
            omega
          · exact hnone place (by omega)

/-- The longest distance is the greatest of them, or zero if there is none. -/
theorem longest_ofDistances (h : ∀ distance ∈ distances, distance < probeLimit) :
    (ofDistances distances).longest = distances.max?.getD 0 := by
  have hfold : (ofDistances distances).longest = (List.range probeLimit).foldl
      (fun far place => if 0 < distances.count place then place else far) 0 := by
    rw [longest, bins_ofDistances, List.foldl_map]
  rcases foldl_range_last distances.count probeLimit with ⟨hle, hlast⟩
  rw [← hfold] at hle hlast
  have hgreatest : ∀ distance ∈ distances, distance ≤ (ofDistances distances).longest :=
    fun distance hmem => hle distance (h distance hmem) (List.count_pos_iff.mpr hmem)
  rcases hlast with hpos | hnone
  · have hmax : distances.max? = some (ofDistances distances).longest :=
      List.max?_eq_some_iff.mpr ⟨List.count_pos_iff.mp hpos, hgreatest⟩
    rw [hmax, Option.getD_some]
  · -- A distance would be one of those that are counted.
    have hempty : distances = [] := List.eq_nil_iff_forall_not_mem.mpr fun distance hmem =>
      List.count_eq_zero.mp (hnone distance (h distance hmem)) hmem
    subst hempty
    rfl

end Histogram

namespace Table

variable {table : Table α} {key : UInt64}

/-- There is one distance for every stored key, in slot order: the number of
    slots that a look-up of the key examines before the one that holds it. -/
theorem Valid.distances_eq (h : table.Valid) :
    table.distances = table.slots.keys.map fun key => (table.slots.trace key).1.length := by
  rw [distances_eq_filterMap, Slots.keys, Slots.entries_eq_filterMap, Slots.toList_eq_map_read,
    List.map_map, List.filterMap_map, List.map_filterMap]
  refine List.filterMap_congr fun index _ => ?_
  unfold distanceAt
  simp only [Function.comp_apply]
  cases hread : table.slots.read index with
  | empty => rfl
  | tombstone => rfl
  | entry key value =>
      have hpassed := h.sound.length_trace_of_holds ⟨value, hread⟩
      exact congrArg some hpassed.symm

/-- The figures of a reachable table are those of the look-ups for its keys. The
    histogram counts for each number of slots how many stored keys are found
    after examining so many others, and these counts add up to the number of
    entries. The longest distance is the greatest of these numbers, and the
    total is their sum. At most half of the slots are reported as taken, and no
    more slots as taken or marked than there are. -/
theorem stats_of_lookups (h : table.Reachable) :
    let keys := table.slots.keys
    let passed := fun key => (table.slots.trace key).1.length
    (∀ key, (table.slots.trace key).2 = locate table.slots key) ∧
      (keys.Nodup ∧ (∀ key, key ∈ keys ↔ table.contains key = true) ∧
        keys.length = table.count) ∧
      table.histogram.counts =
        (List.range 8).map (fun distance => keys.countP fun key => passed key = distance) ∧
      table.histogram.counts.sum = table.count ∧
      table.stats.longest = (keys.map passed).max?.getD 0 ∧
      table.stats.totalDistance = (keys.map passed).sum ∧
      table.stats.totalDistance ≤ 7 * table.count ∧
      table.stats.count = table.count ∧
      table.stats.tombstones = table.slots.countP Slot.isTombstone ∧
      2 * table.stats.count ≤ table.stats.capacity ∧
      table.stats.count + table.stats.tombstones ≤ table.stats.capacity := by
  intro keys passed
  have hvalid := h.valid
  have hdistances : table.distances = keys.map passed := hvalid.distances_eq
  have hshort : ∀ distance ∈ table.distances, distance < probeLimit := fun _ => hvalid.distance_lt
  have hlength : keys.length = table.count := by rw [Slots.length_keys, hvalid.count_eq]
  refine ⟨table.slots.trace_snd, ⟨Slots.nodup_keys hvalid.sound.distinct,
    hvalid.mem_keys_iff_contains, hlength⟩, ?_, ?_, ?_, ?_, hvalid.totalDistance_le, rfl,
    hvalid.tombstones_eq, hvalid.two_mul_count_le, ?_⟩
  · refine List.map_congr_left fun distance _ => ?_
    rw [hdistances, List.count_eq_countP, List.countP_map]
    exact List.countP_congr fun key _ => by
      simp only [Function.comp_apply, beq_iff_eq, decide_eq_true_eq]
  · rw [histogram, Histogram.sum_counts_ofDistances hshort, hvalid.length_distances]
  · rw [← hdistances]
    exact Histogram.longest_ofDistances hshort
  · rw [← hdistances]
    exact Histogram.totalDistance_ofDistances hshort
  · have hslots := Slots.countP_isEntry_add_countP_isTombstone_le table.slots
    rwa [← hvalid.count_eq, ← hvalid.tombstones_eq] at hslots

/-- A key with a home in the last slot went around the end. Its look-up passes
    two tombstones and an entry. -/
theorem stats_of_lookups_around :
    let table := ((blank 8 : Table Nat).run [.put 8 1 10, .put 8 2 20, .put 8 3 30, .put 8 4 40,
      .remove 2, .put 8 6 60, .remove 1]).1
    table.Reachable ∧ table.slots.trace 4 = ([7, 0, 1], some 2) ∧
      table.slots.keys.map (fun key => (table.slots.trace key).1.length) = [0, 3, 1] ∧
      table.histogram.counts = [1, 1, 0, 1, 0, 0, 0, 0] ∧
      table.histogram.counts.sum = table.count ∧ table.stats.longest = 3 ∧
      table.stats.totalDistance = 4 ∧ table.stats.count + table.stats.tombstones = 5 ∧
      table.stats.count + table.stats.tombstones ≤ table.stats.capacity := by
  intro table
  have hmade : withCapacity 8 8 = .ok (blank 8 : Table Nat) := rfl
  have hreach : table.Reachable := Reachable.run (.made hmade) _
  have hpassed : table.slots.keys.map (fun key => (table.slots.trace key).1.length) =
      [0, 3, 1] := by
    decide +kernel
  rcases stats_of_lookups hreach with
    ⟨_, _, _, hsum, hlongest, htotal, _, _, _, _, hslots⟩
  rw [hpassed] at hlongest htotal
  exact ⟨hreach, by decide +kernel, hpassed, by decide +kernel, hsum, hlongest, htotal,
    by decide +kernel, hslots⟩

end Table

end BoundedProbing
