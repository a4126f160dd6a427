import Mathlib.Algebra.Order.Floor.Div
import BoundedProbing.Demo
import BoundedProbing.Proofs.Chart
import BoundedProbing.Proofs.Contract

/-!
# A Run that Adds Up

What a run of the demonstration says when it comes to its end.

The run tells of growth by comparing the capacity after each insertion with the
one it told last. `filled` is the set after each of the numbers, worked out
without any account, and `growthAt` is the change that comes with a number. What
the run tells is the list of these changes and nothing else. An insertion never
shrinks the set, so they are a chain of larger and larger powers of two, from
the capacity at the start to the one in the figures at the end.

The run ends early if an insertion replaces a member. So in a run that does not,
every number was new when it came, whatever the hash function is, and from then
on it is found under its hash. Rebuilds do not matter here, since they keep what
is found. A removal of one number takes no other away, because two members never
have one hash. Therefore every number that is to be removed is still there when
its turn comes.

## Main definitions

* `IdentitySet.Finds`: A member that is found for itself.
* `IdentitySet.Gains`: What a series of insertions of new items does.
* `Demo.filled`: The set after so many numbers.
* `Demo.Growth`, `Demo.growthAt`: A change of the capacity, and the one that comes
  with a number.
* `Demo.GrowsTo`: Growth without a gap.
* `Demo.Options.removals`: How many numbers are to be removed.
* `Demo.thinned`: What is left then.

## Theorems

* `IdentitySet.Valid.gains_add`, `IdentitySet.Valid.remove_found`: One insertion
  that replaces nothing, and one removal of a member.
* `IdentitySet.Valid.drain_range`: A range of members is removed.
* `KeyRange.keysFrom_eq_map`: The keys of a range as multiples of its stride.
* `Demo.growsTo_filled`: The changes along the numbers leave no gap.
* `Demo.fillItems_ok`: A filling that comes to its end tells these changes.
* `Demo.removeItems_everyNth`: A removal of every so many numbers.
* `Demo.run_of_exitCode`: The parts of a run that comes to its end.
* `Demo.run_remarks`, `Demo.run_lines`: Its account as data and as text, and the
  set the account is about.
* `Demo.run_adds_up`: Its lines, and how they add up.
-/

namespace BoundedProbing

universe u v

namespace IdentitySet

variable {α : Type u} {ε : Type v} {set : IdentitySet α ε} {limit : Nat} {item other : α}

/-- Looking the item up finds this very item. -/
def Finds (set : IdentitySet α ε) (item : α) : Prop :=
  set.get item = some item

/-- What is found for itself is found for every item of the same hash. -/
theorem Finds.get_eq (h : set.Finds other) (heq : set.hash other = set.hash item) :
    set.get item = some other := by
  rw [get, ← heq]
  exact h

/-- The second set has these items as new members, and what is found in the
    first is found in it as well. -/
structure Gains (set : IdentitySet α ε) (items : List α) (last : IdentitySet α ε) : Prop where
  valid : last.Valid
  count : last.count = set.count + items.length
  kept : ∀ other, set.Finds other → last.Finds other
  found : ∀ item ∈ items, last.Finds item

theorem Valid.gains_nil (h : set.Valid) : set.Gains [] set :=
  ⟨h, rfl, fun _ hother => hother, fun _ hmem => absurd hmem List.not_mem_nil⟩

theorem Gains.trans {mid last : IdentitySet α ε} {items later : List α} (h : set.Gains items mid)
    (hlater : mid.Gains later last) : set.Gains (items ++ later) last := by
  refine ⟨hlater.valid, ?_, fun other hother => hlater.kept other (h.kept other hother),
    fun item hmem => ?_⟩
  · rw [hlater.count, h.count, List.length_append, Nat.add_assoc]
  · rcases List.mem_append.mp hmem with hfirst | hsecond
    · exact hlater.kept item (h.found item hfirst)
    · exact hlater.found item hsecond

/-- An insertion that replaces nothing gains its item. -/
theorem Valid.gains_add (h : set.Valid) (hok : (set.add limit item).answer = .ok none) :
    set.Gains [item] (set.add limit item).state := by
  refine ⟨h.add limit item, h.table.count_put_ok hok, fun other hother => ?_, fun other hmem => ?_⟩
  · -- An item found under the same hash would have been replaced.
    have hnone : set.get item = none := (h.table.put_ok hok).1.symm
    have hne : set.hash other ≠ set.hash item := fun heq =>
      absurd ((hother.get_eq heq).symm.trans hnone)
        (by simp only [reduceCtorEq, not_false_eq_true])
    rw [Finds, h.get_add hok, if_neg hne]
    exact hother
  · rw [List.mem_singleton.mp hmem, Finds, h.get_add hok, if_pos rfl]

/-- A member that is removed is given back, and no other goes with it. -/
theorem Valid.remove_found (h : set.Valid) (hfound : set.Finds item) :
    (set.remove item).2 = some item ∧ (set.remove item).1.count + 1 = set.count ∧
      (set.remove item).1.capacity = set.capacity ∧
      ∀ other, other ≠ item → set.Finds other → (set.remove item).1.Finds other := by
  refine ⟨(h.table.remove_snd _).trans hfound, h.table.count_remove hfound,
    Table.capacity_remove set.table _, fun other hne hother => ?_⟩
  -- Under one hash only one item is found for itself.
  have hhash : set.hash other ≠ set.hash item := fun heq =>
    hne (Option.some.inj ((hother.get_eq heq).symm.trans hfound))
  rw [Finds, h.get_remove, if_neg hhash]
  exact hother

/-- Members that are removed one after the other are all counted. -/
theorem Valid.foldl_remove {set : IdentitySet UInt64 ε} (h : set.Valid)
    {step : IdentitySet UInt64 ε × Nat → UInt64 → IdentitySet UInt64 ε × Nat}
    (hstep : ∀ (set : IdentitySet UInt64 ε) removed key item, (set.remove key).2 = some item →
      step (set, removed) key = ((set.remove key).1, removed + 1))
    {keys : List UInt64} (hnodup : keys.Nodup) (hfound : ∀ key ∈ keys, set.Finds key)
    (removed : Nat) :
    let result := keys.foldl step (set, removed)
    result.1.Valid ∧ result.1.capacity = set.capacity ∧
      result.1.count + keys.length = set.count ∧ result.2 = keys.length + removed := by
  induction keys generalizing set removed with
  | nil => exact ⟨h, rfl, rfl, (Nat.zero_add removed).symm⟩
  | cons key rest ih =>
      rw [List.nodup_cons] at hnodup
      rcases h.remove_found (hfound key List.mem_cons_self) with ⟨hback, hcount, hcapacity, hothers⟩
      have hlater : ∀ other ∈ rest, (set.remove key).1.Finds other := fun other hmem =>
        hothers other (fun heq => hnodup.1 (heq ▸ hmem)) (hfound other (List.mem_cons_of_mem _ hmem))
      rcases ih (h.remove key) hnodup.2 hlater (removed + 1) with ⟨hvalid, hsame, hleft, htotal⟩
      rw [List.foldl_cons, hstep set removed key key hback, List.length_cons]
      exact ⟨hvalid, hsame.trans hcapacity, by omega, by omega⟩

/-- Members that a range removes are all counted. -/
theorem Valid.drain_range {set : IdentitySet UInt64 ε} (h : set.Valid) {range : KeyRange}
    (hnodup : range.keys.Nodup) (hfound : ∀ key ∈ range.keys, set.Finds key) :
    let result := BoundedProbing.drain IdentitySet.remove range set
    result.1.Valid ∧ result.1.capacity = set.capacity ∧
      result.1.count + range.count = set.count ∧ result.2 = range.count := by
  unfold BoundedProbing.drain
  rw [KeyRange.foldl_eq_foldl_keys, ← range.length_keys]
  refine h.foldl_remove (fun set removed key item hback => ?_) hnodup hfound 0
  rcases hremove : set.remove key with ⟨next, answer⟩
  rw [hremove] at hback
  subst hback
  simp only [hremove]

end IdentitySet

namespace KeyRange

theorem keysFrom_eq_map (stride : UInt64) (left : Nat) (key : UInt64) :
    keysFrom stride left key = (List.range left).map fun i => key + UInt64.ofNat i * stride := by
  induction left generalizing key with
  | zero => rfl
  | succ left ih =>
      rw [keysFrom, ih, List.range_succ_eq_map, List.map_cons, List.map_map]
      have hfirst : key = key + UInt64.ofNat 0 * stride := by
        rw [show UInt64.ofNat 0 = 0 from rfl, UInt64.zero_mul, UInt64.add_zero]
      refine congrArg₂ List.cons hfirst (List.map_congr_left fun i _ => ?_)
      rw [Function.comp_apply, Nat.succ_eq_add_one, UInt64.ofNat_add, UInt64.add_mul,
        UInt64.ofNat_one, UInt64.one_mul, UInt64.add_assoc, UInt64.add_comm stride]

end KeyRange

namespace Demo

variable {hash : UInt64 → UInt64} {limit : Nat} {options : Options}

/-- The set that a run starts with. -/
def fresh (hash : UInt64 → UInt64) : NumberSet :=
  ⟨Table.blank initialCapacity, hash, fun left right => left == right⟩

/-- The set after the numbers below one were added to the fresh one, refused or
    not. -/
def filled (hash : UInt64 → UInt64) (limit : Nat) : Nat → NumberSet
  | 0 => fresh hash
  | number + 1 => ((filled hash limit number).add limit (UInt64.ofNat number)).state

/-- A change of the capacity, and how many members there are then. -/
structure Growth where
  before : Nat
  after : Nat
  count : Nat
  deriving Repr, DecidableEq

def Growth.remark (growth : Growth) : Remark :=
  .grew growth.before growth.after growth.count

theorem Growth.lines_remark (growth : Growth) : growth.remark.lines =
    [s!"  grew {growth.before} -> {growth.after} slots at {growth.count} items"] :=
  rfl

theorem flatMap_lines_growth (growth : List Growth) :
    (growth.map Growth.remark).flatMap Remark.lines = growth.map fun step =>
      s!"  grew {step.before} -> {step.after} slots at {step.count} items" := by
  simp only [List.flatMap_map, Growth.lines_remark]
  exact List.map_eq_flatMap.symm

/-- The change of the capacity that comes with a number, if there is one. -/
def growthAt (hash : UInt64 → UInt64) (limit number : Nat) : Option Growth :=
  let before := (filled hash limit number).capacity
  let after := (filled hash limit (number + 1)).capacity
  if after = before then none else some ⟨before, after, number + 1⟩

theorem growthAt_eq_none {number : Nat}
    (h : (filled hash limit (number + 1)).capacity = (filled hash limit number).capacity) :
    growthAt hash limit number = none :=
  if_pos h

theorem growthAt_eq_some {number : Nat}
    (h : (filled hash limit (number + 1)).capacity ≠ (filled hash limit number).capacity) :
    growthAt hash limit number = some
      ⟨(filled hash limit number).capacity, (filled hash limit (number + 1)).capacity,
        number + 1⟩ :=
  if_neg h

/-- All growth leads from one capacity to another without a gap: each change
    starts at the capacity where the one before ended, and leads to a larger
    power of two. -/
inductive GrowsTo : Nat → List Growth → Nat → Prop where
  | stay (capacity : Nat) : GrowsTo capacity [] capacity
  | step {before after last : Nat} {rest : List Growth} (count : Nat) (hless : before < after)
      (hpow : after.isPowerOfTwo) (hrest : GrowsTo after rest last) :
      GrowsTo before (⟨before, after, count⟩ :: rest) last

theorem valid_filled (hash : UInt64 → UInt64) (limit number : Nat) :
    (filled hash limit number).Valid := by
  induction number with
  | zero => exact IdentitySet.valid_blank ⟨8, rfl⟩ hash fun left right => left == right
  | succ number ih => exact ih.add limit (UInt64.ofNat number)

theorem capacity_le_filled_succ (hash : UInt64 → UInt64) (limit number : Nat) :
    (filled hash limit number).capacity ≤ (filled hash limit (number + 1)).capacity :=
  Table.capacity_le_put limit (filled hash limit number).table _ _

/-- No change of the capacity goes untold, whatever becomes of the insertions. -/
theorem growsTo_filled (hash : UInt64 → UInt64) (limit start left : Nat) :
    GrowsTo (filled hash limit start).capacity
      ((List.range' start left).filterMap (growthAt hash limit))
      (filled hash limit (start + left)).capacity := by
  induction left generalizing start with
  | zero => exact .stay _
  | succ left ih =>
      have hrest := ih (start + 1)
      rw [show start + 1 + left = start + (left + 1) by omega] at hrest
      rw [List.range'_succ]
      by_cases hsame : (filled hash limit (start + 1)).capacity = (filled hash limit start).capacity
      · rw [List.filterMap_cons_none (growthAt_eq_none hsame), ← hsame]
        exact hrest
      · rw [List.filterMap_cons_some (growthAt_eq_some hsame)]
        exact .step _ (Nat.lt_of_le_of_ne (capacity_le_filled_succ hash limit start) (Ne.symm hsame))
          (valid_filled hash limit (start + 1)).table.isPowerOfTwo hrest

/-- A filling that comes to its end gains every number, and tells every change of
    the capacity. -/
theorem fillItems_ok {start left : Nat} {last : NumberSet} {said told : Array Remark}
    (hcount : (filled hash limit start).count = start)
    (hfill : fillItems limit left (UInt64.ofNat start) (filled hash limit start).capacity
      (filled hash limit start) said = (told, .ok last)) :
    last = filled hash limit (start + left) ∧
      (filled hash limit start).Gains (KeyRange.keysFrom 1 left (UInt64.ofNat start)) last ∧
      told.toList = said.toList ++
        ((List.range' start left).filterMap (growthAt hash limit)).map Growth.remark := by
  induction left generalizing start said with
  | zero =>
      simp only [fillItems, Prod.mk.injEq, Except.ok.injEq] at hfill
      rcases hfill with ⟨rfl, rfl⟩
      exact ⟨rfl, (valid_filled hash limit start).gains_nil, (List.append_nil _).symm⟩
  | succ left ih =>
      have hgains : ((filled hash limit start).add limit (UInt64.ofNat start)).answer = .ok none →
          (filled hash limit start).Gains [UInt64.ofNat start] (filled hash limit (start + 1)) :=
        (valid_filled hash limit start).gains_add
      have hstate : ((filled hash limit start).add limit (UInt64.ofNat start)).state =
          filled hash limit (start + 1) := rfl
      rcases hadd : (filled hash limit start).add limit (UInt64.ofNat start) with
        ⟨next, answer, events⟩
      rw [hadd] at hgains hstate
      rw [fillItems, hadd] at hfill
      rcases answer with fault | _ | replaced
      · exact absurd hfill (by simp only [Prod.mk.injEq, reduceCtorEq, and_false, not_false_eq_true])
      · have hnext := hgains rfl
        have hmore : (filled hash limit (start + 1)).count = start + 1 := by
          rw [hnext.count, hcount, List.length_singleton]
        have hitem : UInt64.ofNat start + 1 = UInt64.ofNat (start + 1) :=
          (UInt64.ofNat_add start 1).symm
        simp only at hstate
        subst hstate
        rw [List.range'_succ, show start + (left + 1) = start + 1 + left by omega]
        by_cases hsame : (filled hash limit (start + 1)).capacity = (filled hash limit start).capacity
        · simp only [if_pos hsame] at hfill
          rw [← hsame, hitem] at hfill
          rcases ih hmore hfill with ⟨hlast, hrest, htold⟩
          rw [List.filterMap_cons_none (growthAt_eq_none hsame)]
          exact ⟨hlast, hnext.trans (hitem ▸ hrest), htold⟩
        · simp only [if_neg hsame] at hfill
          rw [hitem] at hfill
          rcases ih hmore hfill with ⟨hlast, hrest, htold⟩
          -- This change is told before all those that come later.
          rw [List.filterMap_cons_some (growthAt_eq_some hsame), List.map_cons]
          refine ⟨hlast, hnext.trans (hitem ▸ hrest), ?_⟩
          rw [htold, Array.toList_push, List.append_assoc, List.singleton_append, hmore]
          rfl
      · exact absurd hfill (by simp only [Prod.mk.injEq, reduceCtorEq, and_false, not_false_eq_true])

/-- The numbers below `items`, from zero on. -/
theorem mem_keysFrom_iff {items : Nat} {number : UInt64} :
    number ∈ KeyRange.keysFrom 1 items 0 ↔ ∃ i < items, UInt64.ofNat i = number := by
  rw [KeyRange.keysFrom_eq_map, List.mem_map]
  simp only [List.mem_range, UInt64.zero_add, UInt64.mul_one]

theorem keys_everyNth (items step : Nat) :
    (everyNth items step).keys =
      (List.range (items ⌈/⌉ step)).map fun i => UInt64.ofNat (step * i) := by
  rw [KeyRange.keys, KeyRange.keysFrom_eq_map, everyNth, Nat.ceilDiv_eq_add_pred_div]
  refine List.map_congr_left fun i _ => ?_
  rw [UInt64.zero_add, UInt64.ofNat_mul, UInt64.mul_comm]

/-- Every so many numbers below a bound of 64 bits are numbers below it, and none
    comes twice. -/
theorem nodup_keys_everyNth {items step : Nat} (hstep : 0 < step) (hitems : items ≤ UInt64.size) :
    (everyNth items step).keys.Nodup ∧
      ∀ key ∈ (everyNth items step).keys, key ∈ KeyRange.keysFrom 1 items 0 := by
  have hbelow : ∀ i ∈ List.range (items ⌈/⌉ step), step * i < items := by
    intro i hmem
    rw [List.mem_range] at hmem
    by_contra hover
    exact absurd ((ceilDiv_le_iff_le_mul hstep).mpr (Nat.le_of_not_lt hover)) (Nat.not_le.mpr hmem)
  rw [keys_everyNth]
  refine ⟨List.Nodup.map_on (fun i hi j hj heq => ?_) List.nodup_range, fun key hmem => ?_⟩
  · have hnumbers := congrArg UInt64.toNat heq
    rw [UInt64.toNat_ofNat_of_lt' (Nat.lt_of_lt_of_le (hbelow i hi) hitems),
      UInt64.toNat_ofNat_of_lt' (Nat.lt_of_lt_of_le (hbelow j hj) hitems)] at hnumbers
    exact Nat.eq_of_mul_eq_mul_left hstep hnumbers
  · rcases List.mem_map.mp hmem with ⟨i, hi, rfl⟩
    exact mem_keysFrom_iff.mpr ⟨step * i, hbelow i hi, rfl⟩

theorem Ending.exitCode_ne_zero (ending : Ending) : ending.exitCode ≠ 0 := by
  cases ending with
  | tooMany items => exact (by decide : (101 : UInt32) ≠ 0)
  | refused fault => exact (by decide : (1 : UInt32) ≠ 0)
  | duplicate item => exact (by decide : (101 : UInt32) ≠ 0)

/-- A run that comes to its end has filled a fresh set, and thins it out if that
    is asked for. -/
theorem run_of_exitCode (h : (run hash limit options).exitCode = 0) :
    options.items ≤ mostItems ∧ ∃ told last,
      fillItems limit options.items 0 (fresh hash).capacity (fresh hash)
          #[.opened (fresh hash).capacity, .filling options.items] = (told, .ok last) ∧
        (run hash limit options).remarks = told.toList ++
          if options.removeEvery = 0 then closing last
          else
            let (left, removed) := removeItems (everyNth options.items options.removeEvery) last
            .removed removed :: closing left := by
  unfold run at h ⊢
  by_cases hmost : mostItems < options.items
  · rw [if_pos hmost] at h
    exact absurd h (Ending.tooMany options.items).exitCode_ne_zero
  · refine ⟨Nat.le_of_not_lt hmost, ?_⟩
    rw [if_neg hmost] at h ⊢
    cases hnew : IdentitySet.new limit hash fun left right => left == right with
    | error fault =>
        rw [hnew] at h
        exact absurd h (Ending.refused fault).exitCode_ne_zero
    | ok set =>
        have hfresh : set = fresh hash := IdentitySet.eq_blank_of_withCapacity hnew
        subst hfresh
        rw [hnew] at h
        rcases hfill : fillItems limit options.items 0 (fresh hash).capacity (fresh hash)
          #[.opened (fresh hash).capacity, .filling options.items] with ⟨told, ending | last⟩
        · simp only [hfill] at h
          exact absurd h ending.exitCode_ne_zero
        · refine ⟨told, last, rfl, ?_⟩
          simp only [hfill]
          split
          · rfl
          · rfl

/-- From a set in which the numbers below a bound are found, the first of every so
    many are removed, none of them in vain. -/
theorem removeItems_everyNth {items step : Nat} {set : NumberSet} (h : set.Valid)
    (hstep : 0 < step) (hitems : items ≤ UInt64.size) (hcount : set.count = items)
    (hfound : ∀ number ∈ KeyRange.keysFrom 1 items 0, set.Finds number) :
    let result := removeItems (everyNth items step) set
    result.1.Valid ∧ result.1.capacity = set.capacity ∧
      result.1.count = items - items ⌈/⌉ step ∧ result.2 = items ⌈/⌉ step := by
  rcases nodup_keys_everyNth hstep hitems with ⟨hnodup, hbelow⟩
  rcases h.drain_range hnodup (fun key hmem => hfound key (hbelow key hmem)) with
    ⟨hvalid, hcapacity, htotal, hremoved⟩
  rw [show (everyNth items step).count = items ⌈/⌉ step from rfl] at htotal hremoved
  exact ⟨hvalid, hcapacity, Nat.eq_sub_of_add_eq (htotal.trans hcount), hremoved⟩

/-- How many numbers a run is asked to remove. -/
def Options.removals (options : Options) : Nat :=
  if options.removeEvery = 0 then 0 else options.items ⌈/⌉ options.removeEvery

/-- What is left of a full set when a run has removed what it was asked to. -/
def thinned (options : Options) (full : NumberSet) : NumberSet :=
  if options.removeEvery = 0 then full
  else (removeItems (everyNth options.items options.removeEvery) full).1

/-- The account of a run that comes to its end, and the set it is about. -/
theorem run_remarks (h : (run hash limit options).exitCode = 0) :
    let full := filled hash limit options.items
    let set := thinned options full
    set.Valid ∧ set.capacity = full.capacity ∧ set.count = options.items - options.removals ∧
      (run hash limit options).remarks =
        [.opened 256, .filling options.items] ++
          ((List.range options.items).filterMap (growthAt hash limit)).map Growth.remark ++
          (if options.removeEvery = 0 then [] else [.removed options.removals]) ++
          closing set := by
  intro full set
  rcases run_of_exitCode h with ⟨hitems, told, last, hfill, hremarks⟩
  have hnone : (filled hash limit 0).count = 0 := rfl
  rcases fillItems_ok hnone hfill with ⟨hlast, hgains, htold⟩
  have hfull : last = full := by rw [hlast, Nat.zero_add]
  subst hfull
  rw [← List.range_eq_range', show (fresh hash).capacity = 256 from Slots.size_blank 256] at htold
  have hcount : full.count = options.items := by
    rw [hgains.count, KeyRange.length_keysFrom, hnone, Nat.zero_add]
  by_cases hevery : options.removeEvery = 0
  · have hset : set = full := if_pos hevery
    rw [if_pos hevery, htold] at hremarks
    rw [hset, Options.removals, if_pos hevery, if_pos hevery]
    exact ⟨hgains.valid, rfl, hcount, by rw [hremarks, List.append_nil]⟩
  · -- Every number is found, so all that are to be removed are there.
    have hset : set = (removeItems (everyNth options.items options.removeEvery) full).1 :=
      if_neg hevery
    have hbits : options.items ≤ UInt64.size := Nat.le_trans hitems (by decide)
    rcases removeItems_everyNth hgains.valid (Nat.pos_of_ne_zero hevery) hbits hcount hgains.found
      with ⟨hvalid, hsame, hleft, hremoved⟩
    rw [if_neg hevery, htold] at hremarks
    rw [hset, Options.removals, if_neg hevery, if_neg hevery]
    refine ⟨hvalid, hsame, hleft, ?_⟩
    rw [hremarks, ← hremoved, List.append_assoc _ [_], List.singleton_append]

/-- The figures of a set as they are printed. -/
theorem report_stats (set : NumberSet) :
    let load := Stats.percentage set.stats.loadFactor
    let mean := Text.twoPlaces set.stats.meanDistance
    set.stats.report =
      ["=== Hash Table Debug Statistics ===",
        s!"Population: {set.count}/{set.capacity} ({load}% load factor)",
        s!"Tombstones: {set.stats.tombstones}",
        s!"Probe length: {mean} mean, {set.stats.longest} longest"] :=
  rfl

theorem lines_closing (set : NumberSet) :
    (closing set).flatMap Remark.lines =
      [s!"Set holds {set.count} values",
        "Final load factor: " ++ Stats.percentage set.stats.loadFactor ++ "%"] ++
        set.histogram.chart ++ set.stats.report := by
  simp only [closing, Remark.lines, List.flatMap_cons, List.flatMap_nil, List.append_nil,
    List.cons_append, List.nil_append]

/-- The lines of a run that comes to its end, as far as the set at its end does not
    have to be looked into. -/
theorem run_lines (h : (run hash limit options).exitCode = 0) :
    let set := thinned options (filled hash limit options.items)
    (run hash limit options).lines =
      ["Initial capacity: 256", s!"Filling set with {options.items} u64 values..."] ++
        (((List.range options.items).filterMap (growthAt hash limit)).map fun step =>
          s!"  grew {step.before} -> {step.after} slots at {step.count} items") ++
        (if options.removeEvery = 0 then [] else [s!"Removed {options.removals} values"]) ++
        [s!"Set holds {set.count} values",
          "Final load factor: " ++ Stats.percentage set.stats.loadFactor ++ "%"] ++
        set.histogram.chart ++ set.stats.report := by
  intro set
  have hopening : [Remark.opened 256, .filling options.items].flatMap Remark.lines =
      ["Initial capacity: 256", s!"Filling set with {options.items} u64 values..."] := rfl
  have hthinned : (if options.removeEvery = 0 then []
      else [Remark.removed options.removals]).flatMap Remark.lines =
        if options.removeEvery = 0 then [] else [s!"Removed {options.removals} values"] := by
    split <;> rfl
  rw [Transcript.lines, (run_remarks h).2.2.2, List.flatMap_append, List.flatMap_append,
    List.flatMap_append, hopening, flatMap_lines_growth, hthinned, lines_closing]
  simp only [List.append_assoc]
  rfl

/-- What a run that comes to its end says, line by line. It tells each change of
    the capacity that came with a number, and these are a chain of larger and
    larger powers of two, from 256 to the capacity in the figures. It says that
    it removed the first of every so many numbers if it was asked to, and that
    the set holds all others. So many are the entries in the figures, and so many
    the counts of the chart add up to, which is reported empty exactly if there
    are none. The capacity is at least twice as many. -/
theorem run_adds_up (h : (run hash limit options).exitCode = 0) :
    let removed := if options.removeEvery = 0 then 0 else options.items ⌈/⌉ options.removeEvery
    let left := options.items - removed
    let growth := (List.range options.items).filterMap (growthAt hash limit)
    let set := thinned options (filled hash limit options.items)
    let histogram := set.histogram
    let count := fun distance => histogram.counts.getD distance 0
    let bar := fun distance => (60 * count distance) ⌈/⌉ histogram.most
    let chart :=
      if left = 0 then ["probe histogram: empty"]
      else (List.range 8).map fun distance =>
        " " ++ toString distance ++ " | " ++ String.ofList (List.replicate (bar distance) '█') ++
          s!" ({count distance})"
    let load := Stats.percentage (left.toFloat / set.capacity.toFloat)
    let mean := Text.twoPlaces set.stats.meanDistance
    (run hash limit options).lines =
        ["Initial capacity: 256", s!"Filling set with {options.items} u64 values..."] ++
          (growth.map fun step =>
            s!"  grew {step.before} -> {step.after} slots at {step.count} items") ++
          (if options.removeEvery = 0 then [] else [s!"Removed {removed} values"]) ++
          [s!"Set holds {left} values", "Final load factor: " ++ load ++ "%"] ++ chart ++
          ["=== Hash Table Debug Statistics ===",
            s!"Population: {left}/{set.capacity} ({load}% load factor)",
            s!"Tombstones: {set.stats.tombstones}",
            s!"Probe length: {mean} mean, {set.stats.longest} longest"] ∧
      GrowsTo 256 growth set.capacity ∧ set.Valid ∧ set.count = left ∧
      histogram.counts = (List.range 8).map count ∧ histogram.counts.sum = left ∧
      (chart = ["probe histogram: empty"] ↔ left = 0) ∧ 2 * left ≤ set.capacity := by
  intro removed left growth set histogram count bar chart load mean
  rcases run_remarks h with ⟨hvalid, hsame, hcount, _⟩
  have hleft : set.table.count = left := hcount
  have hchart : histogram.chart = chart := by
    by_cases hnone : left = 0
    · rw [show chart = _ from if_pos hnone]
      exact hvalid.table.chart_eq_empty_iff.mpr (hleft.trans hnone)
    · have hsome : set.table.count ≠ 0 := fun hzero => hnone (hleft.symm.trans hzero)
      rw [show chart = _ from if_neg hnone]
      exact hvalid.table.chart_eq_rows hsome
  refine ⟨?_, ?_, hvalid, hcount, set.table.map_getD_counts_histogram.symm, ?_, ?_, ?_⟩
  · have hload : set.stats.loadFactor = left.toFloat / set.capacity.toFloat := by
      rw [← hleft]
      rfl
    rw [run_lines h, report_stats, hcount, hload, hchart]
    rfl
  · rw [hsame]
    have hgrowth := growsTo_filled hash limit 0 options.items
    have hstart : (filled hash limit 0).capacity = 256 := Slots.size_blank 256
    rwa [← List.range_eq_range', Nat.zero_add, hstart] at hgrowth
  · exact hvalid.table.sum_counts_histogram.trans hleft
  · rw [← hchart, ← hleft]
    exact hvalid.table.chart_eq_empty_iff
  · rw [← hleft]
    exact hvalid.table.two_mul_count_le

/-- Hashes of one home for the first nine numbers. -/
def crowdedHash (number : UInt64) : UInt64 :=
  [201, 215, 375, 561, 598, 699, 1129, 1165, 1431].getD number.toNat number

/-- The ninth number makes the set grow. Three of nine are removed again. -/
theorem run_adds_up_crowded :
    let set := thinned ⟨9, 4⟩ (filled crowdedHash 512 9)
    let load := Stats.percentage ((6 : Nat).toFloat / (512 : Nat).toFloat)
    let mean := Text.twoPlaces set.stats.meanDistance
    (run crowdedHash 512 ⟨9, 4⟩).exitCode = 0 ∧
      (run crowdedHash 512 ⟨9, 4⟩).lines =
        ["Initial capacity: 256", "Filling set with 9 u64 values...",
          "  grew 256 -> 512 slots at 9 items", "Removed 3 values", "Set holds 6 values",
          "Final load factor: " ++ load ++ "%",
          " 0 |  (0)",
          " 1 | ████████████████████████████████████████████████████████████ (2)",
          " 2 | ████████████████████████████████████████████████████████████ (2)",
          " 3 | ██████████████████████████████ (1)",
          " 4 | ██████████████████████████████ (1)",
          " 5 |  (0)",
          " 6 |  (0)",
          " 7 |  (0)",
          "=== Hash Table Debug Statistics ===", s!"Population: 6/512 ({load}% load factor)",
          "Tombstones: 2", s!"Probe length: {mean} mean, {4} longest"] ∧
      GrowsTo 256 [⟨256, 512, 9⟩] 512 ∧ set.Valid ∧ set.count = 6 ∧ 2 * 6 ≤ 512 := by
  intro set load mean
  have hrun : (run crowdedHash 512 ⟨9, 4⟩).exitCode = 0 ∧
      (List.range 9).filterMap (growthAt crowdedHash 512) = [⟨256, 512, 9⟩] ∧
      set.capacity = 512 ∧ set.stats.tombstones = 2 ∧
      [3, 4, 259, 260, 261, 262].filterMap set.table.distanceAt = [1, 2, 1, 2, 3, 4] := by
    decide +kernel
  rcases hrun with ⟨hexit, hgrown, hsize, htombstones, hdistances⟩
  rcases run_adds_up hexit with ⟨hlines, hgrowth, hvalid, hcount, _, _, _, hroom⟩
  -- Six places have six entries, so no other place has one.
  have hhistogram : set.histogram = ⟨[0, 2, 2, 1, 1, 0, 0, 0]⟩ := by
    have hplaces : [3, 4, 259, 260, 261, 262].Sublist (List.range set.table.capacity) := by
      rw [show set.table.capacity = 512 from hsize]
      decide +kernel
    have hsix : ([3, 4, 259, 260, 261, 262].filterMap set.table.distanceAt).length =
        set.table.count := by
      rw [hdistances]
      exact hcount.symm
    rw [IdentitySet.histogram, Table.histogram, hvalid.table.distances_eq_of_sublist hplaces hsix,
      hdistances]
    rfl
  have hlongest : set.stats.longest = 4 := congrArg Histogram.longest hhistogram
  have hchart : ((List.range 8).map fun distance =>
      " " ++ toString distance ++ " | " ++ String.ofList (List.replicate
        ((60 * set.histogram.counts.getD distance 0) ⌈/⌉ set.histogram.most) '█') ++
        s!" ({set.histogram.counts.getD distance 0})") =
      [" 0 |  (0)",
        " 1 | ████████████████████████████████████████████████████████████ (2)",
        " 2 | ████████████████████████████████████████████████████████████ (2)",
        " 3 | ██████████████████████████████ (1)",
        " 4 | ██████████████████████████████ (1)",
        " 5 |  (0)",
        " 6 |  (0)",
        " 7 |  (0)"] := by
    rw [hhistogram]
    decide +kernel
  have hremoved : (if (4 : Nat) = 0 then 0 else 9 ⌈/⌉ 4) = 3 := rfl
  dsimp only at hlines hgrowth
  rw [hgrown, hremoved, hsize, htombstones, hlongest, hchart, if_neg (by decide),
    if_neg (by decide)] at hlines
  rw [hgrown, hsize] at hgrowth
  rw [hsize] at hroom
  exact ⟨hexit, hlines, hgrowth, hvalid, hcount, hroom⟩

end Demo

end BoundedProbing
