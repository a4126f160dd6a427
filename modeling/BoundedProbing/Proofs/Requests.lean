import Mathlib.Data.List.Iterate
import BoundedProbing.Proofs.Run

/-!
# Requests for Memory

Which arrays an insertion asks for, in which order, and when it stops asking.

Two loops ask for arrays. The inner one is `refit`, which doubles until every
entry has a place, and the outer one is the insertion, which rebuilds until its
key has a place. The sizes they ask for join up. A rebuild that succeeds leaves
a table of the size it asked for last, and no tombstone; so the next rebuild
cannot be one at the same size, and asks for twice that size. What remains is
the first size, which the first look at the table decides.

`Climb` says that sizes double from one to the next and that none was refused.
It is kept as a relation with the size that would come next as its end, because
that is where the two loops meet: the end of one climb is the start of the
next. An insertion is a climb and possibly one more request, the one that is
refused.

Sizes that double stay below the limit only so often. That bounds the requests
of an insertion, and with them its rounds, since every round but the last asks
for at least one array.

## Main definitions

* `Climb`: Sizes that double and are all granted.
* `Tried`: How a rebuild's attempts can end.
* `Table.nextSize`: The size a planned rebuild asks for first.
* `Op.limit?`, `Table.ReachableBelow`: Limits that stay below a bound.

## Theorems

* `Climb.append_next`: A climb with its end is an iterated doubling.
* `refit_tried`: The sizes that a rebuild tries are a climb.
* `Rebuilds.climb`: So are the sizes of all rebuilds of an insertion.
* `Table.put_climb`: The requests of an insertion.
* `Table.put_requests_eq_iterate`, `Table.requests_of_outOfMemory`: Its sizes
  double, and the one that is refused is the last.
* `Table.ReachableBelow.capacity_lt`: Limits bound the capacity.
* `Table.put_requests_iterate`: The requests of an insertion under limits that
  keep doubling from overflowing.
-/

namespace BoundedProbing

universe u

variable {α : Type u}

/-- The sizes double from the first on, none of them is above the limit, and
    the one that would come next is the last index. -/
inductive Climb (limit : Nat) : Nat → List Nat → Nat → Prop where
  | stay (size : Nat) : Climb limit size [] size
  | step {size next : Nat} {sizes : List Nat} (hle : size ≤ limit)
      (hrest : Climb limit (2 * size) sizes next) : Climb limit size (size :: sizes) next

namespace Climb

variable {limit first next : Nat} {sizes : List Nat}

theorem trans {later : List Nat} {last : Nat} (h : Climb limit first sizes next)
    (hlater : Climb limit next later last) : Climb limit first (sizes ++ later) last := by
  -- The later climb starts at the size that would come next, so it takes the place of `stay`.
  induction h with
  | stay size => exact hlater
  | step hle _ ih => exact .step hle (ih hlater)

theorem le_limit (h : Climb limit first sizes next) : ∀ size ∈ sizes, size ≤ limit := by
  induction h with
  | stay size => exact fun _ hmem => absurd hmem List.not_mem_nil
  | step hle _ ih =>
      intro other hmem
      rcases List.mem_cons.mp hmem with rfl | hlater
      · exact hle
      · exact ih other hlater

theorem append_next (h : Climb limit first sizes next) :
    sizes ++ [next] = List.iterate (2 * ·) first (sizes.length + 1) := by
  induction h with
  | stay size => rfl
  | step _ _ ih =>
      rw [List.cons_append, ih, List.length_cons]
      rfl

theorem eq_iterate (h : Climb limit first sizes next) :
    sizes = List.iterate (2 * ·) first sizes.length := by
  induction h with
  | stay size => rfl
  | step _ _ ih => rw [List.length_cons, List.iterate, ← ih]

theorem first_le (h : Climb limit first sizes next) : ∀ size ∈ sizes ++ [next], first ≤ size := by
  induction h with
  | stay size =>
      intro other hmem
      rw [List.nil_append, List.mem_singleton] at hmem
      exact le_of_eq hmem.symm
  | step _ _ ih =>
      intro other hmem
      rcases List.mem_cons.mp hmem with rfl | hlater
      · exact le_refl _
      · have hdouble := ih other hlater
        omega

theorem pairwise_lt (h : Climb limit first sizes next) (hpos : 0 < first) :
    (sizes ++ [next]).Pairwise (· < ·) := by
  induction h with
  | stay size => exact List.pairwise_singleton _ _
  | step _ hrest ih =>
      -- The later sizes are at least twice the first.
      refine List.pairwise_cons.mpr ⟨fun other hmem => ?_, ih (by omega)⟩
      have hdouble := hrest.first_le other hmem
      omega

theorem next_le (h : Climb limit first sizes next) (hsome : sizes ≠ []) : next ≤ 2 * limit := by
  induction h with
  | stay size => exact absurd rfl hsome
  | @step size _ rest hle hrest ih =>
      by_cases hlast : rest = []
      · -- The step before the end was granted.
        subst hlast
        cases hrest
        omega
      · exact ih hlast

theorem two_pow_le_next (h : Climb limit first sizes next) (hpos : 0 < first) :
    2 ^ sizes.length ≤ next := by
  -- Each step doubles, so the start times the power is the end.
  have hmul : first * 2 ^ sizes.length = next := by
    clear hpos
    induction h with
    | stay size => rw [List.length_nil, pow_zero, Nat.mul_one]
    | step _ _ ih =>
        rw [← ih, List.length_cons, pow_succ]
        ring
  rw [← hmul]
  exact Nat.le_mul_of_pos_left _ hpos

/-- Under a limit of fewer than 64 bits there is room for 63 sizes. -/
theorem length_lt (h : Climb limit first sizes next) (hpos : 0 < first) (hlimit : limit < 2 ^ 63) :
    sizes.length < 64 := by
  by_cases hnone : sizes = []
  · rw [hnone, List.length_nil]
    omega
  · have hpow := h.two_pow_le_next hpos
    have hnext := h.next_le hnone
    exact (Nat.pow_lt_pow_iff_right (by omega)).mp (by omega : 2 ^ sizes.length < 2 ^ 64)

end Climb

/-- How the attempts of a rebuild can end: with an array that took every entry,
    with a size that is refused, or with one that cannot be doubled. -/
inductive Tried (limit capacity : Nat) : List Nat × Except Fault (Slots α) → Prop where
  | fitted {granted : List Nat} {slots : Slots α}
      (hclimb : Climb limit capacity granted (2 * slots.size)) (hle : slots.size ≤ limit) :
      Tried limit capacity (granted, .ok slots)
  | refused {granted : List Nat} {wanted : Nat} (hclimb : Climb limit capacity granted wanted)
      (hover : limit < wanted) :
      Tried limit capacity (granted ++ [wanted], .error (.outOfMemory wanted))
  | overflowed {granted : List Nat} {last : Nat} (hclimb : Climb limit capacity granted (2 * last))
      (hle : last ≤ limit) (hnone : doubled last = none) :
      Tried limit capacity (granted, .error (.capacityOverflow last))

theorem Tried.step {limit capacity : Nat} {tried : List Nat × Except Fault (Slots α)}
    (hle : capacity ≤ limit) (h : Tried limit (2 * capacity) tried) :
    Tried limit capacity (capacity :: tried.1, tried.2) := by
  cases h with
  | fitted hclimb hsize => exact .fitted (.step hle hclimb) hsize
  | @refused granted wanted hclimb hover =>
      rw [← List.cons_append]
      exact .refused (.step hle hclimb) hover
  | overflowed hclimb hlast hnone => exact .overflowed (.step hle hclimb) hlast hnone

/-- The sizes that a rebuild tries are a climb. -/
theorem refit_tried (limit : Nat) (pairs : List (UInt64 × α)) (capacity : Nat) :
    Tried limit capacity (refit limit pairs capacity) := by
  -- An attempt that fails puts its size in front of those that are tried afterwards.
  fun_induction refit limit pairs capacity with
  | case1 capacity hover => exact .refused (.stay capacity) hover
  | case2 capacity hover filled hfill =>
      have hsize := size_placeAll _ _ _ hfill
      rw [Slots.size_blank] at hsize
      have hle : capacity ≤ limit := Nat.le_of_not_lt hover
      refine .fitted ?_ (by omega)
      rw [hsize]
      exact .step hle (.stay _)
  | case3 capacity hover _ hnone =>
      have hle : capacity ≤ limit := Nat.le_of_not_lt hover
      exact .overflowed (.step hle (.stay _)) hle hnone
  | case4 capacity hover _ larger hlarger tried ih =>
      have hstep : Tried limit (2 * capacity) tried := (doubled_eq_some_iff.mp hlarger).1 ▸ ih
      exact hstep.step (Nat.le_of_not_lt hover)

theorem requests_append (earlier later : List Event) :
    requests (earlier ++ later) = requests earlier ++ requests later :=
  List.filterMap_append

theorem requests_restoration (first : Table α) (events : List Event) (fault : Fault) :
    requests (restoration first events fault) = [] := by
  unfold restoration
  split <;> rfl

namespace Table

variable {table : Table α} {limit capacity : Nat} {key : UInt64} {value : α}

theorem requests_sighting (table : Table α) (key : UInt64) :
    requests (table.sighting key) = [] := by
  unfold sighting
  split <;> rfl

theorem requests_rebuild (limit : Nat) (table : Table α) (capacity : Nat) :
    requests (table.rebuild limit capacity).history =
      (refit limit table.slots.entries capacity).1 := by
  have hasked : ∀ sizes : List Nat, requests (sizes.map Event.requested) = sizes := by
    intro sizes
    rw [requests, List.filterMap_map]
    exact List.filterMap_some
  cases hfit : (refit limit table.slots.entries capacity).2 with
  | ok slots =>
      rw [rebuild_eq_of_refit_ok hfit, requests_append, hasked]
      exact List.append_nil _
  | error fault =>
      rw [rebuild_eq_of_refit_error hfit]
      exact hasked _

/-- The size that a rebuild planned for the key asks for first. -/
def nextSize (table : Table α) (key : UInt64) : Nat :=
  if place table.slots key = .exhausted ∧ table.count < table.tombstones then table.capacity
  else 2 * table.capacity

theorem eq_nextSize_of_plan (h : table.plan key = .rebuild capacity) :
    capacity = table.nextSize key := by
  have hplanned := table.planned key
  rw [h] at hplanned
  unfold nextSize
  cases hplanned with
  | refresh hplace _ hmore => rw [if_pos ⟨hplace, hmore⟩]
  | enlarge hgrow hlarger =>
      rw [(doubled_eq_some_iff.mp hlarger).1, if_neg]
      intro hboth
      rcases hgrow with ⟨index, hplace, _⟩ | ⟨_, _, hless⟩
      · exact absurd (hplace.symm.trans hboth.1) (by simp only [reduceCtorEq, not_false_eq_true])
      · exact hless hboth.2

/-- The first size is that of the table only if the key's window is full and
    there are more tombstones than entries. -/
theorem nextSize_eq_or (table : Table α) (key : UInt64) :
    table.nextSize key = 2 * table.capacity ∨ table.nextSize key = table.capacity ∧
      (∀ index ∈ windowOf table.slots key, (table.slots.read index).isEntry = true) ∧
      table.count < table.tombstones := by
  unfold nextSize
  by_cases hsame : place table.slots key = .exhausted ∧ table.count < table.tombstones
  · rw [if_pos hsame]
    refine Or.inr ⟨rfl, fun index hmem => ?_, hsame.2⟩
    rcases List.mem_map.mp hmem with ⟨distance, hdistance, rfl⟩
    exact (place_eq_exhausted_iff.mp hsame.1).2 distance (List.mem_range.mp hdistance)
  · rw [if_neg hsame]
    exact Or.inl rfl

theorem nextSize_pos (h : 0 < table.capacity) (key : UInt64) : 0 < table.nextSize key := by
  unfold nextSize
  split <;> omega

/-- A rebuild that succeeds leaves no tombstone, so the next one must double. -/
theorem nextSize_rebuild {left : Layout α} (h : (table.rebuild limit capacity).answer = .ok left)
    (key : UInt64) :
    (table.rebuild limit capacity).state.nextSize key =
      2 * (table.rebuild limit capacity).state.capacity := by
  unfold nextSize
  rw [(rebuild_ok h).1]
  exact if_neg fun hboth => Nat.not_lt_zero _ hboth.2

theorem climb_rebuild {left : Layout α} (h : (table.rebuild limit capacity).answer = .ok left) :
    Climb limit capacity (requests (table.rebuild limit capacity).history)
        (2 * (table.rebuild limit capacity).state.capacity) ∧
      (table.rebuild limit capacity).state.capacity ≤ limit := by
  rcases rebuild_eq_of_ok h with ⟨_, slots, hfit, hstate⟩
  have htried := refit_tried limit table.slots.entries capacity
  rw [requests_rebuild, hstate, Table.capacity]
  generalize refit limit table.slots.entries capacity = tried at hfit htried ⊢
  cases htried with
  | fitted hclimb hle =>
      rw [Except.ok.injEq] at hfit
      rw [← hfit]
      exact ⟨hclimb, hle⟩
  | refused _ _ => exact absurd hfit (by simp only [reduceCtorEq, not_false_eq_true])
  | overflowed _ _ _ => exact absurd hfit (by simp only [reduceCtorEq, not_false_eq_true])

/-- A rebuild that fails tried a climb. The size at its end is refused, or it
    does not exist. -/
theorem climb_rebuild_error {fault : Fault}
    (h : (table.rebuild limit capacity).answer = .error fault) :
    ∃ granted next, Climb limit capacity granted next ∧
      ((requests (table.rebuild limit capacity).history = granted ++ [next] ∧ limit < next ∧
          fault = .outOfMemory next) ∨
        (requests (table.rebuild limit capacity).history = granted ∧
          ∃ last, fault = .capacityOverflow last ∧ next = 2 * last ∧ last ≤ limit ∧
            doubled last = none)) := by
  rcases rebuild_eq_of_error h with ⟨hfit, _⟩
  have htried := refit_tried limit table.slots.entries capacity
  rw [requests_rebuild]
  generalize refit limit table.slots.entries capacity = tried at hfit htried ⊢
  cases htried with
  | fitted _ _ => exact absurd hfit (by simp only [reduceCtorEq, not_false_eq_true])
  | @refused granted wanted hclimb hover =>
      rw [Except.error.injEq] at hfit
      exact ⟨granted, wanted, hclimb, Or.inl ⟨rfl, hover, hfit.symm⟩⟩
  | @overflowed granted last hclimb hle hnone =>
      rw [Except.error.injEq] at hfit
      exact ⟨granted, _, hclimb, Or.inr ⟨rfl, last, hfit.symm, rfl, hle, hnone⟩⟩

end Table

namespace Rebuilds

variable {limit : Nat} {key : UInt64} {table last : Table α} {events : List Event}

/-- The sizes asked for by the rebuilds of an insertion are a climb, from the
    size the first look calls for to the one that the last look would. -/
theorem climb (h : Rebuilds limit key table events last) :
    Climb limit (table.nextSize key) (requests events) (last.nextSize key) := by
  induction h with
  | done table => exact .stay _
  | more hplan hok _ ih =>
      rw [requests_append, requests_append, Table.requests_sighting, List.nil_append]
      -- The rebuild ends at twice its size. It left no tombstone, so the next look calls for that.
      have hfirst := (Table.climb_rebuild hok).1
      rw [Table.eq_nextSize_of_plan hplan] at hfirst hok ih ⊢
      rw [Table.nextSize_rebuild hok] at ih
      exact hfirst.trans ih

theorem capacity_eq_or_le (h : Rebuilds limit key table events last) :
    last.capacity = table.capacity ∨ last.capacity ≤ limit := by
  induction h with
  | done table => exact Or.inl rfl
  | more _ hok _ ih =>
      rcases ih with hsame | hle
      · -- No rebuild came after this one, and its array was granted.
        rw [hsame]
        exact Or.inr (Table.climb_rebuild hok).2
      · exact Or.inr hle

end Rebuilds

namespace Table

variable {table : Table α} {limit bound : Nat} {key : UInt64} {value : α}

/-- The requests of an insertion are a climb, and then possibly one that is
    refused for lack of memory. -/
theorem put_climb (limit : Nat) (table : Table α) (key : UInt64) (value : α) :
    ∃ granted next, Climb limit (table.nextSize key) granted next ∧
      ((requests (table.put limit key value).history = granted ∧
          ∀ wanted, (table.put limit key value).answer ≠ .error (.outOfMemory wanted)) ∨
        (requests (table.put limit key value).history = granted ++ [next] ∧ limit < next ∧
          (table.put limit key value).answer = .error (.outOfMemory next))) := by
  rcases put_course limit table key value with ⟨events, last, hrebuilds, hend⟩
  have hclimb := hrebuilds.climb
  generalize table.put limit key value = outcome at hend ⊢
  cases hend with
  | overwrote hplan =>
      refine ⟨_, _, hclimb, Or.inl ⟨rfl, fun wanted => ?_⟩⟩
      simp only [ne_eq, reduceCtorEq, not_false_eq_true]
  | occupied hplan =>
      refine ⟨_, _, hclimb, Or.inl ⟨rfl, fun wanted => ?_⟩⟩
      simp only [ne_eq, reduceCtorEq, not_false_eq_true]
  | refused hplan =>
      refine ⟨_, _, hclimb, Or.inl ⟨?_, fun wanted hanswer => ?_⟩⟩
      · rw [requests_append, requests_append, requests_sighting, requests_restoration,
          List.append_nil, List.append_nil]
      · -- A refusal without a rebuild has another cause.
        rw [Except.error.injEq] at hanswer
        have hplanned := last.planned key
        rw [hplan, hanswer] at hplanned
        cases hplanned
  | stuck hplan herror =>
      rw [← eq_nextSize_of_plan hplan] at hclimb
      -- The sizes of the rebuild that failed go on where those of the others ended.
      rcases climb_rebuild_error herror with ⟨granted, next, hlast, hcause⟩
      refine ⟨_, _, hclimb.trans hlast, ?_⟩
      rw [requests_append, requests_append, requests_append, requests_sighting,
        requests_restoration, List.append_nil, List.append_nil]
      rcases hcause with ⟨hrequests, hover, hfault⟩ | ⟨hrequests, size, hfault, _⟩
      · rw [hrequests, hfault]
        exact Or.inr ⟨(List.append_assoc _ _ _).symm, hover, rfl⟩
      · rw [hrequests, hfault]
        refine Or.inl ⟨rfl, fun wanted => ?_⟩
        simp only [ne_eq, Except.error.injEq, reduceCtorEq, not_false_eq_true]

/-- The sizes an insertion asks for double from one to the next. -/
theorem put_requests_eq_iterate (limit : Nat) (table : Table α) (key : UInt64) (value : α) :
    ∃ count, requests (table.put limit key value).history =
      List.iterate (2 * ·) (table.nextSize key) count := by
  rcases put_climb limit table key value with ⟨granted, next, hclimb, hrequests⟩
  rcases hrequests with ⟨hsizes, _⟩ | ⟨hsizes, _, _⟩
  · exact ⟨granted.length, hsizes.trans hclimb.eq_iterate⟩
  · exact ⟨granted.length + 1, hsizes.trans hclimb.append_next⟩

theorem nodup_put_requests (hpos : 0 < table.capacity) (limit : Nat) (key : UInt64) (value : α) :
    (requests (table.put limit key value).history).Nodup := by
  rcases put_climb limit table key value with ⟨granted, next, hclimb, hrequests⟩
  have hnodup : (granted ++ [next]).Nodup :=
    (hclimb.pairwise_lt (nextSize_pos hpos key)).imp Nat.ne_of_lt
  rcases hrequests with ⟨hsizes, _⟩ | ⟨hsizes, _, _⟩
  · rw [hsizes]
    exact (List.nodup_append.mp hnodup).1
  · rw [hsizes]
    exact hnodup

theorem length_put_requests_le (hpos : 0 < table.capacity) (hlimit : limit < 2 ^ 63)
    (key : UInt64) (value : α) : (requests (table.put limit key value).history).length ≤ 64 := by
  rcases put_climb limit table key value with ⟨granted, next, hclimb, hrequests⟩
  have hlength := hclimb.length_lt (nextSize_pos hpos key) hlimit
  rcases hrequests with ⟨hsizes, _⟩ | ⟨hsizes, _, _⟩
  · rw [hsizes]
    omega
  · rw [hsizes, List.length_append, List.length_singleton]
    omega

/-- Lack of memory is reported for the last size that was asked for, and only
    this one is above the limit. -/
theorem requests_of_outOfMemory {wanted : Nat}
    (h : (table.put limit key value).answer = .error (.outOfMemory wanted)) :
    ∃ granted, requests (table.put limit key value).history = granted ++ [wanted] ∧
      limit < wanted ∧ ∀ size ∈ granted, size ≤ limit := by
  rcases put_climb limit table key value with ⟨granted, next, hclimb, hrequests⟩
  rcases hrequests with ⟨_, hnot⟩ | ⟨hsizes, hover, hrefused⟩
  · exact absurd h (hnot wanted)
  · rw [hrefused, Except.error.injEq, Fault.outOfMemory.injEq] at h
    rw [← h]
    exact ⟨granted, hsizes, hover, hclimb.le_limit⟩

/-- Only a capacity that cannot be doubled overflows, and the table either had
    it before the insertion or was granted it. -/
theorem overflow_of_put {wanted : Nat} (hpos : 0 < table.capacity)
    (h : (table.put limit key value).answer = .error (.capacityOverflow wanted)) :
    UInt64.size ≤ 2 * wanted ∧ (wanted = table.capacity ∨ wanted ≤ limit) := by
  have hlarge : ∀ last, 0 < last → doubled last = none → UInt64.size ≤ 2 * last := by
    intro last hlast hnone
    unfold doubled at hnone
    by_contra hc
    rw [if_pos ⟨hlast, by omega⟩] at hnone
    exact absurd hnone (by simp only [reduceCtorEq, not_false_eq_true])
  rcases put_course limit table key value with ⟨events, last, hrebuilds, hend⟩
  have hcapacity := hrebuilds.capacity_eq_or_le
  have hlast : 0 < last.capacity := Nat.lt_of_lt_of_le hpos hrebuilds.capacity_le
  generalize table.put limit key value = outcome at h hend
  cases hend with
  | overwrote hplan => exact absurd h (by simp only [reduceCtorEq, not_false_eq_true])
  | occupied hplan => exact absurd h (by simp only [reduceCtorEq, not_false_eq_true])
  | refused hplan =>
      rw [Except.error.injEq] at h
      have hplanned := last.planned key
      rw [hplan, h] at hplanned
      cases hplanned with
      | overflow _ hnone => exact ⟨hlarge _ hlast hnone, hcapacity⟩
  | stuck hplan herror =>
      rw [Except.error.injEq] at h
      rcases climb_rebuild_error herror with
        ⟨_, next, hclimb, ⟨_, _, hfault⟩ | ⟨_, size, hfault, hnext, hle, hnone⟩⟩
      · exact absurd (h.symm.trans hfault) (by simp only [reduceCtorEq, not_false_eq_true])
      · rw [h, Fault.capacityOverflow.injEq] at hfault
        rw [hfault]
        -- The sizes that were tried only grew, so none of them is zero.
        have hfirst := hclimb.first_le next (List.mem_append_right _ List.mem_cons_self)
        have hplanned := nextSize_pos hlast key
        rw [← eq_nextSize_of_plan hplan] at hplanned
        exact ⟨hlarge size (by omega) hnone, Or.inr hle⟩

theorem capacity_put_lt (h : table.capacity < bound) (hlimit : limit < bound) (key : UInt64)
    (value : α) : (table.put limit key value).state.capacity < bound := by
  rcases put_course limit table key value with ⟨events, last, hrebuilds, hend⟩
  have hcapacity := hrebuilds.capacity_eq_or_le
  generalize table.put limit key value = outcome at hend ⊢
  cases hend with
  | overwrote hplan =>
      rw [capacity_overwrite]
      omega
  | occupied hplan =>
      rw [capacity_occupy]
      omega
  | refused hplan => exact h
  | stuck hplan herror => exact h

end Table

/-- The limit that comes with the operation, if it asks for memory at all. -/
def Op.limit? : Op α → Option Nat
  | .put limit _ _ => some limit
  | _ => none

namespace Table

variable {table : Table α} {limit bound : Nat}

/-- An operation that asks for no memory keeps the capacity. -/
theorem capacity_perform {op : Op α} (h : op.limit? = none) :
    (table.perform op).1.capacity = table.capacity := by
  cases op with
  | put limit key value =>
      exact absurd h (by simp only [Op.limit?, reduceCtorEq, not_false_eq_true])
  | remove key => exact capacity_remove table key
  | clear => exact Slots.size_blank table.capacity
  | get key => rfl
  | contains key => rfl
  | length => rfl
  | copy => rfl

/-- The tables that operations lead to while all limits are below the bound. -/
inductive ReachableBelow (bound : Nat) : Table α → Prop where
  | made {limit wanted : Nat} {table : Table α} (hlimit : limit < bound)
      (h : withCapacity limit wanted = .ok table) : ReachableBelow bound table
  | after {table : Table α} {op : Op α} (h : ReachableBelow bound table)
      (hop : ∀ limit ∈ op.limit?, limit < bound) : ReachableBelow bound (table.perform op).1

theorem ReachableBelow.reachable (h : table.ReachableBelow bound) : table.Reachable := by
  induction h with
  | made _ h => exact .made h
  | after _ _ ih => exact .after ih _

theorem ReachableBelow.run (h : table.ReachableBelow bound) {ops : List (Op α)}
    (hops : ∀ op ∈ ops, ∀ limit ∈ op.limit?, limit < bound) :
    (table.run ops).1.ReachableBelow bound := by
  induction ops generalizing table with
  | nil => exact h
  | cons op rest ih =>
      exact ih (.after h (hops op List.mem_cons_self)) fun later hlater =>
        hops later (List.mem_cons_of_mem _ hlater)

/-- Arrays that are granted are below the bound, and so is every table. -/
theorem ReachableBelow.capacity_lt (h : table.ReachableBelow bound) : table.capacity < bound := by
  induction h with
  | @made limit wanted table hlimit h =>
      have hgranted : capacityFor wanted ≤ limit := (withCapacity_eq_ok_iff.mp h).2.1
      rw [eq_blank_of_withCapacity h, Table.capacity, blank, Slots.size_blank]
      exact Nat.lt_of_le_of_lt hgranted hlimit
  | @after table op _ hop ih =>
      cases hlimit : op.limit? with
      | none =>
          rw [capacity_perform hlimit]
          exact ih
      | some limit =>
          cases op with
          | put other key value => exact capacity_put_lt ih (hop other rfl) key value
          | _ => exact absurd hlimit (by simp only [Op.limit?, reduceCtorEq, not_false_eq_true])

/-- Under limits below 2^63 every insertion ends. It takes finitely many
    rebuilds, and asks for at most 64 arrays, each twice as large as the one
    before. The first is twice as large as the table, or of its size if the
    key's window is full and there are more tombstones than entries. Lack of
    memory is reported for the last of them, the only one above the limit, and
    no capacity is too large to be doubled. -/
theorem put_requests_iterate (h : table.ReachableBelow (2 ^ 63)) (hlimit : limit < 2 ^ 63)
    (key : UInt64) (value : α) :
    let outcome := table.put limit key value
    (∃ events last, Rebuilds limit key table events last ∧
        Ends limit key value table events last outcome) ∧
      (∃ first count, requests outcome.history = List.iterate (2 * ·) first count ∧ count ≤ 64 ∧
        (first = 2 * table.capacity ∨ first = table.capacity ∧
          (∀ index ∈ windowOf table.slots key, (table.slots.read index).isEntry = true) ∧
          table.count < table.tombstones)) ∧
      (requests outcome.history).Nodup ∧
      (∀ wanted, outcome.answer = .error (.outOfMemory wanted) →
        ∃ granted, requests outcome.history = granted ++ [wanted] ∧ limit < wanted ∧
          ∀ size ∈ granted, size ≤ limit) ∧
      ∀ wanted, outcome.answer ≠ .error (.capacityOverflow wanted) := by
  intro outcome
  have hcapacity := h.capacity_lt
  have hpos : 0 < table.capacity := h.reachable.valid.capacity_pos
  refine ⟨put_course limit table key value, ⟨table.nextSize key, ?_⟩,
    nodup_put_requests hpos limit key value, ?_, ?_⟩
  · rcases put_requests_eq_iterate limit table key value with ⟨count, hsizes⟩
    have hlength := length_put_requests_le hpos hlimit key value
    rw [hsizes, List.length_iterate] at hlength
    exact ⟨count, hsizes, hlength, nextSize_eq_or table key⟩
  · exact fun wanted hanswer => requests_of_outOfMemory hanswer
  · intro wanted hanswer
    -- A capacity below 2^63 has a double of 64 bits.
    rcases overflow_of_put hpos hanswer with ⟨hlarge, hwanted⟩
    have hsize : UInt64.size = 2 ^ 64 := rfl
    omega

/-- A table with more tombstones than entries is rebuilt at its own size, and
    the key's window is full again. The first doubling leaves it full as well,
    and the second is refused. -/
theorem put_requests_iterate_refreshed :
    let passing : List UInt64 := [41, 26, 86, 14, 7, 4, 72, 11, 30, 31]
    let crowding : List UInt64 := [0, 121, 242, 377, 387, 447, 529, 1229]
    let crowded := ((blank 32 : Table Nat).run (passing.map (.put 32 · 0) ++
      .put 32 37 0 :: passing.map .remove ++ crowding.map (.put 32 · 1))).1
    crowded.ReachableBelow (2 ^ 63) ∧ 64 < 2 ^ 63 ∧
      requests (crowded.put 64 1274 2).history = [32, 64, 128] ∧
      (crowded.put 64 1274 2).answer = .error (.outOfMemory 128) ∧
      ∃ granted, requests (crowded.put 64 1274 2).history = granted ++ [128] ∧ 64 < 128 ∧
        ∀ size ∈ granted, size ≤ 64 := by
  intro passing crowding crowded
  have hmade : withCapacity 32 32 = .ok (blank 32 : Table Nat) := rfl
  have hreach : crowded.ReachableBelow (2 ^ 63) :=
    ReachableBelow.run (.made (by decide : 32 < 2 ^ 63) hmade) (by decide)
  have hanswer : (crowded.put 64 1274 2).answer = .error (.outOfMemory 128) := by decide +kernel
  rcases put_requests_iterate hreach (by decide : 64 < 2 ^ 63) 1274 2 with ⟨_, _, _, hmemory, _⟩
  exact ⟨hreach, by decide, by decide +kernel, hanswer, hmemory 128 hanswer⟩

end Table

end BoundedProbing
