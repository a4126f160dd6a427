import Mathlib.Order.Bounds.Basic
import BoundedProbing.IdentitySet
import BoundedProbing.Proofs.Growth
import BoundedProbing.Proofs.KeyMap

/-!
# A New Table and Its First Growth

How large a table is made, when it cannot be made, and how many keys it takes
before it asks for another array.

A wanted capacity is rounded up to a power of two. Two things can go wrong, and
they are looked at in this order: no power of two of 64 bits is large enough,
or memory for it is refused. The second names the rounded number, the first the
wanted one.

A new table takes keys up to half of its slots. While the windows of these keys
have room, each insertion writes one slot and asks for nothing, whatever the
limits are. The next key finds the table half full and asks for twice the slots
at once. If the entries do not fit there, larger arrays may follow in the same
insertion. The halves are those of whole numbers, so a table of one slot grows
for its first key, and one of two slots for its second.

## Main definitions

* `Insertion`: An insertion to be made, with its limit.
* `Table.requestsFor`: The arrays that insertions ask for, one by one.
* `Table.Roomy`: No insertion meets a full window.

## Theorems

* `isLeast_capacityFor`: The capacity is the least power of two that will do.
* `Table.withCapacity_eq_overflow_iff`, `Table.withCapacity_eq_outOfMemory_iff`:
  Why there is no table.
* `Table.Valid.requests_put_of_hasRoom`: An insertion that asks for nothing.
* `Table.exists_requests_put_of_plan`: One that is planned to rebuild asks for
  the planned size first.
* `Table.Valid.requestsFor_turn`: The requests of each insertion of a series.
* `Table.withCapacity_first_growth`: Construction and the first growth.
-/

namespace BoundedProbing

universe u v

variable {α : Type u}

theorem le_capacityFor (wanted : Nat) : max wanted 1 ≤ capacityFor wanted := by
  unfold capacityFor
  by_cases hone : wanted ≤ 1
  · rw [if_pos hone]
    exact Nat.max_le.mpr ⟨hone, le_refl 1⟩
  · rw [if_neg hone, Nat.one_shiftLeft]
    have hlog : wanted - 1 < 2 ^ ((wanted - 1).log2 + 1) := Nat.lt_log2_self
    exact Nat.max_le.mpr ⟨by omega, Nat.two_pow_pos _⟩

/-- The capacity for a wish is the least power of two that is at least the wish
    and at least one. -/
theorem isLeast_capacityFor (wanted : Nat) :
    IsLeast {size | size.isPowerOfTwo ∧ max wanted 1 ≤ size} (capacityFor wanted) := by
  refine ⟨⟨Table.isPowerOfTwo_capacityFor wanted, le_capacityFor wanted⟩, fun size hsize => ?_⟩
  rcases hsize with ⟨⟨exponent, rfl⟩, hle⟩
  exact Table.capacityFor_le_two_pow (Nat.le_trans (Nat.le_max_left _ _) hle)

example : [0, 1, 2, 3, 2 ^ 63].map capacityFor = [1, 1, 2, 4, 2 ^ 63] := by decide +kernel

/-- A rebuild asks for one array at least. -/
theorem refit_requests_ne_nil (limit : Nat) (pairs : List (UInt64 × α)) (capacity : Nat) :
    (refit limit pairs capacity).1 ≠ [] := by
  fun_cases refit limit pairs capacity with
  | case1 _ => exact List.cons_ne_nil _ _
  | case2 _ _ _ => exact List.cons_ne_nil _ _
  | case3 _ _ _ => exact List.cons_ne_nil _ _
  | case4 _ _ _ _ _ => exact List.cons_ne_nil _ _

/-- An insertion to be made: the entry, and the limit its arrays are asked for
    under. -/
structure Insertion (α : Type u) where
  limit : Nat
  key : UInt64
  value : α
  deriving DecidableEq

namespace Table

variable {table : Table α} {limit wanted capacity : Nat} {key : UInt64} {value : α}

theorem withCapacity_eq_of_le (h : wanted ≤ 2 ^ 63) :
    (withCapacity limit wanted : Except Fault (Table α)) =
      if limit < capacityFor wanted then .error (.outOfMemory (capacityFor wanted))
      else .ok (blank (capacityFor wanted)) :=
  if_neg (Nat.not_lt.mpr h)

/-- A wish is too large above 2^63 only. -/
theorem withCapacity_eq_overflow_iff :
    (withCapacity limit wanted : Except Fault (Table α)) = .error (.capacityOverflow wanted) ↔
      2 ^ 63 < wanted := by
  refine ⟨fun herror => ?_, fun hwanted => if_pos hwanted⟩
  by_contra hwanted
  rw [withCapacity_eq_of_le (Nat.le_of_not_lt hwanted)] at herror
  -- Below, a refusal has another cause.
  split at herror
  · exact absurd herror (by simp only [Except.error.injEq, reduceCtorEq, not_false_eq_true])
  · exact absurd herror (by simp only [reduceCtorEq, not_false_eq_true])

/-- Up to there, memory is refused for the rounded capacity or not at all. -/
theorem withCapacity_eq_outOfMemory_iff (h : wanted ≤ 2 ^ 63) :
    (withCapacity limit wanted : Except Fault (Table α)) =
      .error (.outOfMemory (capacityFor wanted)) ↔ limit < capacityFor wanted := by
  rw [withCapacity_eq_of_le h]
  refine ⟨fun herror => ?_, fun hover => if_pos hover⟩
  by_contra hover
  rw [if_neg hover] at herror
  exact absurd herror (by simp only [reduceCtorEq, not_false_eq_true])

theorem get_blank (h : capacity.isPowerOfTwo) (key : UInt64) :
    (blank capacity : Table α).get key = none := by
  rw [← (valid_blank h).lookup_contents, contents_blank, Finmap.lookup_empty]

/-- The arrays that insertions one after the other ask for, a list for each. -/
def requestsFor (table : Table α) : List (Insertion α) → List (List Nat)
  | [] => []
  | next :: rest =>
    requests (table.put next.limit next.key next.value).history ::
      (table.put next.limit next.key next.value).state.requestsFor rest

/-- Of insertions one after the other, none meets a full window. -/
def Roomy (table : Table α) : List (Insertion α) → Prop
  | [] => True
  | next :: rest =>
    ¬ table.slots.WindowFull next.key ∧
      (table.put next.limit next.key next.value).state.Roomy rest

theorem Valid.requests_put_of_hasRoom (h : table.Valid) (habsent : table.get key = none)
    (hroom : table.HasRoom key) (limit : Nat) (value : α) :
    requests (table.put limit key value).history = [] := by
  rcases h.takesNearest_of_hasRoom habsent hroom value with ⟨_, htakes⟩
  rw [(htakes limit).history]
  rfl

/-- At half load, a key whose window has room makes the table double. -/
theorem Valid.plan_eq_double (h : table.Valid) (habsent : table.get key = none)
    (hhalf : table.count = table.capacity / 2) (hwindow : ¬ table.slots.WindowFull key)
    (hsize : table.capacity < 2 ^ 63) : table.plan key = .rebuild (2 * table.capacity) := by
  rcases h.exists_vacant habsent hwindow with ⟨index, _, hplace⟩
  have hdouble : doubled table.capacity = some (2 * table.capacity) :=
    doubled_of_lt h.capacity_pos hsize
  unfold plan
  simp only [hplace, if_neg (Nat.not_lt.mpr hhalf.ge), Plan.enlarge, hdouble]

/-- What an insertion that is planned to rebuild tells starts with this rebuild,
    whether it succeeds or not. -/
theorem history_put_of_plan (hplan : table.plan key = .rebuild capacity) (limit : Nat) (value : α) :
    ∃ later, (table.put limit key value).history =
      table.sighting key ++ (table.rebuild limit capacity).history ++ later := by
  rcases put_course limit table key value with ⟨events, last, hrebuilds, hend⟩
  cases hrebuilds with
  | @more _ _ first _ events hfirst _ _ =>
      have hsame : first = capacity := Plan.rebuild.inj (hfirst.symm.trans hplan)
      subst hsame
      generalize table.put limit key value = outcome at hend
      cases hend with
      | overwrote _ => exact ⟨_, rfl⟩
      | occupied _ => exact ⟨_, rfl⟩
      | refused _ => exact ⟨_, by simp only [List.append_assoc]; rfl⟩
      | stuck _ _ => exact ⟨_, by simp only [List.append_assoc]; rfl⟩
  | done =>
      generalize table.put limit key value = outcome at hend
      -- Without a rebuild that succeeds, the first one is where the insertion is stuck.
      cases hend with
      | overwrote hother =>
          exact absurd (hplan.symm.trans hother) (by simp only [reduceCtorEq, not_false_eq_true])
      | occupied hother =>
          exact absurd (hplan.symm.trans hother) (by simp only [reduceCtorEq, not_false_eq_true])
      | refused hother =>
          exact absurd (hplan.symm.trans hother) (by simp only [reduceCtorEq, not_false_eq_true])
      | @stuck first _ hother _ =>
          have hsame : first = capacity := Plan.rebuild.inj (hother.symm.trans hplan)
          subst hsame
          exact ⟨_, rfl⟩

/-- An insertion that is planned to rebuild asks for the planned size, and then
    possibly for doublings of it. -/
theorem exists_requests_put_of_plan (hplan : table.plan key = .rebuild capacity) (limit : Nat)
    (value : α) : ∃ further, requests (table.put limit key value).history =
      capacity :: List.iterate (2 * ·) (2 * capacity) further := by
  rcases put_requests_eq_iterate limit table key value with ⟨count, hsizes⟩
  rw [← eq_nextSize_of_plan hplan] at hsizes
  cases count with
  | succ further => exact ⟨further, hsizes⟩
  | zero =>
      -- The rebuild asked for one array at least.
      rcases history_put_of_plan hplan limit value with ⟨later, hhistory⟩
      rw [hhistory, requests_append, requests_append, requests_rebuild, List.iterate,
        List.append_eq_nil_iff, List.append_eq_nil_iff] at hsizes
      exact absurd hsizes.1.2 (refit_requests_ne_nil limit table.slots.entries capacity)

/-- While there is room, a new key is one entry more, and the other keys see
    nothing of it. -/
theorem Valid.put_of_hasRoom (h : table.Valid) (habsent : table.get key = none)
    (hroom : table.HasRoom key) (limit : Nat) (value : α) :
    (table.put limit key value).state.capacity = table.capacity ∧
      (table.put limit key value).state.count = table.count + 1 ∧
      ∀ other, other ≠ key → (table.put limit key value).state.get other = table.get other := by
  rcases h.takesNearest_of_hasRoom habsent hroom value with ⟨_, htakes⟩
  refine ⟨(htakes limit).capacity, (htakes limit).count, fun other hother => ?_⟩
  rw [h.get_put_ok (htakes limit).answer, if_neg hother]

/-- New keys that meet no full window ask for nothing while the table is less
    than half full, and at half load for twice its slots. -/
theorem Valid.requestsFor_turn (h : table.Valid) (hsize : table.capacity < 2 ^ 63)
    {puts : List (Insertion α)} (hnodup : (puts.map Insertion.key).Nodup)
    (habsent : ∀ put ∈ puts, table.get put.key = none) (hroomy : table.Roomy puts) {turn : Nat}
    (hturn : turn < puts.length) :
    (table.count + turn < table.capacity / 2 → (table.requestsFor puts)[turn]? = some []) ∧
      (table.count + turn = table.capacity / 2 →
        ∃ further, (table.requestsFor puts)[turn]? =
          some (2 * table.capacity :: List.iterate (2 * ·) (2 * (2 * table.capacity)) further)) := by
  -- Each insertion before this turn adds one entry, so the load there is known.
  induction puts generalizing table turn with
  | nil => exact absurd hturn (Nat.not_lt_zero turn)
  | cons next rest ih =>
      rcases hroomy with ⟨hwindow, hroomy⟩
      have hnew : table.get next.key = none := habsent next List.mem_cons_self
      cases turn with
      | zero =>
          rw [requestsFor, List.getElem?_cons_zero, Nat.add_zero]
          refine ⟨fun hload => ?_, fun hhalf => ?_⟩
          · rw [h.requests_put_of_hasRoom hnew ⟨hload, hwindow⟩]
          · have hplan := h.plan_eq_double hnew hhalf hwindow hsize
            rcases exists_requests_put_of_plan hplan next.limit next.value with ⟨further, hsizes⟩
            exact ⟨further, congrArg some hsizes⟩
      | succ turn =>
          rw [requestsFor, List.getElem?_cons_succ]
          rw [List.map_cons, List.nodup_cons] at hnodup
          rw [List.length_cons, Nat.add_lt_add_iff_right] at hturn
          by_cases hload : table.count < table.capacity / 2
          · rcases h.put_of_hasRoom hnew ⟨hload, hwindow⟩ next.limit next.value with
              ⟨hcapacity, hcount, hothers⟩
            have hlater : ∀ put ∈ rest,
                (table.put next.limit next.key next.value).state.get put.key = none := by
              intro put hput
              have hne : put.key ≠ next.key := fun heq =>
                hnodup.1 (heq ▸ List.mem_map.mpr ⟨put, hput, rfl⟩)
              rw [hothers put.key hne]
              exact habsent put (List.mem_cons_of_mem _ hput)
            have hrest := ih (h.put next.limit next.key next.value) (hcapacity ▸ hsize) hnodup.2
              hlater hroomy hturn
            rwa [hcapacity, hcount, Nat.add_assoc, Nat.add_comm 1 turn] at hrest
          · -- The turn would lie beyond half load.
            exact ⟨fun hless => by omega, fun hhalf => by omega⟩

/-- A table is refused for a wish above 2^63, and else exactly if memory for the
    rounded capacity is; a set is made like a table of 256 slots or more. A new
    table of fewer than 2^63 slots that is given distinct keys, none of which
    meets a full window, asks for no array while it is less than half full, and
    at half load for one of twice its slots. -/
theorem withCapacity_first_growth (limit wanted : Nat) :
    let made : Except Fault (Table α) := withCapacity limit wanted
    let size := capacityFor wanted
    IsLeast {size | size.isPowerOfTwo ∧ max wanted 1 ≤ size} size ∧
      (made = .error (.capacityOverflow wanted) ↔ 2 ^ 63 < wanted) ∧
      (wanted ≤ 2 ^ 63 →
        (made = .error (.outOfMemory size) ↔ limit < size) ∧
        (size ≤ limit → ∃ table, made = .ok table ∧ table.capacity = size ∧ table.count = 0 ∧
          table.tombstones = 0 ∧ ∀ index, table.slots.read index = .empty)) ∧
      (∀ (ε : Type v) (hash : α → UInt64) (equals : α → α → ε),
        IdentitySet.withCapacity limit hash equals wanted =
          (withCapacity limit (max wanted 256)).map fun table => ⟨table, hash, equals⟩) ∧
      ∀ table : Table α, made = .ok table → size < 2 ^ 63 →
        ∀ puts : List (Insertion α), (puts.map Insertion.key).Nodup → table.Roomy puts →
          ∀ turn, turn < puts.length →
            (turn < size / 2 → (table.requestsFor puts)[turn]? = some []) ∧
            (turn = size / 2 → ∃ further, (table.requestsFor puts)[turn]? =
              some (2 * size :: List.iterate (2 * ·) (2 * (2 * size)) further)) := by
  intro made size
  have hempty : (blank size : Table α).capacity = size := Slots.size_blank size
  refine ⟨isLeast_capacityFor wanted, withCapacity_eq_overflow_iff,
    fun hwanted => ⟨withCapacity_eq_outOfMemory_iff hwanted, fun hle => ?_⟩, fun _ _ _ => rfl,
    fun table hmade hsize puts hnodup hroomy turn hturn => ?_⟩
  · exact ⟨blank size, withCapacity_eq_ok_iff.mpr ⟨hwanted, hle, rfl⟩, hempty, rfl, rfl,
      fun index => Slots.read_blank size index⟩
  · have hpow : size.isPowerOfTwo := isPowerOfTwo_capacityFor wanted
    rw [eq_blank_of_withCapacity hmade] at hroomy ⊢
    have hturns := (valid_blank hpow).requestsFor_turn (by rwa [hempty]) hnodup
      (fun put _ => get_blank hpow put.key) hroomy hturn
    rwa [hempty, show (blank size : Table α).count = 0 from rfl, Nat.zero_add] at hturns

/-- A table for three keys has four slots. It takes two keys without any memory
    and asks for eight slots for the third. -/
theorem withCapacity_first_growth_four :
    let puts : List (Insertion Nat) := [⟨0, 1, 10⟩, ⟨0, 2, 20⟩, ⟨8, 3, 30⟩]
    (withCapacity 4 3 : Except Fault (Table Nat)) = .ok (blank 4) ∧
      (puts.map Insertion.key).Nodup ∧ (blank 4).Roomy puts ∧
      ((blank 4).requestsFor puts)[1]? = some [] ∧
      ∃ further, ((blank 4).requestsFor puts)[2]? =
        some (8 :: List.iterate (2 * ·) 16 further) := by
  intro puts
  have hmade : withCapacity 4 3 = .ok (blank 4 : Table Nat) := by decide +kernel
  have hnodup : (puts.map Insertion.key).Nodup := by decide
  have hroomy : (blank 4).Roomy puts :=
    ⟨by decide +kernel, by decide +kernel, by decide +kernel, trivial⟩
  have hgrowth := (@withCapacity_first_growth.{0, 0} Nat 4 3).2.2.2.2 (blank 4) hmade
    (by decide +kernel) puts hnodup hroomy
  exact ⟨hmade, hnodup, hroomy, (hgrowth 1 (by decide)).1 (by decide +kernel),
    (hgrowth 2 (by decide)).2 (by decide +kernel)⟩

end Table

end BoundedProbing
