import BoundedProbing.Proofs.Overwriting
import BoundedProbing.Proofs.SetRun

/-!
# The Contract of a Set

What `IdentitySet.checkContract` has to do with the members of a set.

The audit compares two items and never looks at a table, and the table never
asks the equality. What links them is that a set stores each item under its own
hash and no hash twice. So members in different slots have different hashes,
and if the audit passes every pair of items, the equality tells them apart. An
item that is equal to a member has the hash of that member, finds its slot, and
takes it over without any need for room.

A pair that the audit reports is a pair of equal items with different hashes.
No table can bring these together. Once both are added, they are two members,
and each is found for itself.

## Main definitions

* `IdentitySet.Reachable`: The sets that operations lead to.
* `IdentitySet.InSlot`: The member in the slot with this index.

## Theorems

* `IdentitySet.Reachable.valid`: Reachable sets are valid.
* `IdentitySet.checkContract_eq_error_iff`, `IdentitySet.checkContract_eq_ok_iff`:
  What the audit finds.
* `IdentitySet.Valid.hash_ne`: Members in different slots differ in their hash.
* `IdentitySet.Valid.add_of_mem`: Adding an item with the hash of a member.
* `IdentitySet.Valid.get_add`: What is found after an addition.
* `IdentitySet.members_apart_of_checkContract`: The contract as a whole.
-/

namespace BoundedProbing

universe u v

namespace IdentitySet

variable {α : Type u} {ε : Type v} {set : IdentitySet α ε}

/-- The sets that operations lead to. -/
inductive Reachable : IdentitySet α ε → Prop where
  | made {limit wanted : Nat} {hash : α → UInt64} {equals : α → α → ε} {set : IdentitySet α ε}
      (h : withCapacity limit hash equals wanted = .ok set) : Reachable set
  | after {set : IdentitySet α ε} (h : Reachable set) (op : SetOp α) :
      Reachable (set.perform op).1

theorem Reachable.valid (h : set.Reachable) : set.Valid := by
  induction h with
  | made h =>
      rw [eq_blank_of_withCapacity h]
      exact valid_blank (Table.isPowerOfTwo_capacityFor _) _ _
  | after _ op ih => exact ih.perform op

/-- The slot with this index holds this member. -/
def InSlot (set : IdentitySet α ε) (index : Nat) (item : α) : Prop :=
  set.table.getByIndex index = .ok (some item)

theorem inSlot_iff {index : Nat} {item : α} :
    set.InSlot index item ↔ ∃ key, set.table.slots.read index = .entry key item :=
  Table.getByIndex_eq_some_iff

/-- The members are what the slots hold. -/
theorem mem_members_iff {item : α} : item ∈ set.members ↔ ∃ index, set.InSlot index item := by
  rw [members, Table.values_eq_map_entries, List.mem_map]
  constructor
  · intro hmem
    rcases hmem with ⟨⟨key, kept⟩, hpair, rfl⟩
    rcases Slots.mem_entries_iff.mp hpair with ⟨index, hread⟩
    exact ⟨index, inSlot_iff.mpr ⟨key, hread⟩⟩
  · intro hslot
    rcases hslot with ⟨index, hindex⟩
    rcases inSlot_iff.mp hindex with ⟨key, hread⟩
    exact ⟨(key, item), Slots.mem_entries_iff.mpr ⟨index, hread⟩, rfl⟩

/-- A member lies in a slot under its own hash. -/
theorem Valid.read_eq_of_inSlot (h : set.Valid) {index : Nat} {item : α}
    (hslot : set.InSlot index item) :
    set.table.slots.read index = .entry (set.hash item) item := by
  rcases inSlot_iff.mp hslot with ⟨key, hread⟩
  rw [h.own key item ⟨index, hread⟩, hread]

/-- Members in different slots differ in their hash. -/
theorem Valid.hash_ne (h : set.Valid) {index other : Nat} {left right : α} (hne : index ≠ other)
    (hleft : set.InSlot index left) (hright : set.InSlot other right) :
    set.hash left ≠ set.hash right := by
  intro heq
  have hl := h.read_eq_of_inSlot hleft
  have hr := h.read_eq_of_inSlot hright
  rw [← heq] at hr
  exact hne (h.table.sound.distinct (set.hash left) index other ⟨left, hl⟩ ⟨right, hr⟩)

theorem add_eq (limit : Nat) (set : IdentitySet α ε) (item : α) :
    set.add limit item = (set.table.put limit (set.hash item) item).mapState fun table =>
      ⟨table, set.hash, set.equals⟩ :=
  rfl

/-- Adding an item with the hash of a member replaces this member. -/
theorem Valid.add_of_mem (h : set.Valid) {member item : α} (hmem : member ∈ set.members)
    (hhash : set.hash item = set.hash member) (limit : Nat) :
    (set.add limit item).answer = .ok (some member) ∧
      (set.add limit item).state.count = set.count := by
  rcases mem_members_iff.mp hmem with ⟨index, hslot⟩
  have hread := h.read_eq_of_inSlot hslot
  rw [← hhash] at hread
  rw [add_eq, h.table.put_of_read hread]
  exact ⟨rfl, rfl⟩

/-- After an addition, the item is found under its hash, and every other hash
    finds what it found before. -/
theorem Valid.get_add (h : set.Valid) {limit : Nat} {item : α} {previous : Option α}
    (hok : (set.add limit item).answer = .ok previous) (other : α) :
    (set.add limit item).state.get other =
      if set.hash other = set.hash item then some item else set.get other := by
  rw [add_eq] at hok ⊢
  exact h.table.get_put_ok hok (set.hash other)

theorem remove_eq (set : IdentitySet α ε) (item : α) :
    set.remove item =
      (⟨(set.table.remove (set.hash item)).1, set.hash, set.equals⟩,
        (set.table.remove (set.hash item)).2) :=
  rfl

/-- After a removal, nothing is found under the hash of the item, and every other
    hash finds what it found before. -/
theorem Valid.get_remove (h : set.Valid) (item other : α) :
    (set.remove item).1.get other =
      if set.hash other = set.hash item then none else set.get other := by
  rw [remove_eq]
  exact h.table.get_remove (set.hash item) (set.hash other)

/-- What is found is in some slot. -/
theorem Valid.exists_inSlot_of_get (h : set.Valid) {item found : α}
    (hget : set.get item = some found) : ∃ index, set.InSlot index found := by
  rcases h.table.get_eq_some_iff.mp hget with ⟨index, hread⟩
  exact ⟨index, inSlot_iff.mpr ⟨set.hash item, hread⟩⟩

section Audit

variable {set : IdentitySet α Bool} {left right : α}

/-- The audit reports a pair exactly if its items are equal and their hashes are
    not, and then it names both hashes. -/
theorem checkContract_eq_error_iff {fault : Fault} :
    set.checkContract left right = .error fault ↔
      (set.equals left right = true ∧ set.hash left ≠ set.hash right) ∧
        fault = .contractViolation (set.hash left) (set.hash right) := by
  unfold checkContract
  by_cases hbroken : set.hash left ≠ set.hash right ∧ set.equals left right = true
  · rw [if_pos hbroken, Except.error.injEq, eq_comm]
    exact (and_iff_right hbroken.symm).symm
  · rw [if_neg hbroken]
    simp only [reduceCtorEq, false_iff, not_and]
    exact fun hboth => absurd hboth.symm hbroken

theorem checkContract_eq_ok_iff :
    set.checkContract left right = .ok () ↔
      (set.equals left right = true → set.hash left = set.hash right) := by
  constructor
  · intro hok hequal
    by_contra hne
    have herror := checkContract_eq_error_iff.mpr ⟨⟨hequal, hne⟩, rfl⟩
    exact absurd (hok.symm.trans herror) (by simp only [reduceCtorEq, not_false_eq_true])
  · intro hkept
    cases hcheck : set.checkContract left right with
    | ok _ => rfl
    | error fault =>
        rcases (checkContract_eq_error_iff.mp hcheck).1 with ⟨hequal, hne⟩
        exact absurd (hkept hequal) hne

end Audit

/-- If the audit passes all pairs of items, members in different slots are not
    equal, and an item that is equal to a member replaces it under every limit,
    with the count unchanged. The audit reports exactly the pairs of equal items
    with different hashes, by these hashes. If such a pair is added to a set, its
    items are two members in different slots, and each is found for itself. -/
theorem members_apart_of_checkContract {set : IdentitySet α Bool} (h : set.Reachable) :
    ((∀ left right, set.checkContract left right = .ok ()) →
        (∀ index other left right, index ≠ other → set.InSlot index left →
          set.InSlot other right → set.equals left right = false) ∧
        ∀ member item limit, member ∈ set.members → set.equals member item = true →
          (set.add limit item).answer = .ok (some member) ∧
            (set.add limit item).state.count = set.count) ∧
      ∀ left right,
        (∀ fault, set.checkContract left right = .error fault ↔
          (set.equals left right = true ∧ set.hash left ≠ set.hash right) ∧
            fault = .contractViolation (set.hash left) (set.hash right)) ∧
        (set.checkContract left right ≠ .ok () → ∀ limit later first second,
          (set.add limit left).answer = .ok first →
          ((set.add limit left).state.add later right).answer = .ok second →
          let last := ((set.add limit left).state.add later right).state
          last.get left = some left ∧ last.get right = some right ∧
            ∃ index other, index ≠ other ∧ last.InSlot index left ∧ last.InSlot other right) := by
  have hvalid := h.valid
  refine ⟨fun hcontract => ⟨?_, ?_⟩, fun left right => ⟨fun fault => ?_, ?_⟩⟩
  · intro index other left right hne hleft hright
    rw [← Bool.not_eq_true]
    exact fun hequal => hvalid.hash_ne hne hleft hright
      (checkContract_eq_ok_iff.mp (hcontract left right) hequal)
  · intro member item limit hmem hequal
    have hhash := checkContract_eq_ok_iff.mp (hcontract member item) hequal
    exact hvalid.add_of_mem hmem hhash.symm limit
  · exact checkContract_eq_error_iff
  · intro hbroken limit later first second hfirst hsecond last
    have hne : set.hash left ≠ set.hash right := by
      intro heq
      exact hbroken (checkContract_eq_ok_iff.mpr fun _ => heq)
    -- The second addition is under another hash, so it leaves the first item.
    have hadded := hvalid.add limit left
    have hlast : last.Valid := hadded.add later right
    have hleft : last.get left = some left := by
      rw [hadded.get_add hsecond]
      change (if set.hash left = set.hash right then _ else _) = _
      rw [if_neg hne, hvalid.get_add hfirst, if_pos rfl]
    have hright : last.get right = some right := by
      rw [hadded.get_add hsecond, if_pos rfl]
    rcases hlast.exists_inSlot_of_get hleft with ⟨index, hindex⟩
    rcases hlast.exists_inSlot_of_get hright with ⟨other, hother⟩
    refine ⟨hleft, hright, index, other, fun heq => ?_, hindex, hother⟩
    -- One slot holds one item, and these have different hashes.
    rw [heq] at hindex
    unfold InSlot at hindex hother
    rw [hindex, Except.ok.injEq, Option.some.injEq] at hother
    exact hne (congrArg set.hash hother)

/-- Numbers with the same last digit are equal. Hashed by this digit they keep
    the contract, and 13 replaces 3 when no memory is left. Hashed by themselves
    they break it, and both are members. -/
theorem members_apart_of_checkContract_digits :
    let digits : IdentitySet Nat Bool :=
      ⟨Table.blank 256, fun n => UInt64.ofNat (n % 10), fun left right => left % 10 == right % 10⟩
    let numbers : IdentitySet Nat Bool := { digits with hash := UInt64.ofNat }
    let last := ((numbers.add 256 3).state.add 256 13).state
    digits.Reachable ∧ (∀ left right, digits.checkContract left right = .ok ()) ∧
      ((digits.add 256 3).state.add 0 13).answer = .ok (some 3) ∧
      ((digits.add 256 3).state.add 0 13).state.count = (digits.add 256 3).state.count ∧
      numbers.Reachable ∧ numbers.checkContract 3 13 = .error (.contractViolation 3 13) ∧
      last.get 3 = some 3 ∧ last.get 13 = some 13 ∧
        ∃ index other, index ≠ other ∧ last.InSlot index 3 ∧ last.InSlot other 13 := by
  intro digits numbers last
  have hdigits : digits.Reachable := .made (rfl : withCapacity 256 _ _ 0 = .ok digits)
  have hnumbers : numbers.Reachable := .made (rfl : withCapacity 256 _ _ 0 = .ok numbers)
  have hadded : (digits.add 256 3).state.Reachable := hdigits.after (.add 256 3)
  have hkept : ∀ left right, digits.checkContract left right = .ok () := fun left right =>
    checkContract_eq_ok_iff.mpr fun hequal => congrArg UInt64.ofNat (eq_of_beq hequal)
  have hmember : 3 ∈ (digits.add 256 3).state.members := by decide +kernel
  rcases (members_apart_of_checkContract hadded).1 hkept with ⟨_, hreplaced⟩
  rcases hreplaced 3 13 0 hmember (by decide +kernel) with ⟨hanswer, hcount⟩
  have hbroken : numbers.checkContract 3 13 = .error (.contractViolation 3 13) := by
    decide +kernel
  rcases (members_apart_of_checkContract hnumbers).2 3 13 with ⟨_, hapart⟩
  have hfound := hapart (by
      rw [hbroken]
      simp only [ne_eq, reduceCtorEq, not_false_eq_true]) 256 256 none none
    (by decide +kernel) (by decide +kernel)
  exact ⟨hdigits, hkept, hanswer, hcount, hnumbers, hbroken, hfound⟩

end IdentitySet

end BoundedProbing
