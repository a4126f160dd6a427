import BoundedProbing.Proofs.SetRun

/-!
# Membership by Hash

A set answers like a map from hashes to items, and like a set of items where
the hash tells them apart.

The answers of a set are described three times, each in terms of the one
before. A set is a map from hashes to items: `KeyMap.HashStep` lists the right
answers to an operation, and a failed addition is one that leaves the map as it
was. What the map finds under a hash is then found in the record of the run, as
the item of the latest successful addition under this hash, provided that
nothing removed it later. And if no two of the items used have one hash, the
map forgets nothing but the hashes: it is a picture of a set of items, each
step of the map is a step of that set, and `Steps.simulate` carries this along
a run.

None of this mentions the equality of the set, and the two runs of sets with
different equalities are compared before any of it.

## Main definitions

* `Steps`: Steps of some relation, one after the other.
* `KeyMap.HashStep`: The right answers of a map from hashes to items.
* `Latest`: The latest addition under a hash, if it still stands.
* `MemberStep`: The right answers of a set of items.
* `Pictures`: A map that stores some items, each under its hash.
* `PicturesUsed`: The same, for items that the hash tells apart.
* `SetOp.item?`: The item that comes with an operation.

## Theorems

* `Steps.simulate`: A relation kept by each step is kept by a run.
* `IdentitySet.Valid.hashStep_perform`: An operation is a step of the map.
* `KeyMap.lookup_iff_latest`: What a map finds after a run.
* `PicturesUsed.step`: A step of a map is a step of the set it pictures.
* `IdentitySet.run_by_hash`: The answers of a set from its making on.
-/

namespace BoundedProbing

universe u v w

/-- Steps one after the other, each with what was asked and what was answered. -/
inductive Steps {σ : Type u} {ω : Type v} {ρ : Type w} (step : σ → ω → ρ → σ → Prop) :
    σ → List ω → List ρ → σ → Prop where
  | nil (state : σ) : Steps step state [] [] state
  | cons {state next last : σ} {op : ω} {reply : ρ} {ops : List ω} {replies : List ρ}
      (hstep : step state op reply next) (hrest : Steps step next ops replies last) :
      Steps step state (op :: ops) (reply :: replies) last

/-- A relation that each step of one kind carries over to a step of another is
    carried over by a run. -/
theorem Steps.simulate {σ τ : Type u} {ω : Type v} {ρ : Type w} {step : σ → ω → ρ → σ → Prop}
    {other : τ → ω → ρ → τ → Prop} {related : σ → τ → Prop} {state last : σ} {image : τ}
    {ops : List ω} {replies : List ρ} (h : Steps step state ops replies last)
    (hrelated : related state image)
    (hsim : ∀ op ∈ ops, ∀ before image reply next, related before image →
      step before op reply next → ∃ after, other image op reply after ∧ related next after) :
    ∃ final, Steps other image ops replies final ∧ related last final := by
  induction h generalizing image with
  | nil state => exact ⟨image, .nil image, hrelated⟩
  | cons hstep _ ih =>
      rcases hsim _ List.mem_cons_self _ image _ _ hrelated hstep with ⟨after, hother, hnext⟩
      rcases ih hnext fun op hmem => hsim op (List.mem_cons_of_mem _ hmem) with
        ⟨final, hrest, hlast⟩
      exact ⟨final, .cons hother hrest, hlast⟩

variable {α : Type u} {hash : α → UInt64} {key : UInt64} {item : α}

/-- The right answers of a map from hashes to items, and the maps they leave. An
    addition may be refused, and a visit may go in any order. -/
inductive KeyMap.HashStep (hash : α → UInt64) (map : KeyMap α) :
    SetOp α → SetReply α → KeyMap α → Prop where
  | add (limit : Nat) (item : α) : HashStep hash map (.add limit item)
      (.stored (.ok (map.lookup (hash item)))) (map.insert (hash item) item)
  | refused (limit : Nat) (item : α) (fault : Fault) :
      HashStep hash map (.add limit item) (.stored (.error fault)) map
  | remove (item : α) : HashStep hash map (.remove item) (.found (map.lookup (hash item)))
      (map.erase (hash item))
  | get (item : α) : HashStep hash map (.get item) (.found (map.lookup (hash item))) map
  | contains (item : α) :
      HashStep hash map (.contains item) (.verdict (decide (hash item ∈ map))) map
  | count : HashStep hash map .count (.size map.keys.card) map
  | isEmpty : HashStep hash map .isEmpty (.verdict (decide (map.keys = ∅))) map
  | clear : HashStep hash map .clear .done ∅
  | apply (visited : List α) (honce : (visited.map hash).Nodup)
      (hall : ∀ key item, map.lookup key = some item ↔ item ∈ visited ∧ hash item = key) :
      HashStep hash map .apply (.visited visited) map

namespace IdentitySet

variable {ε : Type v} {set : IdentitySet α ε}

/-- An operation of a set is a step of the map from hashes to items. -/
theorem Valid.hashStep_perform (h : set.Valid) (op : SetOp α) :
    KeyMap.HashStep set.hash set.table.contents op (set.perform op).2
      (set.perform op).1.table.contents := by
  have hget : ∀ item, set.get item = set.table.contents.lookup (set.hash item) :=
    fun item => (h.table.lookup_contents (set.hash item)).symm
  cases op with
  | add limit item =>
      -- The table takes a step of its map, under the hash of the item.
      have hstep := h.table.step_perform (.put limit (set.hash item) item)
      rcases set with ⟨table, hash, equals⟩
      change KeyMap.HashStep hash table.contents (.add limit item)
        (.stored (table.put limit (hash item) item).answer)
        (table.put limit (hash item) item).state.contents
      simp only [Table.perform] at hstep
      generalize (table.put limit (hash item) item).answer = answer at hstep ⊢
      generalize (table.put limit (hash item) item).state.contents = next at hstep ⊢
      cases hstep with
      | put _ _ _ => exact .add limit item
      | refused _ _ _ fault => exact .refused limit item fault
  | remove item =>
      have hstep := h.table.step_perform (.remove (set.hash item))
      rcases set with ⟨table, hash, equals⟩
      change KeyMap.HashStep hash table.contents (.remove item)
        (.found (table.remove (hash item)).2) (table.remove (hash item)).1.contents
      simp only [Table.perform] at hstep
      generalize (table.remove (hash item)).2 = answer at hstep ⊢
      generalize (table.remove (hash item)).1.contents = next at hstep ⊢
      cases hstep with
      | remove _ => exact .remove item
  | get item =>
      simp only [IdentitySet.perform, hget]
      exact .get item
  | contains item =>
      have hmem : set.contains item = decide (set.hash item ∈ set.table.contents) := by
        rw [IdentitySet.contains, hget, Bool.eq_iff_iff, decide_eq_true_iff, Finmap.lookup_isSome]
      simp only [IdentitySet.perform, hmem]
      exact .contains item
  | count =>
      simp only [IdentitySet.perform, IdentitySet.count, ← h.table.card_keys_contents]
      exact .count
  | isEmpty =>
      have hnone : set.isEmpty = decide (set.table.contents.keys = ∅) := by
        rw [IdentitySet.isEmpty, Table.isEmpty, ← h.table.card_keys_contents, Bool.eq_iff_iff,
          beq_iff_eq, decide_eq_true_iff, Finset.card_eq_zero]
      simp only [IdentitySet.perform, hnone]
      exact .isEmpty
  | clear =>
      simp only [IdentitySet.perform, IdentitySet.clear, Table.clear, Table.contents_blank]
      exact .clear
  | apply =>
      simp only [IdentitySet.perform, apply_append]
      refine .apply set.members ?_ h.lookup_contents_iff_mem_members
      rw [h.map_hash_members]
      exact Slots.nodup_keys h.table.sound.distinct

theorem Valid.hashSteps_run (h : set.Valid) (ops : List (SetOp α)) :
    Steps (KeyMap.HashStep set.hash) set.table.contents ops (set.run ops).2
      (set.run ops).1.table.contents := by
  induction ops generalizing set with
  | nil => exact .nil _
  | cons op rest ih =>
      have hrest := ih (h.perform op)
      rw [hash_perform] at hrest
      exact .cons (h.hashStep_perform op) hrest

end IdentitySet

/-- The call added the item, and its hash is the key. -/
def Adds (hash : α → UInt64) (key : UInt64) (item : α) : SetOp α × SetReply α → Prop
  | (.add _ added, .stored (.ok _)) => added = item ∧ hash item = key
  | _ => False

/-- The call added some item under the key, or removed what was there. -/
def Touches (hash : α → UInt64) (key : UInt64) : SetOp α × SetReply α → Prop
  | (.add _ added, .stored (.ok _)) => hash added = key
  | (.remove removed, _) => hash removed = key
  | (.clear, _) => True
  | _ => False

/-- Among these calls, the latest that touched the key added the item. -/
def Latest (hash : α → UInt64) (key : UInt64) (item : α)
    (calls : List (SetOp α × SetReply α)) : Prop :=
  ∃ earlier call later, calls = earlier ++ call :: later ∧ Adds hash key item call ∧
    ∀ after ∈ later, ¬ Touches hash key after

theorem latest_cons {call : SetOp α × SetReply α} {calls : List (SetOp α × SetReply α)} :
    Latest hash key item (call :: calls) ↔
      (Adds hash key item call ∧ ∀ after ∈ calls, ¬ Touches hash key after) ∨
        Latest hash key item calls := by
  constructor
  · intro h
    rcases h with ⟨earlier, latest, later, hcalls, hadds, huntouched⟩
    -- The latest addition is the first call, or one of the others.
    cases earlier with
    | nil =>
        rw [List.nil_append, List.cons.injEq] at hcalls
        rcases hcalls with ⟨rfl, rfl⟩
        exact Or.inl ⟨hadds, huntouched⟩
    | cons first rest =>
        rw [List.cons_append, List.cons.injEq] at hcalls
        exact Or.inr ⟨rest, latest, later, hcalls.2, hadds, huntouched⟩
  · intro h
    rcases h with ⟨hadds, huntouched⟩ | ⟨earlier, latest, later, hcalls, hadds, huntouched⟩
    · exact ⟨[], call, calls, rfl, hadds, huntouched⟩
    · exact ⟨call :: earlier, latest, later, by rw [hcalls, List.cons_append], hadds, huntouched⟩

namespace KeyMap

variable {map next last : KeyMap α} {op : SetOp α} {reply : SetReply α}

/-- One step finds what it added, and otherwise what it did not touch. -/
theorem HashStep.lookup_iff (h : HashStep hash map op reply next) :
    next.lookup key = some item ↔ Adds hash key item (op, reply) ∨
      (map.lookup key = some item ∧ ¬ Touches hash key (op, reply)) := by
  cases h with
  | add limit added =>
      simp only [Adds, Touches]
      by_cases hkey : hash added = key
      · rw [← hkey, Finmap.lookup_insert, Option.some.injEq]
        constructor
        · exact fun heq => Or.inl ⟨heq, heq ▸ rfl⟩
        · intro hcases
          rcases hcases with ⟨heq, _⟩ | ⟨_, hne⟩
          · exact heq
          · exact absurd rfl hne
      · rw [Finmap.lookup_insert_of_ne _ (Ne.symm hkey)]
        constructor
        · exact fun hold => Or.inr ⟨hold, hkey⟩
        · intro hcases
          rcases hcases with ⟨rfl, heq⟩ | ⟨hold, _⟩
          · exact absurd heq hkey
          · exact hold
  | remove removed =>
      simp only [Adds, Touches, false_or]
      by_cases hkey : hash removed = key
      · rw [← hkey, Finmap.lookup_erase]
        simp only [reduceCtorEq, not_true_eq_false, and_false]
      · rw [Finmap.lookup_erase_ne (Ne.symm hkey)]
        exact (and_iff_left hkey).symm
  | clear =>
      rw [Finmap.lookup_empty]
      simp only [Adds, Touches, reduceCtorEq, not_true_eq_false, and_false, or_false]
  | _ => simp only [Adds, Touches, false_or, not_false_eq_true, and_true]

/-- What a map finds after a run was added last, or was there and not touched. -/
theorem lookup_iff_latest {ops : List (SetOp α)} {replies : List (SetReply α)}
    (h : Steps (HashStep hash) map ops replies last) :
    last.lookup key = some item ↔ Latest hash key item (ops.zip replies) ∨
      (map.lookup key = some item ∧ ∀ call ∈ ops.zip replies, ¬ Touches hash key call) := by
  induction h with
  | nil map =>
      have hnone : ¬ Latest hash key item ([] : List (SetOp α × SetReply α)) := by
        intro hlatest
        rcases hlatest with ⟨earlier, call, later, hcalls, _⟩
        exact absurd hcalls.symm (List.append_ne_nil_of_right_ne_nil _ (List.cons_ne_nil _ _))
      simp only [List.zip_nil_right, hnone, false_or, List.not_mem_nil, false_implies,
        implies_true, and_true]
  | cons hstep _ ih =>
      -- What the rest did not touch is what the first call left.
      rw [ih, hstep.lookup_iff, List.zip_cons_cons, latest_cons, List.forall_mem_cons]
      tauto

end KeyMap

/-- The right answers of a set of items, and the sets they leave. -/
inductive MemberStep [DecidableEq α] (members : Finset α) :
    SetOp α → SetReply α → Finset α → Prop where
  | add (limit : Nat) (item : α) : MemberStep members (.add limit item)
      (.stored (.ok (if item ∈ members then some item else none))) (insert item members)
  | refused (limit : Nat) (item : α) (fault : Fault) :
      MemberStep members (.add limit item) (.stored (.error fault)) members
  | remove (item : α) : MemberStep members (.remove item)
      (.found (if item ∈ members then some item else none)) (members.erase item)
  | get (item : α) : MemberStep members (.get item)
      (.found (if item ∈ members then some item else none)) members
  | contains (item : α) :
      MemberStep members (.contains item) (.verdict (decide (item ∈ members))) members
  | count : MemberStep members .count (.size members.card) members
  | isEmpty : MemberStep members .isEmpty (.verdict (decide (members = ∅))) members
  | clear : MemberStep members .clear .done ∅
  | apply (visited : List α) (honce : visited.Nodup) (hall : visited.toFinset = members) :
      MemberStep members .apply (.visited visited) members

/-- The item that comes with the operation, if one does. -/
def SetOp.item? : SetOp α → Option α
  | .add _ item => some item
  | .remove item => some item
  | .get item => some item
  | .contains item => some item
  | _ => none

/-- The map stores the items, each under its hash, and no others. -/
def Pictures (hash : α → UInt64) (map : KeyMap α) (members : Finset α) : Prop :=
  ∀ key item, map.lookup key = some item ↔ item ∈ members ∧ hash item = key

/-- The map stores some of the items used, and the hash tells all of these
    apart. -/
structure PicturesUsed (hash : α → UInt64) (used : Set α) (map : KeyMap α) (members : Finset α) :
    Prop where
  pictures : Pictures hash map members
  within : ∀ item ∈ members, item ∈ used
  apart : Set.InjOn hash used

namespace Pictures

variable {map : KeyMap α} {members other : Finset α}

theorem mem_iff (h : Pictures hash map members) : item ∈ members ↔
    map.lookup (hash item) = some item :=
  ((h (hash item) item).trans (and_iff_left rfl)).symm

theorem unique (h : Pictures hash map members) (ho : Pictures hash map other) :
    members = other := by
  ext item
  rw [h.mem_iff, ho.mem_iff]

theorem keys_eq_image (h : Pictures hash map members) : map.keys = members.image hash := by
  ext key
  rw [Finmap.mem_keys, Finmap.mem_iff, Finset.mem_image]
  exact exists_congr fun item => h key item

theorem empty : Pictures hash ∅ ∅ := by
  intro key item
  rw [Finmap.lookup_empty]
  simp only [reduceCtorEq, Finset.notMem_empty, false_and]

end Pictures

namespace PicturesUsed

variable {map next : KeyMap α} {members : Finset α} {used : Set α}

theorem empty (hapart : Set.InjOn hash used) : PicturesUsed hash used ∅ ∅ :=
  ⟨Pictures.empty, fun item hmem => absurd hmem (Finset.notMem_empty item), hapart⟩

variable [DecidableEq α]

/-- The map finds the item itself or nothing. -/
theorem lookup_hash (h : PicturesUsed hash used map members) (hitem : item ∈ used) :
    map.lookup (hash item) = if item ∈ members then some item else none := by
  by_cases hmem : item ∈ members
  · rw [if_pos hmem]
    exact h.pictures.mem_iff.mp hmem
  · -- Another member with this hash would be the item itself.
    rw [if_neg hmem, Option.eq_none_iff_forall_ne_some]
    intro kept hkept
    rcases (h.pictures (hash item) kept).mp hkept with ⟨hmember, hhash⟩
    exact hmem (h.apart (h.within kept hmember) hitem hhash ▸ hmember)

theorem mem_map_iff (h : PicturesUsed hash used map members) (hitem : item ∈ used) :
    hash item ∈ map ↔ item ∈ members := by
  rw [← Finmap.lookup_isSome, h.lookup_hash hitem]
  by_cases hmem : item ∈ members
  · simp only [hmem, if_true, Option.isSome_some]
  · simp only [hmem, if_false, Option.isSome_none, Bool.false_eq_true]

theorem insert (h : PicturesUsed hash used map members) (hitem : item ∈ used) :
    PicturesUsed hash used (map.insert (hash item) item) (insert item members) := by
  refine ⟨fun key kept => ?_, fun kept hmem => ?_, h.apart⟩
  · rw [Finset.mem_insert]
    by_cases hkey : key = hash item
    · rw [hkey, Finmap.lookup_insert, Option.some.injEq]
      constructor
      · intro heq
        exact ⟨Or.inl heq.symm, by rw [heq]⟩
      · intro hboth
        rcases hboth with ⟨rfl | hmem, hhash⟩
        · rfl
        · exact h.apart hitem (h.within kept hmem) hhash.symm
    · rw [Finmap.lookup_insert_of_ne _ hkey, h.pictures key kept]
      constructor
      · exact fun hboth => ⟨Or.inr hboth.1, hboth.2⟩
      · intro hboth
        rcases hboth with ⟨rfl | hmem, hhash⟩
        · exact absurd hhash.symm hkey
        · exact ⟨hmem, hhash⟩
  · rcases Finset.mem_insert.mp hmem with rfl | hold
    · exact hitem
    · exact h.within kept hold

theorem erase (h : PicturesUsed hash used map members) (hitem : item ∈ used) :
    PicturesUsed hash used (map.erase (hash item)) (members.erase item) := by
  refine ⟨fun key kept => ?_, fun kept hmem => h.within kept (Finset.mem_of_mem_erase hmem),
    h.apart⟩
  rw [Finset.mem_erase]
  by_cases hkey : key = hash item
  · rw [hkey, Finmap.lookup_erase]
    constructor
    · exact fun hnone => absurd hnone (by simp only [reduceCtorEq, not_false_eq_true])
    · -- No other member has the hash that was erased.
      intro hboth
      rcases hboth with ⟨⟨hne, hmem⟩, hhash⟩
      exact absurd (h.apart (h.within kept hmem) hitem hhash) hne
  · rw [Finmap.lookup_erase_ne hkey, h.pictures key kept]
    constructor
    · intro hboth
      exact ⟨⟨fun heq => hkey (heq ▸ hboth.2.symm), hboth.1⟩, hboth.2⟩
    · exact fun hboth => ⟨hboth.1.2, hboth.2⟩

/-- A step of the map is a step of the set it pictures. -/
theorem step {op : SetOp α} {reply : SetReply α} (h : PicturesUsed hash used map members)
    (hop : ∀ item ∈ op.item?, item ∈ used) (hstep : KeyMap.HashStep hash map op reply next) :
    ∃ after, MemberStep members op reply after ∧ PicturesUsed hash used next after := by
  cases hstep with
  | add limit item =>
      have hitem : item ∈ used := hop item rfl
      rw [h.lookup_hash hitem]
      exact ⟨_, .add limit item, h.insert hitem⟩
  | refused limit item fault => exact ⟨members, .refused limit item fault, h⟩
  | remove item =>
      have hitem : item ∈ used := hop item rfl
      rw [h.lookup_hash hitem]
      exact ⟨_, .remove item, h.erase hitem⟩
  | get item =>
      rw [h.lookup_hash (hop item rfl)]
      exact ⟨members, .get item, h⟩
  | contains item =>
      rw [decide_eq_decide.mpr (h.mem_map_iff (hop item rfl))]
      exact ⟨members, .contains item, h⟩
  | count =>
      rw [h.pictures.keys_eq_image, Finset.card_image_of_injOn (h.apart.mono h.within)]
      exact ⟨members, .count, h⟩
  | isEmpty =>
      have hnone : map.keys = ∅ ↔ members = ∅ := by
        rw [h.pictures.keys_eq_image, Finset.image_eq_empty]
      rw [decide_eq_decide.mpr hnone]
      exact ⟨members, .isEmpty, h⟩
  | clear => exact ⟨∅, .clear, empty h.apart⟩
  | apply visited honce hall =>
      -- The items visited are pictured by the same map.
      have hvisited : Pictures hash map visited.toFinset := by
        intro key item
        rw [List.mem_toFinset]
        exact hall key item
      exact ⟨members, .apply visited honce.of_map (hvisited.unique h.pictures), h⟩

end PicturesUsed

namespace IdentitySet

variable {ε : Type v} {φ : Type w}

theorem Valid.pictures [DecidableEq α] {set : IdentitySet α ε} (h : set.Valid) :
    Pictures set.hash set.table.contents set.members.toFinset := by
  intro key item
  rw [List.mem_toFinset]
  exact h.lookup_contents_iff_mem_members key item

/-- Sets that are made alike but for the equality, which may have any verdicts
    or none to give, go through the same tables and give the same answers. These
    are right for a map from hashes to items, which finds under a hash the item
    that was last added under it and not removed since. If no two of the items
    used have one hash, they are right for a set of items. -/
theorem run_by_hash [DecidableEq α] (limit wanted : Nat) (hash : α → UInt64)
    (equals : α → α → ε) (other : α → α → φ) (ops : List (SetOp α)) :
    ((withCapacity limit hash equals wanted).map fun set =>
          ((set.run ops).1.table, (set.run ops).2)) =
        ((withCapacity limit hash other wanted).map fun set =>
          ((set.run ops).1.table, (set.run ops).2)) ∧
      ∀ set, withCapacity limit hash equals wanted = .ok set →
        let last := (set.run ops).1
        let replies := (set.run ops).2
        Steps (KeyMap.HashStep hash) ∅ ops replies last.table.contents ∧
          (∀ key item, last.table.contents.lookup key = some item ↔
            Latest hash key item (ops.zip replies)) ∧
          (Set.InjOn hash {item | ∃ op ∈ ops, item ∈ op.item?} →
            Steps MemberStep ∅ ops replies last.members.toFinset) := by
  constructor
  · unfold withCapacity
    cases Table.withCapacity (α := α) limit (max wanted initialCapacity) with
    | error fault => rfl
    | ok table =>
        have hsame : SameIdentity (⟨table, hash, equals⟩ : IdentitySet α ε)
            (⟨table, hash, other⟩ : IdentitySet α φ) := ⟨rfl, rfl⟩
        rcases hsame.run ops with ⟨hreplies, htable, _⟩
        simp only [Except.map, hreplies, htable]
  · intro set hmade last replies
    have hset := eq_blank_of_withCapacity hmade
    have hvalid : set.Valid := hset ▸ valid_blank (Table.isPowerOfTwo_capacityFor _) hash equals
    have hhash : set.hash = hash := by rw [hset]
    have hsteps := hvalid.hashSteps_run ops
    have hpicture := (hvalid.run ops).pictures
    rw [hash_run, hhash] at hpicture
    rw [hhash, hset, Table.contents_blank, ← hset] at hsteps
    refine ⟨hsteps, fun key item => ?_, fun hapart => ?_⟩
    · refine (KeyMap.lookup_iff_latest hsteps).trans (or_iff_left fun hold => ?_)
      rw [Finmap.lookup_empty] at hold
      exact absurd hold.1 (by simp only [reduceCtorEq, not_false_eq_true])
    · -- After each step the map pictures a set of items that are used.
      rcases hsteps.simulate (PicturesUsed.empty hapart)
        fun op hop before image reply next hrelated hstep =>
          hrelated.step (fun item hmem => ⟨op, hop, hmem⟩) hstep with ⟨final, hfinal, hlast⟩
      rw [← hlast.pictures.unique hpicture]
      exact hfinal

/-- Nine items of one mix but different hashes. The ninth is refused until
    another is removed. The second equality never gives a verdict. -/
theorem run_by_hash_crowded :
    let hash : Nat → UInt64 := fun n => UInt64.ofNat (4294967297 * n)
    let set : IdentitySet Nat Bool := ⟨Table.blank 256, hash, (· == ·)⟩
    let ops : List (SetOp Nat) := (List.range 9).map (.add 256) ++
      [.remove 3, .add 256 8, .contains 3, .count]
    let replies : List (SetReply Nat) := List.replicate 8 (.stored (.ok none)) ++
      [.stored (.error (.windowSaturated (hash 8))), .found (some 3), .stored (.ok none),
        .verdict false, .size 8]
    withCapacity 256 hash (· == ·) 0 = .ok set ∧ (set.run ops).2 = replies ∧
      (withCapacity 256 hash (fun _ _ => (none : Option Bool)) 0).map
          (fun silent => ((silent.run ops).1.table, (silent.run ops).2)) =
        .ok ((set.run ops).1.table, (set.run ops).2) ∧
      Latest hash (hash 8) 8 (ops.zip replies) ∧
      Set.InjOn hash {item | ∃ op ∈ ops, item ∈ op.item?} ∧
      Steps MemberStep ∅ ops replies (set.run ops).1.members.toFinset := by
  intro hash set ops replies
  have hmade : withCapacity 256 hash (· == ·) 0 = .ok set := rfl
  have hsmall : ∀ op ∈ ops, ∀ item ∈ op.item?, item < 9 := by decide +kernel
  have hapart : Set.InjOn hash {item | ∃ op ∈ ops, item ∈ op.item?} := by
    intro left hleft right hright heq
    rcases hleft with ⟨op, hop, hitem⟩
    rcases hright with ⟨other, hother, hotherItem⟩
    have hinj : ∀ left < 9, ∀ right < 9, hash left = hash right → left = right := by decide +kernel
    exact hinj left (hsmall op hop left hitem) right (hsmall other hother right hotherItem) heq
  rcases run_by_hash 256 0 hash (· == ·) (fun _ _ => (none : Option Bool)) ops with ⟨hsame, hright⟩
  rcases hright set hmade with ⟨_, hlatest, hmembers⟩
  have hvalid : (set.run ops).1.Valid :=
    (valid_blank (Table.isPowerOfTwo_capacityFor 256) hash _).run ops
  have hfound : (set.run ops).1.table.contents.lookup (hash 8) = some 8 := by
    rw [hvalid.table.lookup_contents]
    decide +kernel
  have hreplies : (set.run ops).2 = replies := by decide +kernel
  rw [hreplies] at hlatest hmembers
  exact ⟨hmade, hreplies, hsame.symm, (hlatest (hash 8) 8).mp hfound, hapart, hmembers hapart⟩

-- Items with one hash replace, find and remove each other.
example : ((⟨Table.blank 4, fun n => UInt64.ofNat (n % 10), (· == ·)⟩ : IdentitySet Nat Bool).run
    [.add 4 3, .add 4 13, .get 23, .remove 33, .count]).2 =
      [.stored (.ok none), .stored (.ok (some 3)), .found (some 13), .found (some 13),
        .size 0] := by
  decide +kernel

end IdentitySet

end BoundedProbing
