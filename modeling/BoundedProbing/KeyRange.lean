import BoundedProbing.IdentitySet

/-!
# Ranges of Keys

Inserting, removing and counting many keys at once.

A range starts at a key and goes on by a fixed stride, wrapping at 64 bits. An
item is made from each key. Filling stops at the first fault, and since every
insertion before it is counted either as new or as a replacement, the two
counts together tell where.

A range may be far longer than any table: a filling that is refused after a few
keys never looks at the rest. So a range is walked key by key and its keys are
not listed first. The list is there to say what a walk comes to.

## Main definitions

* `KeyRange`: Start, count and stride, with `KeyRange.keys`.
* `KeyRange.foldl`: A walk along a range, carrying a state.
* `Filling`, `fill`: Inserting until done or refused.
* `drain`, `scan`: Removing and counting.
* `Table.fill` and its companions: The same for tables and for sets.

## Theorems

* `KeyRange.length_keys`: A range has as many keys as its count says.
* `KeyRange.foldl_eq_foldl_keys`: A walk is a fold over the list of keys.
-/

namespace BoundedProbing

universe u v w

/-- Keys that start at one and go on by a stride. -/
structure KeyRange where
  /-- The first key. -/
  start : UInt64
  /-- How many keys there are. -/
  count : Nat
  /-- The step from one key to the next, wrapping. -/
  stride : UInt64
  deriving Repr, DecidableEq

namespace KeyRange

variable {σ : Type u}

/-- A number of keys from the given one on. -/
def keysFrom (stride : UInt64) : Nat → UInt64 → List UInt64
  | 0, _ => []
  | left + 1, key => key :: keysFrom stride left (key + stride)

/-- The keys of a range, in order. -/
def keys (range : KeyRange) : List UInt64 :=
  keysFrom range.stride range.count range.start

/-- Walks along a number of keys from the given one on. -/
@[specialize] def foldlFrom (step : σ → UInt64 → σ) (stride : UInt64) : Nat → UInt64 → σ → σ
  | 0, _, state => state
  | left + 1, key, state => foldlFrom step stride left (key + stride) (step state key)

/-- Walks along a range, carrying a state from key to key. -/
@[inline] def foldl (step : σ → UInt64 → σ) (state : σ) (range : KeyRange) : σ :=
  foldlFrom step range.stride range.count range.start state

theorem length_keysFrom (stride : UInt64) (left : Nat) (key : UInt64) :
    (keysFrom stride left key).length = left := by
  induction left generalizing key with
  | zero => rfl
  | succ left ih => rw [keysFrom, List.length_cons, ih]

/-- A range has as many keys as its count says. -/
theorem length_keys (range : KeyRange) : range.keys.length = range.count :=
  length_keysFrom range.stride range.count range.start

theorem foldlFrom_eq_foldl (step : σ → UInt64 → σ) (stride : UInt64) (left : Nat)
    (key : UInt64) (state : σ) :
    foldlFrom step stride left key state = (keysFrom stride left key).foldl step state := by
  induction left generalizing key state with
  | zero => rfl
  | succ left ih => rw [foldlFrom, keysFrom, List.foldl_cons, ih]

/-- A walk along a range is a fold over the list of its keys. -/
theorem foldl_eq_foldl_keys (step : σ → UInt64 → σ) (state : σ) (range : KeyRange) :
    range.foldl step state = range.keys.foldl step state :=
  foldlFrom_eq_foldl step range.stride range.count range.start state

end KeyRange

/-- What filling came to. -/
structure Filling (σ : Type u) where
  state : σ
  /-- How many items were new. -/
  fresh : Nat
  /-- How many items replaced another. -/
  replaced : Nat
  /-- The fault that ended the filling early. -/
  stopped : Option Fault
  history : Array Event

variable {σ : Type u} {β : Type v}

/-- Inserts a number of keys from the given one on, up to the first fault,
    going on from the counts and the history so far. -/
def fillFrom (insert : σ → UInt64 → Outcome σ (Option β)) (stride : UInt64) :
    Nat → UInt64 → σ → Nat → Nat → Array Event → Filling σ
  | 0, _, state, fresh, replaced, history => ⟨state, fresh, replaced, none, history⟩
  | left + 1, key, state, fresh, replaced, history =>
    match insert state key with
    | ⟨state, .ok none, events⟩ =>
      fillFrom insert stride left (key + stride) state (fresh + 1) replaced
        (history.appendList events)
    | ⟨state, .ok (some _), events⟩ =>
      fillFrom insert stride left (key + stride) state fresh (replaced + 1)
        (history.appendList events)
    | ⟨state, .error fault, events⟩ =>
      ⟨state, fresh, replaced, some fault, history.appendList events⟩

/-- Inserts the keys of a range, up to the first fault. -/
def fill (insert : σ → UInt64 → Outcome σ (Option β)) (range : KeyRange) (state : σ) :
    Filling σ :=
  fillFrom insert range.stride range.count range.start state 0 0 #[]

/-- Removes the keys of a range, counting the ones that were there. -/
def drain (remove : σ → UInt64 → σ × Option β) (range : KeyRange) (state : σ) : σ × Nat :=
  range.foldl
    (fun (state, removed) key =>
      match remove state key with
      | (state, some _) => (state, removed + 1)
      | (state, none) => (state, removed))
    (state, 0)

/-- Counts the keys of a range that are there. -/
def scan (contains : UInt64 → Bool) (range : KeyRange) : Nat :=
  range.foldl (fun found key => if contains key then found + 1 else found) 0

namespace Table

variable {α : Type u}

/-- Puts an item made from each key of a range under that key. -/
def fill (limit : Nat) (table : Table α) (range : KeyRange) (make : UInt64 → α) :
    Filling (Table α) :=
  BoundedProbing.fill (fun table key => table.put limit key (make key)) range table

/-- Removes each key of a range. -/
def drain (table : Table α) (range : KeyRange) : Table α × Nat :=
  BoundedProbing.drain Table.remove range table

/-- Counts the keys of a range that are stored. -/
def scan (table : Table α) (range : KeyRange) : Nat :=
  BoundedProbing.scan (fun key => (table.get key).isSome) range

end Table

namespace IdentitySet

variable {α : Type u} {ε : Type v}

/-- Adds an item made from each key of a range. -/
def fill (limit : Nat) (set : IdentitySet α ε) (range : KeyRange) (make : UInt64 → α) :
    Filling (IdentitySet α ε) :=
  BoundedProbing.fill (fun set key => set.add limit (make key)) range set

/-- Removes the members an item made from each key of a range stands for. -/
def drain (set : IdentitySet α ε) (range : KeyRange) (make : UInt64 → α) :
    IdentitySet α ε × Nat :=
  BoundedProbing.drain (fun set key => set.remove (make key)) range set

/-- Counts the keys of a range whose item stands for a member. -/
def scan (set : IdentitySet α ε) (range : KeyRange) (make : UInt64 → α) : Nat :=
  BoundedProbing.scan (fun key => set.contains (make key)) range

end IdentitySet

end BoundedProbing
