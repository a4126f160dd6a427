import BoundedProbing.Table.Put
import BoundedProbing.Table.Iter
import BoundedProbing.Table.Stats
import BoundedProbing.Text.Outline

/-!
# Sets by Identity

A set of items in which a hash function decides what is the same member.

The set keeps every item in a table under its hash. Two items with one hash are
one member, whatever else they hold: adding the second replaces the first, and
either finds or removes whichever is there. An equality predicate comes with
the set, but only `equivalent` and `checkContract` ever ask it. The type of its
verdict is a parameter, so that membership cannot depend on it even by
accident, and a predicate that has no verdict to give may be used.

Items that the predicate calls equal ought to have equal hashes. A pair that
breaks this contract is reported by `checkContract`.

## Main definitions

* `IdentitySet`: A table, a hash function and an equality predicate.
* `IdentitySet.withCapacity`, `IdentitySet.new`: An empty set.
* `IdentitySet.add`, `IdentitySet.remove`, `IdentitySet.get`,
  `IdentitySet.contains`, `IdentitySet.clear`: Membership.
* `IdentitySet.apply`: A visit to every member.
* `IdentitySet.equivalent`, `IdentitySet.checkContract`: Asking the predicate.
* `IdentitySet.outline`: The members as text.
-/

namespace BoundedProbing

universe u v w

/-- Items identified by a hash, with an equality that gives verdicts in `ε`. -/
structure IdentitySet (α : Type u) (ε : Type v) where
  /-- The members, each under its hash. -/
  table : Table α
  /-- The identity of an item. -/
  hash : α → UInt64
  /-- The equality the hash is meant to agree with. -/
  equals : α → α → ε

namespace IdentitySet

variable {α : Type u} {ε : Type v}

/-- An empty set with at least the wanted number of slots, and never fewer than
    a table has when nothing is asked for. -/
def withCapacity (limit : Nat) (hash : α → UInt64) (equals : α → α → ε) (wanted : Nat) :
    Except Fault (IdentitySet α ε) :=
  (Table.withCapacity limit (max wanted initialCapacity)).map fun table =>
    ⟨table, hash, equals⟩

/-- An empty set of the usual size. -/
def new (limit : Nat) (hash : α → UInt64) (equals : α → α → ε) :
    Except Fault (IdentitySet α ε) :=
  withCapacity limit hash equals initialCapacity

def count (set : IdentitySet α ε) : Nat :=
  set.table.count

def isEmpty (set : IdentitySet α ε) : Bool :=
  set.table.isEmpty

def capacity (set : IdentitySet α ε) : Nat :=
  set.table.capacity

/-- Adds an item and answers with the member of the same hash it replaced. -/
def add (limit : Nat) (set : IdentitySet α ε) (item : α) :
    Outcome (IdentitySet α ε) (Option α) :=
  match set with
  | ⟨table, hash, equals⟩ =>
    (table.put limit (hash item) item).mapState fun table => ⟨table, hash, equals⟩

/-- Removes the member with the hash of an item and gives it back. -/
def remove (set : IdentitySet α ε) (item : α) : IdentitySet α ε × Option α :=
  match set with
  | ⟨table, hash, equals⟩ =>
    let (table, removed) := table.remove (hash item)
    (⟨table, hash, equals⟩, removed)

/-- The member with the hash of an item. -/
def get (set : IdentitySet α ε) (item : α) : Option α :=
  set.table.get (set.hash item)

/-- Whether there is a member with the hash of an item. -/
def contains (set : IdentitySet α ε) (item : α) : Bool :=
  (set.get item).isSome

/-- Removes every member. The capacity is kept. -/
def clear (set : IdentitySet α ε) : IdentitySet α ε :=
  { set with table := set.table.clear }

/-- The members, in slot order. -/
def members (set : IdentitySet α ε) : List α :=
  set.table.values

/-- Visits every member in slot order, carrying a state along. -/
def apply {σ : Type w} (set : IdentitySet α ε) (visit : σ → α → σ) (start : σ) : σ :=
  set.members.foldl visit start

def iter (set : IdentitySet α ε) : Iter α :=
  set.table.iter

def equivalent (set : IdentitySet α ε) (left right : α) : ε :=
  set.equals left right

/-- Checks that two items do not break the contract: items that are equal have
    equal hashes. Items with equal hashes pass without the equality being
    asked. -/
def checkContract (set : IdentitySet α Bool) (left right : α) : Except Fault Unit :=
  if set.hash left ≠ set.hash right ∧ set.equals left right then
    .error (.contractViolation (set.hash left) (set.hash right))
  else .ok ()

/-- How many members lie how far from their home. -/
def histogram (set : IdentitySet α ε) : Histogram :=
  set.table.histogram

def stats (set : IdentitySet α ε) : Stats :=
  set.table.stats

/-- The members as text, each by its own outline. -/
def outline (set : IdentitySet α ε) (member : α → Text.Outline) : Text.Outline :=
  .set (set.members.map member)

end IdentitySet

end BoundedProbing
