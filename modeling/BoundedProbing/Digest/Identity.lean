import BoundedProbing.Digest.Block
import BoundedProbing.IdentitySet

/-!
# Identities of Values

A 64-bit identity for values of the usual types.

The identity of a value is the digest of its parts. Fixed-width numbers go in
with their width, signed ones as two's complement, characters as code points of
32 bits. A text is its UTF-8 bytes and a closing byte that no text contains, so
that two texts in a row cannot run together. A list has its length in front;
numbers of fixed width then go in as one block of bytes, other items one by
one. An optional value has a number in front that says whether it is there.

## Main definitions

* `Digestible`: Types whose values can be taken into a digest.
* `identityOf`: The identity of a value.
* `sameItem`: The equality identities are made to agree with.
* `IdentitySet.ofValues`: An empty set of such values.
-/

namespace BoundedProbing

universe u v

/-- Types whose values can be taken into a digest. -/
class Digestible (α : Type u) where
  /-- Takes a value in. -/
  absorb : Digest → α → Digest

namespace Digestible

variable {α : Type u} {β : Type v}

instance : Digestible UInt8 := ⟨fun digest value => digest.number 8 value.toUInt64⟩

instance : Digestible UInt16 := ⟨fun digest value => digest.number 16 value.toUInt64⟩

instance : Digestible UInt32 := ⟨fun digest value => digest.number 32 value.toUInt64⟩

instance : Digestible UInt64 := ⟨fun digest value => digest.number 64 value⟩

instance : Digestible Int32 := ⟨fun digest value => absorb digest value.toUInt32⟩

instance : Digestible Int64 := ⟨fun digest value => absorb digest value.toUInt64⟩

instance : Digestible (BitVec 128) := ⟨Digest.wide⟩

instance : Digestible Bool := ⟨fun digest value => absorb digest value.toUInt8⟩

instance : Digestible Char := ⟨fun digest value => absorb digest value.val⟩

instance : Digestible String :=
  ⟨fun digest value => absorb (digest.block value.toUTF8.toList) (0xff : UInt8)⟩

instance [Digestible α] [Digestible β] : Digestible (α × β) :=
  ⟨fun digest value => absorb (absorb digest value.1) value.2⟩

instance [Digestible α] : Digestible (Option α) :=
  ⟨fun digest value =>
    match value with
    | none => absorb digest (0 : UInt64)
    | some item => absorb (absorb digest (1 : UInt64)) item⟩

/-- The length of a list, as it goes in front of the items. -/
def absorbLength (digest : Digest) (items : List α) : Digest :=
  absorb digest (UInt64.ofNat items.length)

instance : Digestible (List UInt8) :=
  ⟨fun digest items => (absorbLength digest items).block items⟩

instance : Digestible (List UInt64) :=
  ⟨fun digest items => (absorbLength digest items).block (items.flatMap Digest.bytesOf)⟩

instance : Digestible (List String) :=
  ⟨fun digest items => items.foldl absorb (absorbLength digest items)⟩

end Digestible

/-- The identity of a value: the digest of its parts. -/
def identityOf {α : Type u} [Digestible α] (item : α) : UInt64 :=
  (Digestible.absorb Digest.start item).finish

/-- The equality that identities are made to agree with. -/
def sameItem {α : Type u} [BEq α] (left right : α) : Bool :=
  left == right

/-- An empty set of values identified by their digests. -/
def IdentitySet.ofValues {α : Type u} [Digestible α] [BEq α] (limit : Nat) :
    Except Fault (IdentitySet α Bool) :=
  IdentitySet.new limit identityOf sameItem

end BoundedProbing
