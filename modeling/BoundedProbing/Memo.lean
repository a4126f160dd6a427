import BoundedProbing.Text.Outline

/-!
# Numbered Memos

A small kind of item to build sets of, and ways to tell such items apart.

A memo has a number and a text. Sets of memos are interesting when the hash and
the equality look at different parts, or when the hash is a poor one; so there
is a choice of both. Only some combinations keep the contract that equal items
have equal hashes.

## Main definitions

* `Memo`: The item, with `Memo.outline`.
* `MemoHash`, `MemoHash.hash`: Ways to hash it.
* `MemoEquality`, `MemoEquality.holds`: Ways to compare it.
-/

namespace BoundedProbing

/-- A text with a number. -/
structure Memo where
  id : UInt64
  text : String
  deriving Repr, DecidableEq, Inhabited

def Memo.outline (memo : Memo) : Text.Outline :=
  .record "Entry" [("id", .number memo.id.toNat), ("memo", .text memo.text)]

def Memo.bytes (memo : Memo) : List UInt8 :=
  memo.text.toUTF8.toList

/-- Ways to hash a memo. -/
inductive MemoHash where
  /-- Its number. -/
  | id
  /-- The same for all. -/
  | const (value : UInt64)
  /-- What its number leaves when divided. -/
  | mod (divisor : UInt64)
  /-- Its number shifted left, high bits lost. -/
  | shl (amount : UInt64)
  /-- The low half of its number, in both halves. -/
  | twin
  /-- The length of its text in bytes. -/
  | len
  /-- That length and all the bytes added up. -/
  | sum
  /-- The bytes of its text, each xored in and multiplied on. -/
  | fnv1a
  deriving Repr, DecidableEq

def MemoHash.hash : MemoHash → Memo → UInt64
  | .id, memo => memo.id
  | .const value, _ => value
  | .mod divisor, memo => memo.id % divisor
  | .shl amount, memo => memo.id <<< amount
  | .twin, memo => (memo.id <<< 32) ||| (memo.id &&& 0xffffffff)
  | .len, memo => UInt64.ofNat memo.bytes.length
  | .sum, memo =>
    memo.bytes.foldl (fun total byte => total + byte.toUInt64) (UInt64.ofNat memo.bytes.length)
  | .fnv1a, memo =>
    memo.bytes.foldl (fun hash byte => 0x100000001b3 * (hash ^^^ byte.toUInt64)) 0xcbf29ce484222325

/-- Ways to compare two memos. -/
inductive MemoEquality where
  /-- By number. -/
  | id
  /-- By text. -/
  | text
  /-- By both. -/
  | both
  /-- By text, with the letters of ASCII equal in both cases. -/
  | textAnyCase
  /-- All are equal. -/
  | always
  /-- None are equal, a memo and itself included. -/
  | never
  deriving Repr, DecidableEq

/-- Whether two memos are equal. -/
def MemoEquality.holds : MemoEquality → Memo → Memo → Bool
  | .id, left, right => left.id == right.id
  | .text, left, right => left.text == right.text
  | .both, left, right => left == right
  | .textAnyCase, left, right => left.text.map Char.toLower == right.text.map Char.toLower
  | .always, _, _ => true
  | .never, _, _ => false

end BoundedProbing
