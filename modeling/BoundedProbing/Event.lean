import BoundedProbing.Fault

/-!
# Events

What happens inside an insertion, in order.

An insertion may ask for slot arrays, move the entries into a new one, find a
window full, and put an old layout back. Each of these is an event, and the
list of them is the insertion's history. The log is that list with a line for
each event worth telling; a request for memory is counted but not told.

An operation that can fail gives back an `Outcome`: the state it leaves, its
answer or the fault that refused it, and its history.

## Main definitions

* `Event`: What can happen.
* `Event.line?`: The log line of an event.
* `requests`: The sizes asked for, in order.
* `Outcome`: State, answer and history of an operation.
-/

namespace BoundedProbing

universe u v w

/-- Something that happened inside an insertion. -/
inductive Event where
  /-- An array of this many slots was asked for. -/
  | requested (slots : Nat)
  /-- This many entries moved from an array of `before` slots to one of `after`
      slots, and this many tombstones were left behind. -/
  | rebuilt (entries before after dropped : Nat)
  /-- Every slot of the key's window was taken by another key. -/
  | exhausted (key : UInt64) (capacity : Nat)
  /-- The first layout, of this many slots, was put back because of a fault. -/
  | restored (slots : Nat) (cause : Fault)
  deriving Repr, DecidableEq, Inhabited

/-- The log line of an event, its level first. -/
def Event.line? : Event → Option String
  | .requested _ => none
  | .rebuilt entries before after dropped =>
    some (s!"DEBUG rehashed {entries} entries from {before} to {after} slots, "
      ++ s!"dropped {dropped} tombstones")
  | .exhausted key capacity =>
    some ("TRACE probe window for key " ++ Text.hexWord key
      ++ s!" exhausted at capacity {capacity}")
  | .restored slots cause =>
    some (s!"DEBUG restoring {slots} slots after failed insert: " ++ cause.message)

def logLines (history : List Event) : List String :=
  history.filterMap Event.line?

/-- The array sizes asked for in a history, in order. -/
def requests (history : List Event) : List Nat :=
  history.filterMap fun
    | .requested slots => some slots
    | _ => none

/-- What an operation that can fail leaves behind. -/
structure Outcome (σ : Type u) (β : Type v) where
  state : σ
  /-- The answer, or the fault that refused it. -/
  answer : Except Fault β
  /-- What happened on the way, in order. -/
  history : List Event

namespace Outcome

variable {σ : Type u} {τ : Type v} {β : Type w}

/-- The same outcome with earlier events put in front. -/
def after (earlier : List Event) (outcome : Outcome σ β) : Outcome σ β :=
  { outcome with history := earlier ++ outcome.history }

/-- The same outcome seen through a larger state. -/
def mapState (f : σ → τ) (outcome : Outcome σ β) : Outcome τ β :=
  ⟨f outcome.state, outcome.answer, outcome.history⟩

end Outcome

end BoundedProbing
