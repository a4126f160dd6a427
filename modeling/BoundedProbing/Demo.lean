import BoundedProbing.Digest.Identity
import BoundedProbing.KeyRange

/-!
# A Demonstration of Growth

Fills a set with the numbers from zero, thins it out, and shows how full it is.

The run gives an account of itself: the capacity at the start, each time the
set has grown, how many members were removed, and the statistics of what is
left. The account is data, and its text is made from it afterwards, so that
what a run says can be compared with what its set holds.

A run ends early if an insertion is refused, or if a number that was never
added is found in the set. The account up to there stands, and the exit code
tells how it ended. A run that is asked for more numbers than memory can be
addressed for ends before it has said anything.

## Main definitions

* `Demo.Options`: How many numbers, and which are removed again.
* `Demo.Remark`: One item of the account, with `Demo.Remark.lines`.
* `Demo.Transcript`: The account and the exit code.
* `Demo.fillItems`, `Demo.everyNth`, `Demo.removeItems`: The parts of a run.
* `Demo.run`: The run.
-/

namespace BoundedProbing

namespace Demo

/-- What a run is asked to do. -/
structure Options where
  /-- How many numbers are added. -/
  items : Nat
  /-- The first of this many in a row is removed again; none if zero. -/
  removeEvery : Nat
  deriving Repr, DecidableEq

/-- What a run does when nothing is asked for. -/
def Options.usual : Options := ⟨1000, 0⟩

/-- One item of a run's account. -/
inductive Remark where
  /-- The capacity of the new set. -/
  | opened (capacity : Nat)
  /-- How many numbers are about to be added. -/
  | filling (items : Nat)
  /-- The capacity has changed, and so many members are there now. -/
  | grew (before after count : Nat)
  /-- How many members were removed. -/
  | removed (count : Nat)
  /-- How many members are left. -/
  | holds (count : Nat)
  | load (stats : Stats)
  | chart (histogram : Histogram)
  | figures (stats : Stats)
  deriving Repr, DecidableEq

def Remark.lines : Remark → List String
  | .opened capacity => [s!"Initial capacity: {capacity}"]
  | .filling items => [s!"Filling set with {items} u64 values..."]
  | .grew before after count => [s!"  grew {before} -> {after} slots at {count} items"]
  | .removed count => [s!"Removed {count} values"]
  | .holds count => [s!"Set holds {count} values"]
  | .load stats => ["Final load factor: " ++ Stats.percentage stats.loadFactor ++ "%"]
  | .chart histogram => histogram.chart
  | .figures stats => stats.report

/-- The account of a run. -/
structure Transcript where
  /-- What the run has to say, in order. -/
  remarks : List Remark
  /-- 0 if the run came to its end. -/
  exitCode : UInt32
  deriving Repr, DecidableEq

def Transcript.lines (transcript : Transcript) : List String :=
  transcript.remarks.flatMap Remark.lines

/-- The most numbers a run can be asked for. Each takes eight bytes, and no block
    of memory has 2^63 bytes or more. -/
def mostItems : Nat := (1 <<< 60) - 1

/-- Why a run ends early. -/
inductive Ending where
  /-- There is no room for so many numbers. -/
  | tooMany (items : Nat)
  /-- The set refused an insertion. -/
  | refused (fault : Fault)
  /-- The set already held a number that was not added before. -/
  | duplicate (item : UInt64)
  deriving Repr, DecidableEq

/-- The exit code of a run that ends early. -/
def Ending.exitCode : Ending → UInt32
  | .tooMany _ => 101
  | .refused _ => 1
  | .duplicate _ => 101

abbrev NumberSet := IdentitySet UInt64 Bool

/-- Adds a number of numbers from the given one on. The account so far is
    carried along, with the capacity it has told last. When the set has another
    one, a remark is added. -/
def fillItems (limit : Nat) : Nat → UInt64 → Nat → NumberSet → Array Remark →
    Array Remark × Except Ending NumberSet
  | 0, _, _, set, said => (said, .ok set)
  | left + 1, item, known, set, said =>
    match set.add limit item with
    | ⟨_, .error fault, _⟩ => (said, .error (.refused fault))
    | ⟨_, .ok (some _), _⟩ => (said, .error (.duplicate item))
    | ⟨set, .ok none, _⟩ =>
      if set.capacity = known then fillItems limit left (item + 1) known set said
      else
        fillItems limit left (item + 1) set.capacity set
          (said.push (.grew known set.capacity set.count))

/-- The first of every `step` numbers below `items`. -/
def everyNth (items step : Nat) : KeyRange :=
  ⟨0, (items + step - 1) / step, UInt64.ofNat step⟩

/-- Removes the numbers of a range, counting the ones that were there. -/
def removeItems (items : KeyRange) (set : NumberSet) : NumberSet × Nat :=
  drain IdentitySet.remove items set

/-- What there is to say about a set at the end. -/
def closing (set : NumberSet) : List Remark :=
  let stats := set.stats
  [.holds set.count, .load stats, .chart set.histogram, .figures stats]

/-- A run with a hash function for the numbers and a limit on the slots. -/
def run (hash : UInt64 → UInt64) (limit : Nat) (options : Options) : Transcript :=
  if mostItems < options.items then ⟨[], (Ending.tooMany options.items).exitCode⟩
  else
    match IdentitySet.new limit hash (fun left right => left == right) with
    | .error fault => ⟨[], (Ending.refused fault).exitCode⟩
    | .ok set =>
      let opening := #[.opened set.capacity, .filling options.items]
      match fillItems limit options.items 0 set.capacity set opening with
      | (said, .error ending) => ⟨said.toList, ending.exitCode⟩
      | (said, .ok set) =>
        if options.removeEvery = 0 then ⟨said.toList ++ closing set, 0⟩
        else
          let (set, removed) := removeItems (everyNth options.items options.removeEvery) set
          ⟨said.toList ++ .removed removed :: closing set, 0⟩

/-- The most slots one array can have in the address space of a 64-bit machine,
    rounded down to a power of two. -/
def mostSlots : Nat := 1 <<< 58

/-- A run with the usual identities of numbers. -/
def runUsual (options : Options) : Transcript :=
  run identityOf mostSlots options

end Demo

end BoundedProbing
