import BoundedProbing.Demo

/-!
# Options of the Demonstration

Reading what a run is asked to do from the words of a command line.

Each option is a name and a number behind it, in any order. The number is a
decimal numeral of at most 64 bits.

## Main definitions

* `Demo.readNumber`: A numeral.
* `Demo.Options.read`: The options in a list of words.
-/

namespace BoundedProbing

namespace Demo

/-- The number a decimal numeral stands for, if it fits in 64 bits. A plus sign
    may stand in front. -/
def readNumber (word : String) : Option Nat :=
  let digits := match word.toList with
    | '+' :: rest => rest
    | all => all
  if digits.isEmpty || digits.any (fun char => !char.isDigit) then none
  else
    let number := digits.foldl (fun number char => 10 * number + (char.toNat - '0'.toNat)) 0
    if number < UInt64.size then some number else none

/-- The options in a list of words, on top of those read before; none if a word
    is not understood. -/
def Options.readFrom (options : Options) : List String → Option Options
  | [] => some options
  | name :: value :: rest =>
    match readNumber value with
    | none => none
    | some number =>
      if name = "-n" ∨ name = "--items" then
        readFrom { options with items := number } rest
      else if name = "-r" ∨ name = "--remove_every" then
        readFrom { options with removeEvery := number } rest
      else none
  | [_] => none

/-- The options in a list of words. -/
def Options.read (words : List String) : Option Options :=
  Options.usual.readFrom words

end Demo

end BoundedProbing
