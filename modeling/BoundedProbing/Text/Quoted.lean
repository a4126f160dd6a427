import BoundedProbing.Text.Hex
import BoundedProbing.Text.Unprintable

/-!
# Quoted Text

A text between double quotes, on one line and with every character visible.

The quote and the backslash are written with a backslash in front. Four control
characters have short names of the same kind. Whatever else cannot be seen is
written as its code point in braces; an apostrophe and every other visible
character stay as they are.

## Main definitions

* `hexNumeral`: A code point without leading zeros.
* `escaped`: How one character is written between the quotes.
* `quoted`: The whole text.
-/

namespace BoundedProbing

namespace Text

/-- A number in hexadecimal, lower case and without leading zeros. -/
def hexNumeral (number : Nat) : List Char :=
  Nat.toDigits 16 number

/-- How a character is written between double quotes. -/
def escaped (char : Char) : List Char :=
  if char = '"' then ['\\', '"']
  else if char = '\\' then ['\\', '\\']
  else if char = '\n' then ['\\', 'n']
  else if char = '\r' then ['\\', 'r']
  else if char = '\t' then ['\\', 't']
  else if char = '\x00' then ['\\', '0']
  else if isUnprintable char then ['\\', 'u', '\x7b'] ++ hexNumeral char.toNat ++ ['\x7d']
  else [char]

/-- A text between double quotes. -/
def quoted (text : String) : String :=
  String.ofList ('"' :: text.toList.flatMap escaped ++ ['"'])

end Text

end BoundedProbing
