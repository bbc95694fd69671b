import TodoTracker.Text.Basic

/-!
# Sets of code points

A character class of the Unicode standard is a list of closed ranges of code points. The tables
write a range as two hexadecimal numbers joined by a hyphen, or as one number.
-/

set_option autoImplicit false

namespace TodoTracker

abbrev Ranges := List (Nat × Nat)

namespace Ranges

def contains (ranges : Ranges) (n : Nat) : Bool :=
  ranges.any fun range => range.1 ≤ n && n ≤ range.2

/-- The value of a hexadecimal numeral, `none` when some character is no hexadecimal digit. -/
def hexDigit? (c : Char) : Option Nat :=
  if Text.isAsciiDigit c then some (c.toNat - 48)
  else if 65 ≤ c.toNat && c.toNat ≤ 70 then some (c.toNat - 55)
  else if 97 ≤ c.toNat && c.toNat ≤ 102 then some (c.toNat - 87)
  else none

def readHex (t : Text) : Nat := t.foldl (fun n c => 16 * n + (hexDigit? c).getD 0) 0

def readRange (t : Text) : Nat × Nat :=
  match Text.cut? ['-'] t with
  | some (low, high) => (readHex low, readHex high)
  | none => (readHex t, readHex t)

/-- The words of a table's rows, which single blanks separate. -/
def tableWords (rows : List String) : List Text :=
  rows.flatMap fun row => Text.splitOn ' ' row.toList

def read (rows : List String) : Ranges := (tableWords rows).map readRange

end Ranges

end TodoTracker
