/-!
# Decimal numerals

Runs of the ASCII digits and their values. `numeral?` reads a non-empty run whose value stays below
a bound; leading zeros are allowed.
-/

namespace RabinReward.Text

def isDigit (c : Char) : Bool := '0' ≤ c && c ≤ '9'

/-- The value of a run of digits, the most significant one first. -/
def numeralValue (ds : List Char) : Nat := ds.foldl (fun n d => 10 * n + (d.toNat - '0'.toNat)) 0

/-- A non-empty run of digits in front, if its value is below the bound, and what follows it. -/
def numeral? (bound : Nat) (cs : List Char) : Option (Nat × List Char) :=
  let ds := cs.takeWhile isDigit
  if !ds.isEmpty && numeralValue ds < bound then some (numeralValue ds, cs.dropWhile isDigit)
  else none

end RabinReward.Text
