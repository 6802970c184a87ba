import RabinReward.Shell.Bytes

/-!
# Numbers in text

An integer may have blanks and a sign in front, and a base written as `0x` or `0` where the base is
free. Reading takes the longest such number off the front of a text. Numbers beyond 64 bits become
the greatest or least one.
-/

namespace RabinReward.Shell

/-- Wraps an integer to 64 bits with a sign. -/
def wrap64 (n : Int) : Int := Int.bmod n UInt64.size

def greatest64 : Int := Int64.maxValue.toInt

def least64 : Int := Int64.minValue.toInt

/-- An integer at the front of a text. -/
structure ReadInteger where
  value : Int
  rest : List Char
  /-- Whether there is a digit. -/
  found : Bool
  deriving DecidableEq, Repr

/-- The digits behind a sign. With base zero they choose their base themselves. -/
def readMagnitude (base : Nat) (cs : List Char) : Option Nat × List Char :=
  let hex : Option (Option Nat × List Char) :=
    match cs with
    | '0' :: x :: c :: rest =>
      if (x == 'x' || x == 'X') && (base == 0 || base == 16) && isHexDigit c then
        some (takeNumber 16 none (c :: rest))
      else none
    | _ => none
  match hex with
  | some r => r
  | none =>
    let base := if base != 0 then base else if cs.head? == some '0' then 8 else 10
    takeNumber base none cs

/-- Reads an integer of any size. -/
def readInteger (base : Nat) (cs : List Char) : ReadInteger :=
  let body := cs.dropWhile isSpace
  let (negative, digits) := match body with
    | '-' :: r => (true, r)
    | '+' :: r => (false, r)
    | r => (false, r)
  match readMagnitude base digits with
  | (some n, rest) => ⟨if negative then -n else n, rest, true⟩
  | (none, _) => ⟨0, cs, false⟩

/-- The nearest integer of 64 bits. -/
def clamp64 (n : Int) : Int :=
  if n > greatest64 then greatest64 else if n < least64 then least64 else n

/-- An integer of 64 bits that makes up a whole text, blanks aside. -/
def integer64? (base : Nat) (s : String) : Option Int :=
  let r := readInteger base s.toList
  if (r.found || base == 0) && (r.rest.all isSpace) && (r.value == clamp64 r.value) then
    some r.value
  else none

/-- A count that makes up a whole text: decimal digits, at most the greatest number of 31 bits. -/
def count? (s : String) : Option Nat :=
  (decimal? s).filter (· < 1 <<< 31)

end RabinReward.Shell
