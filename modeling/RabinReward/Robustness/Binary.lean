import RabinReward.Robustness.Rounding

/-!
# Binary floating point

A `Format` has a number of significant bits, a least place and an upper bound. Its finite values
are the multiples `m · 2^e` of a place `e` that fit those bits. Rounding goes to the nearest value
and on a tie to the even multiple; what reaches the bound becomes infinite. `Format.word` is the
usual encoding: sign, biased exponent, fraction.
-/

namespace RabinReward

/-- A binary floating-point format. -/
structure Format where
  /-- Number of significant bits. -/
  precision : Nat
  /-- Exponent of the least place. -/
  leastPlace : Int
  /-- Finite values are below two to this power. -/
  bound : Int
  /-- Number of bits of an encoded value. -/
  width : Nat
  deriving DecidableEq, Repr

namespace Format

def single : Format := ⟨24, -149, 128, 32⟩

def double : Format := ⟨53, -1074, 1024, 64⟩

/-- Rounds a rational to the nearest integer, a half to the even one. -/
def nearestEven (q : Rat) : Int :=
  let low := q.floor
  let rest := q - low
  if rest < 1 / 2 then low
  else if 1 / 2 < rest then low + 1
  else if low % 2 = 0 then low else low + 1

/-- The exponent of the leading bit of a positive rational. -/
def leadingExponent (q : Rat) : Int :=
  let k : Int := (q.num.natAbs.log2 : Int) - q.den.log2
  if (2 : Rat) ^ k ≤ q then k else k - 1

/-- The place of the last significant bit of a positive rational. -/
def place (f : Format) (q : Rat) : Int :=
  let e := leadingExponent q - (f.precision - 1 : Nat)
  if e < f.leastPlace then f.leastPlace else e

/-- Rounds a non-negative rational; nothing is returned beyond the bound. -/
def roundMagnitude (f : Format) (q : Rat) : Option Rat :=
  if q = 0 then some 0
  else
    let unit : Rat := 2 ^ f.place q
    let r := nearestEven (q / unit) * unit
    if r < 2 ^ f.bound then some r else none

def round (f : Format) (q : Rat) : Robustness :=
  match f.roundMagnitude q.abs with
  | none => if q < 0 then .negInf else .posInf
  | some r => .finite (if q < 0 then -r else r)

/-- Arithmetic in a format. -/
def rounding (f : Format) : Rounding := ⟨f.round⟩

/-- The encoding of a non-negative value of the format, without its sign bit. -/
def wordMagnitude (f : Format) (q : Rat) : Nat :=
  if q = 0 then 0
  else
    let e := f.place q
    let m := (q / 2 ^ e).floor.toNat
    let top := 1 <<< (f.precision - 1)
    if m < top then m else (e - f.leastPlace + 1).toNat * top + (m - top)

/-- The encoding of infinity, without its sign bit. -/
def wordInfinite (f : Format) : Nat := 1 <<< (f.width - 1) - 1 <<< (f.precision - 1)

/-- The encoding of a value of the format; `nan` is the quiet one. -/
def word (f : Format) : Robustness → Nat
  | .nan => f.wordInfinite + 1 <<< (f.precision - 2)
  | .negInf => 1 <<< (f.width - 1) + f.wordInfinite
  | .posInf => f.wordInfinite
  | .finite q => (if q < 0 then 1 <<< (f.width - 1) else 0) + f.wordMagnitude q.abs

end Format

/-- Single precision, the arithmetic of robustness values and rewards. -/
def Rounding.single : Rounding := Format.single.rounding

end RabinReward
