import RabinReward.Robustness.Binary
import RabinReward.Shell.Number

/-!
# Conversions

How a formatted output shows integers, texts and real numbers. A `Style` holds the flags, the width
and the precision of one conversion. Real numbers are exact: they are read as rationals, rounded to
a binary format, and shown with decimal digits that are correctly rounded, a half to the even digit.
-/

namespace RabinReward.Shell

structure Style where
  left : Bool
  plus : Bool
  space : Bool
  /-- The other form: a base in front, or a point that is always shown. -/
  alternate : Bool
  zero : Bool
  width : Nat
  precision : Option Nat
  deriving DecidableEq, Repr, Inhabited

namespace Style

def plain : Style := ⟨false, false, false, false, false, 0, none⟩

/-- A width that may be negative, which means flush left. -/
def withWidth (s : Style) (w : Int) : Style :=
  if w < 0 then { s with left := true, width := w.natAbs } else { s with width := w.natAbs }

/-- Pads a text whose `front`, a sign or a base, stays in front of zeros. -/
def pad (s : Style) (zeros : Bool) (front body : List Char) : List Char :=
  let gap := s.width - (front.length + body.length)
  if s.left then front ++ body ++ List.replicate gap ' '
  else if zeros && s.zero then front ++ List.replicate gap '0' ++ body
  else List.replicate gap ' ' ++ front ++ body

def sign (s : Style) (negative : Bool) : List Char :=
  if negative then ['-'] else if s.plus then ['+'] else if s.space then [' '] else []

/-- At least as many digits as the precision says. -/
def minDigits (s : Style) (ds : List Char) : List Char :=
  match s.precision with
  | some p => List.replicate (p - ds.length) '0' ++ ds
  | none => ds

/-- The digits of a number; none for zero at precision zero. -/
def digits (s : Style) (base n : Nat) : List Char :=
  if n = 0 && s.precision = some 0 then [] else s.minDigits (digitsIn base n)

def text (s : Style) (cs : List Char) : List Char :=
  s.pad false [] (match s.precision with
    | some p => cs.take p
    | none => cs)

def integer (s : Style) (n : Int) : List Char :=
  s.pad s.precision.isNone (s.sign (n < 0)) (s.digits 10 n.natAbs)

/-- An unsigned number with one of the letters `u`, `o`, `x` and `X`. -/
def unsigned (s : Style) (letter : Char) (n : Nat) : List Char :=
  match letter with
  | 'o' =>
    let ds := s.digits 8 n
    let ds := if s.alternate && ds.head? != some '0' then '0' :: ds else ds
    s.pad s.precision.isNone [] ds
  | 'x' =>
    s.pad s.precision.isNone (if s.alternate && n != 0 then ['0', 'x'] else []) (s.digits 16 n)
  | 'X' =>
    s.pad s.precision.isNone (if s.alternate && n != 0 then ['0', 'X'] else [])
      ((s.digits 16 n).map toUpper)
  | _ => s.pad s.precision.isNone [] (s.digits 10 n)

end Style

/-! ## Real numbers -/

/-- A magnitude. -/
inductive Magnitude where
  | nan
  | infinite
  | finite (q : Rat)
  deriving DecidableEq, Repr, Inhabited

/-- A real number as floating point has it: zero has a sign too. -/
structure Real where
  negative : Bool
  magnitude : Magnitude
  deriving DecidableEq, Repr, Inhabited

/-- Extended precision with 64 significant bits. -/
def extendedFormat : RabinReward.Format := ⟨64, -16445, 16384, 80⟩

/-- Drops a word from the front of a text, in any case. -/
def dropWord? : List Char → List Char → Option (List Char)
  | [], cs => some cs
  | w :: ws, c :: cs => if toLower c == w then dropWord? ws cs else none
  | _ :: _, [] => none

/-- Digits with a point among them: their number, how many stand behind the point, whether there
are any, and what follows. -/
def pointDigits (base : Nat) (cs : List Char) : Nat × Nat × Bool × List Char :=
  let whole := cs.takeWhile fun c => (digitIn? base c).isSome
  let rest := cs.drop whole.length
  let (fraction, rest) := match rest with
    | '.' :: r =>
      let f := r.takeWhile fun c => (digitIn? base c).isSome
      if whole.isEmpty && f.isEmpty then ([], rest) else (f, r.drop f.length)
    | r => ([], r)
  let ds := whole ++ fraction
  (((takeNumber base none ds).1).getD 0, fraction.length, !ds.isEmpty, rest)

/-- An exponent behind one of two letters, if there is one. -/
def exponentOf (letter : Char) (cs : List Char) : Int × List Char :=
  match cs with
  | c :: rest =>
    if toLower c == letter then
      let (negative, ds) := match rest with
        | '-' :: r => (true, r)
        | '+' :: r => (false, r)
        | r => (false, r)
      match takeNumber 10 none ds with
      | (some n, r) => (if negative then -n else n, r)
      | (none, _) => (0, cs)
    else (0, cs)
  | [] => (0, [])

/-- A power of ten times a number; beyond all formats it is infinite or zero. -/
def scaled (m : Nat) (e : Int) : Magnitude :=
  if m = 0 then .finite 0
  else
    let size := e + (Nat.toDigits 10 m).length
    if size > 6000 then .infinite
    else if size < -6000 then .finite 0
    else .finite ((m : Rat) * (10 : Rat) ^ e)

def scaledBinary (m : Nat) (e : Int) : Magnitude :=
  if m = 0 then .finite 0
  else
    let size := e + m.log2
    if size > 20000 then .infinite
    else if size < -20000 then .finite 0
    else .finite ((m : Rat) * (2 : Rat) ^ e)

/-- The magnitude at the front of a text, and what follows it. -/
def readMagnitudeReal? (cs : List Char) : Option (Magnitude × Bool × List Char) :=
  match dropWord? "infinity".toList cs, dropWord? "inf".toList cs, dropWord? "nan".toList cs with
  | some r, _, _ | none, some r, _ => some (.infinite, false, r)
  | none, none, some r =>
    match r with
    | '(' :: more =>
      let inner := more.takeWhile isNameByte
      match more.drop inner.length with
      | ')' :: r => some (.nan, false, r)
      | _ => some (.nan, false, r)
    | r => some (.nan, false, r)
  | none, none, none =>
    let hex : Option (Magnitude × Bool × List Char) :=
      match cs with
      | '0' :: x :: rest =>
        if x == 'x' || x == 'X' then
          let (m, places, found, r) := pointDigits 16 rest
          if found then
            let (e, r) := exponentOf 'p' r
            some (scaledBinary m (e - 4 * places), m != 0, r)
          else none
        else none
      | _ => none
    match hex with
    | some r => some r
    | none =>
      let (m, places, found, r) := pointDigits 10 cs
      if found then
        let (e, r) := exponentOf 'e' r
        some (scaled m (e - places), m != 0, r)
      else none

/-- A real number at the front of a text. -/
structure ReadReal where
  value : Real
  rest : List Char
  found : Bool
  /-- Whether the number is too large or too small for the format. -/
  outOfRange : Bool
  deriving Repr

/-- Reads a real number and rounds it to a format. -/
def readReal (f : RabinReward.Format) (cs : List Char) : ReadReal :=
  let body := cs.dropWhile isSpace
  let (negative, digits) := match body with
    | '-' :: r => (true, r)
    | '+' :: r => (false, r)
    | r => (false, r)
  match readMagnitudeReal? digits with
  | none => ⟨⟨false, .finite 0⟩, cs, false, false⟩
  | some (.finite q, nonzero, rest) =>
    match f.roundMagnitude q with
    | none => ⟨⟨negative, .infinite⟩, rest, true, true⟩
    | some r =>
      let tiny := r < (2 : Rat) ^ (f.leastPlace + (f.precision : Int) - 1)
      ⟨⟨negative, .finite r⟩, rest, true, nonzero && tiny && (r != q || r = 0)⟩
  | some (m, nonzero, rest) => ⟨⟨negative, m⟩, rest, true, nonzero⟩

/-! ## Digits of real numbers -/

/-- Digits with a point before the last `places` of them; the point of a whole number is only shown
if asked for. -/
def withPoint (point : Bool) (places n : Nat) : List Char :=
  let ds := Nat.toDigits 10 n
  let ds := List.replicate (places + 1 - ds.length) '0' ++ ds
  let whole := ds.take (ds.length - places)
  let fraction := ds.drop (ds.length - places)
  whole ++ (if point || places > 0 then ['.'] else []) ++ fraction

def fixedDigits (point : Bool) (places : Nat) (q : Rat) : List Char :=
  withPoint point places (RabinReward.Format.nearestEven (q * 10 ^ places)).natAbs

/-- The exponent of the leading decimal digit of a positive number. -/
def leadingDecimal (q : Rat) : Int :=
  let guess : Int := (Nat.toDigits 10 q.num.natAbs).length - (Nat.toDigits 10 q.den).length
  if (10 : Rat) ^ guess ≤ q then guess else guess - 1

/-- The digits of a number, a given number of them behind the first, and its exponent. -/
def scientific (places : Nat) (q : Rat) : Nat × Int :=
  if q = 0 then (0, 0)
  else
    let e := leadingDecimal q
    let n := (RabinReward.Format.nearestEven (q / (10 : Rat) ^ (e - places))).natAbs
    if n = Nat.pow 10 (places + 1) then (Nat.pow 10 places, e + 1) else (n, e)

/-- An exponent of at least two digits behind its letter. -/
def exponentText (letter : Char) (least : Nat) (e : Int) : List Char :=
  let ds := Nat.toDigits 10 e.natAbs
  letter :: (if e < 0 then '-' else '+') :: (List.replicate (least - ds.length) '0' ++ ds)

def scientificDigits (point : Bool) (places : Nat) (q : Rat) : List Char :=
  let (n, e) := scientific places q
  withPoint point places n ++ exponentText 'e' 2 e

/-- Drops zeros at the end of a fraction, and a point that is left without one. -/
def dropZeros (cs : List Char) : List Char :=
  if cs.contains '.' then
    let r := cs.reverse.dropWhile (· == '0')
    (match r with
      | '.' :: r => r
      | r => r).reverse
  else cs

def generalDigits (alternate : Bool) (precision : Nat) (q : Rat) : List Char :=
  let p := if precision = 0 then 1 else precision
  let (n, e) := scientific (p - 1) q
  if e < -4 || e ≥ p then
    let ds := withPoint alternate (p - 1) n
    (if alternate then ds else dropZeros ds) ++ exponentText 'e' 2 e
  else
    let ds := fixedDigits alternate (p - 1 - e).toNat q
    if alternate then ds else dropZeros ds

/-- Hexadecimal digits, the first of which holds `lead` bits of a normal number. -/
def hexDigits (f : RabinReward.Format) (lead : Nat) (alternate : Bool) (precision : Option Nat)
    (q : Rat) : List Char :=
  let places := (f.precision - lead + 3) / 4
  let e := if q = 0 then 0
    else
      let least := f.leastPlace + (f.precision : Int) - 1
      let e := RabinReward.Format.leadingExponent q
      (if e < least then least else e) - (lead - 1 : Nat)
  let m := if q = 0 then 0 else (q / (2 : Rat) ^ (e - 4 * places)).floor.natAbs
  let (m, places) := match precision with
    | none => (m, places)
    | some p =>
      if p < places then
        ((RabinReward.Format.nearestEven ((m : Rat) / 16 ^ (places - p))).natAbs, p)
      else (m <<< (4 * (p - places)), p)
  let ds := Nat.toDigits 16 m
  let ds := List.replicate (places + 1 - ds.length) '0' ++ ds
  let whole := ds.take (ds.length - places)
  let fraction := ds.drop (ds.length - places)
  let fraction := if precision.isNone then (fraction.reverse.dropWhile (· == '0')).reverse
    else fraction
  whole ++ (if alternate || !fraction.isEmpty then ['.'] else []) ++ fraction ++
    exponentText 'p' 1 e

namespace Style

/-- A real number with one of the letters `a`, `e`, `f` and `g`, or their capitals. -/
def real (s : Style) (f : RabinReward.Format) (lead : Nat) (letter : Char) (r : Real) :
    List Char :=
  let lower := toLower letter
  let (front, body, zeros) := match r.magnitude with
    | .nan => ([], "nan".toList, false)
    | .infinite => ([], "inf".toList, false)
    | .finite q =>
      let p := s.precision.getD 6
      match lower with
      | 'e' => ([], scientificDigits (s.alternate || p > 0) p q, true)
      | 'g' => ([], generalDigits s.alternate p q, true)
      | 'a' => (['0', 'x'], hexDigits f lead s.alternate s.precision q, true)
      | _ => ([], fixedDigits s.alternate p q, true)
  let l := s.pad zeros (s.sign r.negative ++ front) body
  if isUpper letter then l.map toUpper else l

end Style

end RabinReward.Shell
