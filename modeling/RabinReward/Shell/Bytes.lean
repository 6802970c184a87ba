/-!
# Bytes as text

Programs exchange bytes. A sequence of bytes is kept as a string whose characters are the bytes
themselves, so that `é` takes two of them. `ofText` turns a text into its bytes in UTF-8, and
`toBytes` gives the bytes of such a string.
-/

namespace RabinReward.Shell

/-- The character that stands for a byte. -/
def byteChar (b : UInt8) : Char := Char.ofNat b.toNat

/-- The bytes of a text, as a string of bytes. -/
def ofText (s : String) : String :=
  String.ofList (s.toList.flatMap fun c => (String.utf8EncodeChar c).map byteChar)

/-- The bytes that a string of bytes stands for. -/
def toBytes (s : String) : List UInt8 := s.toList.map fun c => UInt8.ofNat c.toNat

def joinWith (sep : String) (l : List String) : String := sep.intercalate l

/-- Whether a string has a byte that no argument of a program can carry. -/
def hasNul (s : String) : Bool := s.toList.contains '\x00'

/-! ## Classes of bytes -/

def isDigit (c : Char) : Bool := '0' ≤ c && c ≤ '9'

def isLower (c : Char) : Bool := 'a' ≤ c && c ≤ 'z'

def isUpper (c : Char) : Bool := 'A' ≤ c && c ≤ 'Z'

def isAlpha (c : Char) : Bool := isLower c || isUpper c

def isAlnum (c : Char) : Bool := isAlpha c || isDigit c

/-- Space, and the control characters from tab to carriage return. -/
def isSpace (c : Char) : Bool := c == ' ' || ('\x09' ≤ c && c ≤ '\x0d')

def isBlankByte (c : Char) : Bool := c == ' ' || c == '\t'

def isControl (c : Char) : Bool := c < ' ' || c == '\x7f'

def isGraph (c : Char) : Bool := '!' ≤ c && c ≤ '~'

def isPrint (c : Char) : Bool := ' ' ≤ c && c ≤ '~'

def isPunct (c : Char) : Bool := isGraph c && !isAlnum c

def isHexDigit (c : Char) : Bool := isDigit c || ('a' ≤ c && c ≤ 'f') || ('A' ≤ c && c ≤ 'F')

def toLower (c : Char) : Char := if isUpper c then Char.ofNat (c.toNat + 32) else c

def toUpper (c : Char) : Char := if isLower c then Char.ofNat (c.toNat - 32) else c

/-- First byte of a name. -/
def isNameStart (c : Char) : Bool := isAlpha c || c == '_'

def isNameByte (c : Char) : Bool := isAlnum c || c == '_'

/-- A variable's name. -/
def isName (s : String) : Bool :=
  match s.toList with
  | [] => false
  | c :: cs => isNameStart c && cs.all isNameByte

/-- The value of a digit in any base up to 36. -/
def digitValue? (c : Char) : Option Nat :=
  if isDigit c then some (c.toNat - '0'.toNat)
  else if isLower c then some (c.toNat - 'a'.toNat + 10)
  else if isUpper c then some (c.toNat - 'A'.toNat + 10)
  else none

/-- The value of a digit below a base. -/
def digitIn? (base : Nat) (c : Char) : Option Nat := (digitValue? c).filter (· < base)

/-- The number at the front of a text, if there is a digit, and what follows it. -/
def takeNumber (base : Nat) (sofar : Option Nat) : List Char → Option Nat × List Char
  | [] => (sofar, [])
  | c :: cs =>
    match digitIn? base c with
    | some d => takeNumber base (some (sofar.getD 0 * base + d)) cs
    | none => (sofar, c :: cs)

/-- A run of decimal digits and nothing else. -/
def decimal? (s : String) : Option Nat :=
  match takeNumber 10 none s.toList with
  | (some n, []) => some n
  | _ => none

/-- The digits of a number in a base. -/
def digitsIn (base : Nat) (n : Nat) : List Char := Nat.toDigits base n

end RabinReward.Shell
