/-!
# Reading UTF-8

Bytes are read one at a time. A first byte says how many continuation bytes follow and narrows the
range of the first of them, which rules out overlong forms, surrogates and values that are too
large (`Pending.ofFirst?`). `decode` stops at the first sequence that is not a character;
`decodeLossy` puts U+FFFD in its place. A sequence goes wrong at the first byte that cannot continue
it, and reading resumes with that byte.
-/

namespace RabinReward.Utf8

/-- A character of which some bytes have been read. -/
structure Pending where
  /-- Number of bytes read. -/
  read : Nat
  /-- Number of bytes still needed. -/
  need : Nat
  /-- Bounds of the next byte. -/
  low : UInt8
  high : UInt8
  value : Nat
  deriving DecidableEq, Repr

/-- The sequence that a byte outside ASCII begins. -/
def Pending.ofFirst? (b : UInt8) : Option Pending :=
  if 0xC2 ≤ b ∧ b ≤ 0xDF then some ⟨1, 1, 0x80, 0xBF, b.toNat - 0xC0⟩
  else if b = 0xE0 then some ⟨1, 2, 0xA0, 0xBF, 0⟩
  else if b = 0xED then some ⟨1, 2, 0x80, 0x9F, 0xD⟩
  else if 0xE1 ≤ b ∧ b ≤ 0xEF then some ⟨1, 2, 0x80, 0xBF, b.toNat - 0xE0⟩
  else if b = 0xF0 then some ⟨1, 3, 0x90, 0xBF, 0⟩
  else if 0xF1 ≤ b ∧ b ≤ 0xF3 then some ⟨1, 3, 0x80, 0xBF, b.toNat - 0xF0⟩
  else if b = 0xF4 then some ⟨1, 3, 0x80, 0x8F, 4⟩
  else none

def Pending.fits (p : Pending) (b : UInt8) : Bool := p.low ≤ b && b ≤ p.high

/-- One more byte that fits. -/
def Pending.extend (p : Pending) (b : UInt8) : Pending :=
  ⟨p.read + 1, p.need - 1, 0x80, 0xBF, p.value * 64 + (b.toNat - 0x80)⟩

/-- Where bytes stop being UTF-8: the offset of the sequence that is wrong, and its length unless
the input ends inside it. -/
structure Error where
  index : Nat
  length : Option Nat
  deriving DecidableEq, Repr

def Error.message (e : Error) : String :=
  match e.length with
  | some n => s!"invalid utf-8 sequence of {n} bytes from index {e.index}"
  | none => s!"incomplete utf-8 byte sequence from index {e.index}"

/-- Reads bytes from the given offset. -/
def decodeFrom (index : Nat) : Option Pending → List UInt8 → Except Error (List Char)
  | none, [] => .ok []
  | some p, [] => .error ⟨index - p.read, none⟩
  | none, b :: bs =>
    if b < 0x80 then (decodeFrom (index + 1) none bs).map (Char.ofNat b.toNat :: ·)
    else
      match Pending.ofFirst? b with
      | some p => decodeFrom (index + 1) (some p) bs
      | none => .error ⟨index, some 1⟩
  | some p, b :: bs =>
    if p.fits b then
      if p.need = 1 then
        (decodeFrom (index + 1) none bs).map (Char.ofNat (p.extend b).value :: ·)
      else decodeFrom (index + 1) (some (p.extend b)) bs
    else .error ⟨index - p.read, some p.read⟩

def decode (bs : List UInt8) : Except Error String := (decodeFrom 0 none bs).map String.ofList

/-- U+FFFD, which stands for bytes that are no character. -/
def replacement : Char := '\uFFFD'

/-- A byte with no sequence pending: the character it completes, and what it begins. -/
def lossyFirst (b : UInt8) : List Char × Option Pending :=
  if b < 0x80 then ([Char.ofNat b.toNat], none)
  else
    match Pending.ofFirst? b with
    | some p => ([], some p)
    | none => ([replacement], none)

def decodeLossyFrom : Option Pending → List UInt8 → List Char
  | none, [] => []
  | some _, [] => [replacement]
  | none, b :: bs => (lossyFirst b).1 ++ decodeLossyFrom (lossyFirst b).2 bs
  | some p, b :: bs =>
    if p.fits b then
      if p.need = 1 then Char.ofNat (p.extend b).value :: decodeLossyFrom none bs
      else decodeLossyFrom (some (p.extend b)) bs
    else replacement :: ((lossyFirst b).1 ++ decodeLossyFrom (lossyFirst b).2 bs)

def decodeLossy (bs : List UInt8) : String := String.ofList (decodeLossyFrom none bs)

end RabinReward.Utf8
