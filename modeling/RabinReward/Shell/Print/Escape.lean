import RabinReward.Shell.Bytes

/-!
# Escapes

A backslash stands for a byte together with what follows it. The letters and numbers are the same
everywhere; what else there is differs, so readers of escapes take a function for it.
-/

namespace RabinReward.Shell

def octalDigit? (c : Char) : Option Nat := digitIn? 8 c

/-- The byte that a letter stands for behind a backslash. -/
def escapeLetter? (c : Char) : Option Char :=
  match c with
  | 'a' => some '\x07'
  | 'b' => some '\x08'
  | 'e' => some '\x1b'
  | 'f' => some '\x0c'
  | 'n' => some '\n'
  | 'r' => some '\r'
  | 't' => some '\t'
  | 'v' => some '\x0b'
  | '\\' => some '\\'
  | _ => none

/-- Up to a number of octal digits: their value, and what follows. -/
def takeOctal (value : Nat) : Nat → List Char → Nat × List Char
  | 0, cs => (value, cs)
  | _, [] => (value, [])
  | n + 1, c :: cs =>
    match octalDigit? c with
    | some d => takeOctal (value * 8 + d) n cs
    | none => (value, c :: cs)

def takeHex (value : Nat) : Nat → List Char → Nat × List Char
  | 0, cs => (value, cs)
  | _, [] => (value, [])
  | n + 1, c :: cs =>
    match digitIn? 16 c with
    | some d => takeHex (value * 16 + d) n cs
    | none => (value, c :: cs)

def byteOf (n : Nat) : Char := Char.ofNat (n % 256)

/-- The escape behind a backslash in a format: a byte and what follows it. A backslash that begins
no escape stands for itself. -/
def formatEscape (cs : List Char) : Char × List Char :=
  match cs with
  | [] => ('\\', [])
  | c :: rest =>
    match escapeLetter? c with
    | some b => (b, rest)
    | none =>
      match octalDigit? c with
      | some _ =>
        let (v, r) := takeOctal 0 3 cs
        (byteOf v, r)
      | none => ('\\', cs)

/-- The escape behind a backslash in an argument; a `c` ends all output. A zero in front of octal
digits is not counted with them. -/
def argumentEscape (cs : List Char) : Option (Char × List Char) :=
  match cs with
  | 'c' :: _ => none
  | '0' :: d :: rest =>
    if (octalDigit? d).isSome then some (formatEscape (d :: rest)) else some (formatEscape cs)
  | cs => some (formatEscape cs)

/-- Replaces the escapes of an argument; whether all output is to end. -/
def unescape : Nat → List Char → List Char × Bool
  | 0, _ => ([], false)
  | _, [] => ([], false)
  | n + 1, '\\' :: cs =>
    match argumentEscape cs with
    | none => ([], true)
    | some (c, rest) =>
      let (r, ended) := unescape n rest
      (c :: r, ended)
  | n + 1, c :: cs =>
    let (r, ended) := unescape n cs
    (c :: r, ended)

def unescapeText (s : String) : List Char × Bool :=
  let cs := s.toList
  unescape (cs.length + 1) cs

/-- What `echo` prints: its arguments with single spaces between them and a line end, unless the
first argument is `-n` or an escape ends all output. -/
def echoText (args : List String) : String :=
  let (newline, args) := match args with
    | "-n" :: rest => (false, rest)
    | args => (true, args)
  let (cs, ended) := unescapeText (joinWith " " args)
  String.ofList (if newline && !ended then cs ++ ['\n'] else cs)

end RabinReward.Shell
