import RabinReward.Shell.Print.Printf
import RabinReward.Shell.Tool.Basic

/-!
# The program `printf`

It differs from the shell's own in what it checks: each directive allows only some flags, numbers
are shown in extended precision, escapes may be hexadecimal, and what it cannot use ends the output
with a message.
-/

namespace RabinReward.Shell.Tool.Printf

/-- An escape behind a backslash. -/
inductive Escape where
  | bytes (cs rest : List Char)
  /-- Ends all output. -/
  | stop
  | wrong (text : String)

/-- The least number of digits that a text has, with zeros in front. -/
def padZeros (n : Nat) (ds : List Char) : List Char := List.replicate (n - ds.length) '0' ++ ds

/-- A character by its number, of which only ASCII can be shown. -/
def unicode (letter : Char) (digits : Nat) (cs : List Char) : Escape :=
  let ds := (cs.take digits).takeWhile isHexDigit
  if ds.length < digits then .wrong "missing hexadecimal number in escape"
  else
    let v := ((takeNumber 16 none ds).1).getD 0
    let rest := cs.drop digits
    if 0xd800 ≤ v && v ≤ 0xdfff then
      .wrong s!"invalid universal character name \\{letter}{String.ofList (padZeros digits ds)}"
    else if v < 0x80 then .bytes [Char.ofNat v] rest
    else
      let hex := (digitsIn 16 v).map toUpper
      if v < 0x10000 then .bytes ('\\' :: 'u' :: padZeros 4 hex) rest
      else .bytes ('\\' :: 'U' :: padZeros 8 hex) rest

/-- The escape behind a backslash; `zero` is set where a zero in front of octal digits is not one
of them. -/
def escape (zero : Bool) (cs : List Char) : Escape :=
  match cs with
  | [] => .bytes ['\\'] []
  | 'x' :: rest =>
    let (v, r) := takeHex 0 2 rest
    if r.length = rest.length then .wrong "missing hexadecimal number in escape"
    else .bytes [byteOf v] r
  | '"' :: rest => .bytes ['"'] rest
  | 'c' :: _ => .stop
  | 'u' :: rest => unicode 'u' 4 rest
  | 'U' :: rest => unicode 'U' 8 rest
  | c :: rest =>
    match escapeLetter? c with
    | some b => .bytes [b] rest
    | none =>
      if (octalDigit? c).isSome then
        let (v, r) := takeOctal 0 3 (if zero && c = '0' then rest else cs)
        .bytes [byteOf v] r
      else .bytes ['\\', c] rest

/-- Prints an argument with its escapes replaced. -/
def putEscaped : Nat → List Char → Printing → Printing
  | 0, _, p => p
  | _, [], p => p
  | n + 1, '\\' :: cs, p =>
    match escape true cs with
    | .bytes bs rest => putEscaped n rest (p.put bs)
    | .stop => { p with ended := true, status := 0 }
    | .wrong text => p.stop text 1
  | n + 1, c :: cs, p => putEscaped n cs (p.put [c])

/-- Whether a letter allows a flag. -/
def allows (letter flag : Char) : Bool :=
  match flag with
  | '\'' | 'I' => letter == 'd' || letter == 'i' || letter == 'u' || letter == 'f' ||
      letter == 'F' || letter == 'g' || letter == 'G'
  | '#' => !(letter == 'c' || letter == 'd' || letter == 'i' || letter == 's' || letter == 'u')
  | '0' => !(letter == 'c' || letter == 's')
  | '.' => letter != 'c'
  | _ => true

def letters : List Char := "acdeifgosuxAEFGX".toList

/-- A complaint about an argument of which only a part is a number. -/
def check (p : Printing) (s : String) (rest : List Char) (outOfRange : Bool) : Printing :=
  if outOfRange then p.complain s!"{quoted s}: Numerical result out of range" 1
  else if !rest.isEmpty then
    if rest.length = s.length then p.complain s!"{quoted s}: expected a numeric value" 1
    else p.complain s!"{quoted s}: value not completely converted" 1
  else p

/-- The byte behind a quote, which stands for its number; bytes behind it are ignored. -/
def quotedByte? (p : Printing) (s : String) : Option (Nat × Printing) :=
  match s.toList with
  | q :: c :: more =>
    if q == '"' || q == '\'' then
      if more.isEmpty then some (c.toNat, p)
      else
        let text := s!"warning: {String.ofList more}: character(s) following character constant " ++
          "have been ignored"
        some (c.toNat, p.complain text p.status)
    else none
  | _ => none

def signed (p : Printing) (s : String) : Int × Printing :=
  match quotedByte? p s with
  | some (n, p) => (n, p)
  | none =>
    let r := readInteger 0 s.toList
    let v := clamp64 r.value
    (v, check p s r.rest (v != r.value))

def unsigned (p : Printing) (s : String) : Nat × Printing :=
  match quotedByte? p s with
  | some (n, p) => (n, p)
  | none =>
    let r := readInteger 0 s.toList
    let tooLarge := r.value.natAbs > greatestUnsigned
    let v := if tooLarge then greatestUnsigned else (Int.emod r.value UInt64.size).toNat
    (v, check p s r.rest tooLarge)

def real (p : Printing) (s : String) : Real × Printing :=
  match quotedByte? p s with
  | some (n, p) => (⟨false, .finite n⟩, p)
  | none =>
    let r := readReal extendedFormat s.toList
    (r.value, check p s r.rest r.outOfRange)

/-- A width or precision that is an argument. -/
def starArgument (isWidth : Bool) (p : Printing) : Int × Printing :=
  match p.pop with
  | (none, p) => (0, p)
  | (some s, p) =>
    let (n, p) := signed p s
    if isWidth && n.natAbs > tooWide + (if n < 0 then 1 else 0) then
      (0, p.stop s!"invalid field width: {quoted s}" 1)
    else if !isWidth && n > tooWide then (0, p.stop s!"invalid precision: {quoted s}" 1)
    else (n, p)

def isFlag (c : Char) : Bool :=
  c == '#' || c == '-' || c == '+' || c == ' ' || c == '0' || c == '\'' || c == 'I'

def isLength (c : Char) : Bool :=
  c == 'l' || c == 'L' || c == 'h' || c == 'j' || c == 't' || c == 'z'

/-- Prints what a directive asks for, given the argument it takes. -/
def put (s : Style) (letter : Char) (arg : String) (p : Printing) : Printing :=
  if letter == 'c' then
    p.put (s.pad false [] (arg.toList.take 1 ++ (if arg.isEmpty then ['\x00'] else [])))
  else if letter == 's' then p.put (s.text arg.toList)
  else if letter == 'd' || letter == 'i' then
    let (n, p) := signed p arg
    p.put (s.integer n)
  else if isRealLetter letter then
    let (r, p) := real p arg
    p.put (s.real extendedFormat 4 letter r)
  else
    let (n, p) := unsigned p arg
    p.put (s.unsigned letter n)

/-- Reads a directive behind its percent sign and prints it; gives what follows it. -/
def directive (cs : List Char) (p : Printing) : Printing × List Char :=
  match cs with
  | '%' :: rest => (p.put ['%'], rest)
  | 'b' :: rest =>
    match p.pop with
    | (some a, p) => (putEscaped (a.length + 1) a.toList p, rest)
    | (none, p) => (p, rest)
  | 'q' :: rest =>
    match p.pop with
    | (some a, p) => (p.put (shellQuoted a).toList, rest)
    | (none, p) => (p, rest)
  | cs =>
    let (d, p) := Shell.directive starArgument isFlag cs p
    let flags := cs.takeWhile isFlag
    let hasPrecision := d.written.contains '.'
    let behind := match d.letter with
      | some c => c :: d.rest
      | none => []
    let lengths := behind.takeWhile isLength
    let written := d.written.take (d.written.length - (if d.letter.isSome then 1 else 0)) ++ lengths
    match behind.drop lengths.length with
    | [] =>
      let shown := String.ofList written
      (p.stop s!"{shown}: invalid conversion specification" 1, [])
    | c :: rest =>
      let fine := letters.contains c && flags.all (allows c) && (!hasPrecision || allows c '.')
      if fine then
        let (a, p) := p.pop
        if p.ended then (p, [])
        else if d.style.isTooWide then (p.complain "write error" 1, rest)
        else (put d.style c (a.getD "") p, rest)
      else
        let shown := String.ofList (written ++ [c])
        (p.stop s!"{shown}: invalid conversion specification" 1, [])

/-- Prints a format once. -/
def format : Nat → List Char → Printing → Printing
  | 0, _, p => p
  | _, [], p => p
  | n + 1, c :: cs, p =>
    if p.ended then p
    else if c == '\\' then
      match escape false cs with
      | .bytes bs rest => format n rest (p.put bs)
      | .stop => { p with ended := true, status := 0 }
      | .wrong text => p.stop text 1
    else if c == '%' then
      let (p, rest) := directive cs p
      format n rest p
    else format n cs (p.put [c])

/-- Uses a format again and again; what it leaves over is complained about. -/
def all (cs : List Char) : Nat → Printing → Printing
  | 0, p => p
  | n + 1, p =>
    let before := p.args.length
    let p := format (cs.length + 1) cs p
    match p.args with
    | [] => p
    | a :: _ =>
      if p.ended then p
      else if p.args.length = before then
        p.complain s!"warning: ignoring excess arguments, starting with {quoted a}" p.status
      else all cs n p

def run : Tool := fun _ name args => do
  let args := match args with
    | "--" :: rest => rest
    | args => args
  match args with
  | [] => tryHelp name "missing operand" 1
  | cs :: args =>
    let p := all cs.toList (args.length + 1) (.start args)
    Sh.print 1 p.text
    p.complaints.reverse.forM (warn name)
    return p.status

end RabinReward.Shell.Tool.Printf
