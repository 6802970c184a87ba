import RabinReward.Shell.Print.Conversion
import RabinReward.Shell.Print.Escape

/-!
# Formatted output

The shell's own `printf`. A format is used again as long as arguments are left and it uses any. A
directive without an argument gets an empty one. An argument that is no number counts as far as it
is one, with a complaint.
-/

namespace RabinReward.Shell

/-- Where a formatted output stands. -/
structure Printing where
  /-- What is printed, the last byte first. -/
  out : List Char
  args : List String
  /-- Complaints, the last one first. -/
  complaints : List String
  status : Nat
  /-- Whether all output has ended. -/
  ended : Bool
  deriving Repr, Inhabited

namespace Printing

def start (args : List String) : Printing := ⟨[], args, [], 0, false⟩

def put (p : Printing) (cs : List Char) : Printing := { p with out := cs.reverse ++ p.out }

def complain (p : Printing) (text : String) (status : Nat) : Printing :=
  { p with complaints := text :: p.complaints, status }

/-- Ends the output with a complaint. -/
def stop (p : Printing) (text : String) (status : Nat) : Printing :=
  { p.complain text status with ended := true }

/-- Takes the next argument. -/
def pop (p : Printing) : Option String × Printing :=
  match p.args with
  | [] => (none, p)
  | a :: as => (some a, { p with args := as })

def text (p : Printing) : String := String.ofList p.out.reverse

end Printing

/-- A directive up to its letter. Where the width or the precision is taken from an argument, the
function that reads numbers supplies it. -/
structure Directive where
  style : Style
  /-- The bytes of the directive, the percent sign and the letter included. -/
  written : List Char
  letter : Option Char
  rest : List Char

def withFlag (s : Style) (c : Char) : Style :=
  match c with
  | '#' => { s with alternate := true }
  | '-' => { s with left := true }
  | '+' => { s with plus := true }
  | ' ' => { s with space := true }
  | _ => { s with zero := true }

/-- Reads a width or a precision that is an argument. -/
abbrev NumberReader := (isWidth : Bool) → Printing → Int × Printing

/-- Reads a width: an argument or digits. -/
def directiveWidth (number : NumberReader) (s : Style) (cs : List Char) (p : Printing) :
    Style × List Char × Printing :=
  match cs with
  | '*' :: r =>
    let (w, p) := number true p
    (s.withWidth w, r, p)
  | cs =>
    let ds := cs.takeWhile isDigit
    ({ s with width := ((takeNumber 10 none ds).1).getD 0 }, cs.drop ds.length, p)

/-- Reads a precision behind its point, if there is one. -/
def directivePrecision (number : NumberReader) (s : Style) (cs : List Char) (p : Printing) :
    Style × List Char × Printing :=
  match cs with
  | '.' :: '*' :: r =>
    let (w, p) := number false p
    ({ s with precision := if w < 0 then none else some w.natAbs }, r, p)
  | '.' :: r =>
    let ds := r.takeWhile isDigit
    ({ s with precision := some (((takeNumber 10 none ds).1).getD 0) }, r.drop ds.length, p)
  | cs => (s, cs, p)

/-- Reads a directive behind its percent sign. -/
def directive (number : NumberReader) (isFlag : Char → Bool) (cs : List Char) (p : Printing) :
    Directive × Printing :=
  let flags := cs.takeWhile isFlag
  let style := flags.foldl withFlag .plain
  let (style, r, p) := directiveWidth number style (cs.drop flags.length) p
  let (style, r, p) := directivePrecision number style r p
  let body := cs.take (cs.length - r.length)
  match r with
  | [] => (⟨style, '%' :: body, none, []⟩, p)
  | c :: rest => (⟨style, '%' :: body ++ [c], some c, rest⟩, p)

/-- The width and the precision from which on nothing can be printed. -/
def tooWide : Nat := 1 <<< 31 - 1

def Style.isTooWide (s : Style) : Bool := s.width ≥ tooWide || s.precision.getD 0 ≥ tooWide

/-! ## Numbers as arguments -/

/-- A complaint about an argument of which only a part is a number. -/
def checkNumber (p : Printing) (s : String) (rest : List Char) (outOfRange : Bool) : Printing :=
  if !rest.isEmpty then
    if rest.length = s.length then p.complain s!"{s}: expected numeric value" 1
    else p.complain s!"{s}: not completely converted" 1
  else if outOfRange then p.complain s!"{s}: Numerical result out of range" 1
  else p

/-- The byte behind a quote, which stands for its number. -/
def quotedByte? (s : String) : Option Nat :=
  match s.toList with
  | '"' :: c :: _ | '\'' :: c :: _ => some c.toNat
  | ['"'] | ['\''] => some 0
  | _ => none

def signedArgument (p : Printing) : Int × Printing :=
  match p.pop with
  | (none, p) => (0, p)
  | (some s, p) =>
    match quotedByte? s with
    | some n => (n, p)
    | none =>
      let r := readInteger 0 s.toList
      let v := clamp64 r.value
      (v, checkNumber p s r.rest (v != r.value))

/-- A width or a precision wraps around at 32 bits. -/
def wrappedArgument (_ : Bool) (p : Printing) : Int × Printing :=
  let (n, p) := signedArgument p
  (Int.bmod n UInt32.size, p)

/-- The greatest unsigned number. -/
def greatestUnsigned : Nat := UInt64.size - 1

def unsignedArgument (p : Printing) : Nat × Printing :=
  match p.pop with
  | (none, p) => (0, p)
  | (some s, p) =>
    match quotedByte? s with
    | some n => (n, p)
    | none =>
      let r := readInteger 0 s.toList
      let tooLarge := r.value.natAbs > greatestUnsigned
      let v := if tooLarge then greatestUnsigned else (Int.emod r.value UInt64.size).toNat
      (v, checkNumber p s r.rest tooLarge)

def realArgument (f : RabinReward.Format) (p : Printing) : Real × Printing :=
  match p.pop with
  | (none, p) => (⟨false, .finite 0⟩, p)
  | (some s, p) =>
    match quotedByte? s with
    | some n => (⟨false, .finite n⟩, p)
    | none =>
      let r := readReal f s.toList
      (r.value, checkNumber p s r.rest r.outOfRange)

def isRealLetter (c : Char) : Bool :=
  c == 'a' || c == 'A' || c == 'e' || c == 'E' || c == 'f' || c == 'F' || c == 'g' || c == 'G'

/-! ## The format -/

/-- Prints what a directive asks for. -/
def printDirective (d : Directive) (p : Printing) : Printing :=
  match d.letter with
  | none => p.stop "missing format character" 2
  | some 'b' =>
    let (a, p) := p.pop
    let (cs, ended) := unescapeText (a.getD "")
    { p.put (d.style.text cs) with ended }
  | some 'c' =>
    let (a, p) := p.pop
    let c := ((a.getD "").toList.head?).getD '\x00'
    p.put (d.style.pad false [] [c])
  | some 's' =>
    let (a, p) := p.pop
    p.put (d.style.text (a.getD "").toList)
  | some c =>
    if c == 'd' || c == 'i' then
      let (n, p) := signedArgument p
      p.put (d.style.integer n)
    else if c == 'o' || c == 'u' || c == 'x' || c == 'X' then
      let (n, p) := unsignedArgument p
      p.put (d.style.unsigned c n)
    else if isRealLetter c then
      let (r, p) := realArgument .double p
      p.put (d.style.real .double 1 c r)
    else p.stop s!"{String.ofList d.written}: invalid directive" 2

def isDirectiveFlag (c : Char) : Bool := c == '#' || c == '-' || c == '+' || c == ' ' || c == '0'

/-- Prints a format once. -/
def printFormat : Nat → List Char → Printing → Printing
  | 0, _, p => p
  | _, [], p => p
  | n + 1, c :: cs, p =>
    if p.ended then p
    else if c == '\\' then
      let (b, rest) := formatEscape cs
      printFormat n rest (p.put [b])
    else if c == '%' then
      match cs with
      | '%' :: rest => printFormat n rest (p.put ['%'])
      | cs =>
        let (d, p) := directive wrappedArgument isDirectiveFlag cs p
        if d.style.isTooWide then p.stop "xvsnprintf failed" 2
        else printFormat n d.rest (printDirective d p)
    else printFormat n cs (p.put [c])

/-- Uses a format again and again. -/
def printAll (format : List Char) : Nat → Printing → Printing
  | 0, p => p
  | n + 1, p =>
    let before := p.args.length
    let p := printFormat (format.length + 1) format p
    if p.ended || p.args.isEmpty || p.args.length = before then p else printAll format n p

/-- `printf` with a format and arguments. -/
def printfText (format : String) (args : List String) : Printing :=
  printAll format.toList (args.length + 1) (.start args)

end RabinReward.Shell
