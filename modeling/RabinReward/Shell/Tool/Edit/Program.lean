import RabinReward.Shell.Print.Escape
import RabinReward.Shell.Regex.Reader

/-!
# Editing programs

The language of `sed`: commands, each of which applies to the lines that its addresses select. A
program is an array of them; a group and its end are commands too, and jumps go to labels. Reading
counts the bytes it has seen, because complaints tell where they are.
-/

namespace RabinReward.Shell.Tool.Edit

inductive Address where
  | line (n : Nat)
  | last
  | pattern (r : Option Regex) (ignoreCase multiline : Bool)
  /-- Every `step`-th line from one on. -/
  | every (start step : Nat)
  /-- A number of lines behind the first address. -/
  | plus (n : Nat)
  /-- The next line whose number is a multiple. -/
  | multiple (n : Nat)
  deriving Repr, Inhabited

/-- A part of a replacement. -/
inductive Insertion where
  | byte (c : Char)
  | group (n : Nat)
  /-- `L`, `U`, `E`, `l` or `u`: what becomes of the case of what follows. -/
  | letters (c : Char)
  deriving DecidableEq, Repr

structure Substitution where
  pattern : Option Regex
  insertions : List Insertion
  everywhere : Bool
  shows : Bool
  /-- Which match is the first to be replaced. -/
  number : Nat
  ignoreCase : Bool
  multiline : Bool
  file : Option String
  deriving Repr

inductive Action where
  | opening
  | closing
  | label (name : String)
  /-- A jump, always or depending on substitutions. -/
  | jump (kind : Char) (name : String)
  /-- `a`, `i` or `c` with a text. -/
  | text (kind : Char) (s : String)
  | substitute (s : Substitution)
  | exchange (pairs : List (Char × Char))
  /-- `q` or `Q` with a status. -/
  | quit (kind : Char) (status : Nat)
  /-- `r` or `w` with a file. -/
  | file (kind : Char) (path : String)
  | list (width : Nat)
  /-- A command that is a letter alone. -/
  | plain (c : Char)
  deriving Repr

structure Command where
  first : Option Address
  second : Option Address
  negated : Bool
  action : Action
  deriving Repr

/-! ## Reading -/

structure Source where
  rest : List Char
  read : Nat
  extended : Bool
  /-- Groups that are open. -/
  depth : Nat
  /-- Whether the program says that lines are not printed by themselves. -/
  quiet : Bool

/-- A complaint and the place it is about. -/
abbrev M := StateT Source (Except (String × Nat))

def wrong {α : Type} (text : String) : M α := do throw (text, (← get).read)

/-- Takes the next byte. -/
def next? : M (Option Char) := modifyGet fun s =>
  match s.rest with
  | [] => (none, s)
  | c :: cs => (some c, { s with rest := cs, read := s.read + 1 })

def peek? : M (Option Char) := return (← get).rest.head?

/-- Skips bytes of a kind. -/
def skip (test : Char → Bool) : M Unit := modify fun s =>
  let front := s.rest.takeWhile test
  { s with rest := s.rest.drop front.length, read := s.read + front.length }

def takeDigits : M Nat := do
  let ds := (← get).rest.takeWhile isDigit
  skip isDigit
  return ((takeNumber 10 none ds).1).getD 0

/-- Checks that a command ends. -/
def endCommand : M Unit := do
  skip isBlankByte
  match ← next? with
  | none | some '\n' | some ';' => return ()
  | some c =>
    if c == '\x7d' || c == '#' then
      modify fun s => { s with rest := c :: s.rest, read := s.read - 1 }
    else wrong "extra characters after command"

/-- Reads up to a delimiter. In a pattern the delimiter counts for nothing between brackets, and
`inBracket` tells whether that is where the reading stands. The number bounds the bytes. -/
def upTo? (d : Char) (pattern : Bool) : Nat → Bool → List Char → M (Option (List Char))
  | 0, _, _ => return none
  | n + 1, inBracket, acc => do
    match ← next? with
    | none => return none
    | some c =>
      if c == '\n' && pattern then return none
      else if c == d && !inBracket then return some acc.reverse
      else if c == '\\' && !inBracket then
        match ← next? with
        | none => return none
        | some e =>
          if e == d && !(e == '&' && !pattern) then upTo? d pattern n false (e :: acc)
          else if pattern && e == 'n' then upTo? d pattern n false ('\n' :: acc)
          else if pattern && e == '\n' then upTo? d pattern n false ('\n' :: acc)
          else upTo? d pattern n false (e :: '\\' :: acc)
      else if pattern && inBracket then
        let opened := match acc with
          | '[' :: _ => false
          | '^' :: '[' :: _ => false
          | _ => true
        upTo? d pattern n (!(c == ']' && opened)) (c :: acc)
      else upTo? d pattern n (pattern && c == '[') (c :: acc)

/-- The byte that an escape stands for: a letter, or digits in a base that a letter tells. -/
def escapeByte? (c : Char) (cs : List Char) : Option (Char × List Char) :=
  let digits (base most : Nat) : Option (Char × List Char) :=
    let ds := (cs.take most).takeWhile fun d => (digitIn? base d).isSome
    (takeNumber base none ds).1.map fun n => (byteOf n, cs.drop ds.length)
  match c with
  | 'a' => some ('\x07', cs)
  | 'f' => some ('\x0c', cs)
  | 't' => some ('\t', cs)
  | 'v' => some ('\x0b', cs)
  | 'r' => some ('\r', cs)
  | 'd' => digits 10 3
  | 'o' => digits 8 3
  | 'x' => digits 16 2
  | _ => none

/-- Replaces escapes that stand for bytes; those that patterns know are left. The number bounds the
bytes. -/
def unescape : Nat → List Char → List Char
  | n + 1, '\\' :: c :: cs =>
    match escapeByte? c cs with
    | some (b, rest) => b :: unescape n rest
    | none => '\\' :: c :: unescape n cs
  | n + 1, c :: cs => c :: unescape n cs
  | _, cs => cs

def compile (cs : List Char) : M (Option Regex × Nat) := do
  if cs.isEmpty then return (none, 9)
  else
    match Regex.ofText? ⟨(← get).extended, true⟩ (unescape cs.length cs) with
    | .ok (r, n) => return (some r, n)
    | .error e => wrong e.text

/-- Reads the letters behind a pattern address. -/
def patternFlags : Nat → Bool × Bool → M (Bool × Bool)
  | 0, flags => return flags
  | n + 1, (i, m) => do
    match ← peek? with
    | some 'I' =>
      discard next?
      patternFlags n (true, m)
    | some 'M' =>
      discard next?
      patternFlags n (i, true)
    | _ => return (i, m)

/-- Reads an address, if there is one. -/
def address? : M (Option Address) := do
  let size := (← get).rest.length + 1
  let pattern (d : Char) : M (Option Address) := do
    match ← upTo? d true size false [] with
    | none => wrong "unterminated address regex"
    | some cs =>
      let (i, m) ← patternFlags size (false, false)
      let (r, _) ← compile cs
      return some (.pattern r i m)
  match ← peek? with
  | some '/' =>
    discard next?
    pattern '/'
  | some '\\' =>
    discard next?
    match ← next? with
    | some d => pattern d
    | none => wrong "unterminated address regex"
  | some '$' =>
    discard next?
    return some .last
  | some '+' =>
    discard next?
    return some (.plus (← takeDigits))
  | some '~' =>
    discard next?
    return some (.multiple (← takeDigits))
  | some c =>
    if isDigit c then
      let n ← takeDigits
      skip isBlankByte
      if (← peek?) == some '~' then
        discard next?
        return some (.every n (← takeDigits))
      else return some (.line n)
    else return none
  | none => return none

/-- The text of `a`, `i` and `c`: up to the end of a line that is not escaped. -/
def textLines : Nat → List Char → M (List Char)
  | 0, acc => return acc.reverse
  | n + 1, acc => do
    match ← next? with
    | none => return acc.reverse
    | some '\n' => return acc.reverse
    | some '\\' =>
      match ← next? with
      | none => return acc.reverse
      | some c => textLines n (c :: acc)
    | some c => textLines n (c :: acc)

/-- The argument of `a`, `i` or `c`: on the same line, or behind a backslash. -/
def textArgument (kind : Char) : M Action := do
  skip isSpace
  match ← peek? with
  | none => wrong "expected \\ after \x60a', \x60c' or \x60i'"
  | some '\\' =>
    discard next?
    let rest := (← get).rest
    if (rest.dropWhile isBlankByte).head? == some '\n' then
      skip isBlankByte
      discard next?
  | some _ => pure ()
  let size := (← get).rest.length + 1
  if size = 1 then return .text kind ""
  else
    let cs ← textLines size []
    return .text kind (String.ofList (cs ++ ['\n']))

/-- The rest of a line. -/
def restOfLine : M String := do
  skip isBlankByte
  let cs := (← get).rest.takeWhile (· != '\n')
  skip (· != '\n')
  discard next?
  return String.ofList cs

/-- A label ends at a semicolon or a blank. -/
def labelName : M String := do
  skip isBlankByte
  let cs := (← get).rest.takeWhile fun c => c != ';' && !isSpace c
  skip fun c => c != ';' && !isSpace c
  return String.ofList cs

/-- Reads a replacement; the number bounds its bytes. -/
def insertions : Nat → List Char → List Insertion
  | n + 1, '\\' :: c :: cs =>
    if isDigit c then .group (c.toNat - '0'.toNat) :: insertions n cs
    else if c == 'L' || c == 'U' || c == 'E' || c == 'l' || c == 'u' then
      .letters c :: insertions n cs
    else
      match escapeByte? c cs with
      | some (b, rest) => .byte b :: insertions n rest
      | none => .byte (if c == 'n' then '\n' else c) :: insertions n cs
  | n + 1, '&' :: cs => .group 0 :: insertions n cs
  | n + 1, c :: cs => .byte c :: insertions n cs
  | _, _ => []

/-- Reads the letters behind a substitution. -/
def substitutionFlags : Nat → Substitution → M Substitution
  | 0, s => return s
  | n + 1, s => do
    match ← next? with
    | none | some '\n' | some ';' => return s
    | some 'g' =>
      if s.everywhere then wrong "multiple \x60g' options to \x60s' command"
      else substitutionFlags n { s with everywhere := true }
    | some 'p' =>
      if s.shows then wrong "multiple \x60p' options to \x60s' command"
      else substitutionFlags n { s with shows := true }
    | some 'w' =>
      let path ← restOfLine
      if path.isEmpty then wrong "missing filename in r/R/w/W commands"
      return { s with file := some path }
    | some c =>
      if c == 'i' || c == 'I' then substitutionFlags n { s with ignoreCase := true }
      else if c == 'm' || c == 'M' then substitutionFlags n { s with multiline := true }
      else if c == '\x7d' || c == '#' then
        modify fun src => { src with rest := c :: src.rest, read := src.read - 1 }
        return s
      else if isBlankByte c then substitutionFlags n s
      else if isDigit c then
        if s.number != 0 then wrong "multiple number options to \x60s' command"
        modify fun src => { src with rest := c :: src.rest, read := src.read - 1 }
        let k ← takeDigits
        if k = 0 then wrong "number option to \x60s' command may not be zero"
        substitutionFlags n { s with number := k }
      else wrong "unknown option to \x60s'"

def substitution : M Action := do
  let unterminated : M Action := wrong "unterminated \x60s' command"
  match ← next? with
  | none => unterminated
  | some d =>
    let size := (← get).rest.length + 1
    match ← upTo? d true size false [] with
    | none => unterminated
    | some p =>
      match ← upTo? d false size false [] with
      | none => unterminated
      | some r =>
        let plain : Substitution :=
          ⟨none, insertions r.length r, false, false, 0, false, false, none⟩
        let s ← substitutionFlags size plain
        let (pattern, groups) ← compile p
        let most := (s.insertions.map fun i => match i with
          | .group n => n
          | _ => 0).foldl max 0
        if most > groups then
          wrong (s!"invalid reference \\{most} on " ++ "\x60s' command's RHS")
        return .substitute { s with pattern }

/-- The bytes of a list of `y`. -/
def exchangeBytes : List Char → List Char
  | '\\' :: c :: cs =>
    match c with
    | '\\' => '\\' :: exchangeBytes cs
    | 'n' => '\n' :: exchangeBytes cs
    | 't' => '\t' :: exchangeBytes cs
    | '\n' => '\n' :: exchangeBytes cs
    | c => '\\' :: c :: exchangeBytes cs
  | c :: cs => c :: exchangeBytes cs
  | [] => []

def exchange : M Action := do
  let unterminated : M Action := wrong "unterminated \x60y' command"
  match ← next? with
  | none => unterminated
  | some d =>
    let size := (← get).rest.length + 1
    match ← upTo? d false size false [] with
    | none => unterminated
    | some a =>
      match ← upTo? d false size false [] with
      | none => unterminated
      | some b =>
        let (a, b) := (exchangeBytes a, exchangeBytes b)
        if a.length != b.length then wrong "strings for \x60y' command are different lengths"
        endCommand
        return .exchange (a.zip b)

/-- The command behind its addresses. -/
def action (hasFirst hasSecond : Bool) : M Action := do
  match ← next? with
  | none => wrong "missing command"
  | some c =>
    match c with
    | '\x7b' =>
      modify fun s => { s with depth := s.depth + 1 }
      return .opening
    | '\x7d' =>
      if (← get).depth = 0 then wrong "unexpected \x60\x7d'"
      if hasFirst then wrong "\x7d doesn't want any addresses"
      modify fun s => { s with depth := s.depth - 1 }
      endCommand
      return .closing
    | ':' =>
      if hasFirst then wrong ": doesn't want any addresses"
      let name ← labelName
      if name.isEmpty then wrong "\":\" lacks a label"
      return .label name
    | 's' => substitution
    | 'y' => exchange
    | _ =>
      if c == 'a' || c == 'i' || c == 'c' then textArgument c
      else if c == 'b' || c == 't' || c == 'T' then
        let name ← labelName
        skip isBlankByte
        if (← peek?) == some ';' then discard next?
        return .jump c name
      else if c == 'q' || c == 'Q' then
        if hasSecond then wrong "command only uses one address"
        skip isBlankByte
        let n ← takeDigits
        endCommand
        return .quit c n
      else if c == 'l' then
        skip isBlankByte
        let given := (← peek?).any isDigit
        let n ← takeDigits
        endCommand
        return .list (if given then n else 70)
      else if c == 'r' || c == 'w' then
        let path ← restOfLine
        if path.isEmpty then wrong "missing filename in r/R/w/W commands"
        return .file c path
      else if "=dDFgGhHnNpPxz".toList.contains c then
        endCommand
        return .plain c
      else if c == 'v' then
        discard labelName
        return .label ""
      else if c == ',' then wrong "unexpected \x60,'"
      else wrong ("unknown command: \x60" ++ String.singleton c ++ "'")

/-- Reads commands; the number bounds them. -/
def commands : Nat → M (List Command)
  | 0 => return []
  | n + 1 => do
    skip fun c => isSpace c || c == ';'
    if (← peek?).isNone then
      if (← get).depth > 0 then throw ("unmatched \x60\x7b'", 0) else return []
    else
      let first ← address?
      skip isBlankByte
      let hasComma := (← peek?) == some ',' && first.isSome
      if hasComma then
        discard next?
        skip isBlankByte
      let second ← if hasComma then address? else pure none
      if hasComma && second.isNone then
        if (← peek?).isSome then discard next?
        wrong "unexpected \x60,'"
      skip isBlankByte
      match first, second with
      | some (.line 0), some (.pattern _ _ _) => pure ()
      | some (.line 0), _ => do
        discard next?
        wrong "invalid usage of line address 0"
      | some (.plus _), _ | some (.multiple _), _ =>
        wrong "invalid usage of +N or ~N as first address"
      | _, _ => pure ()
      let negated := (← peek?) == some '!'
      if negated then
        discard next?
        skip isBlankByte
        if (← peek?) == some '!' then
          discard next?
          wrong "multiple \x60!'s"
      if (← peek?) == some '#' then
        if first.isSome then
          discard next?
          wrong "comments don't accept any addresses"
        let source ← get
        let isQuiet := source.read = 0 && source.rest.take 2 = ['#', 'n']
        discard restOfLine
        modify fun s => { s with quiet := s.quiet || isQuiet }
        commands n
      else
        let a ← action first.isSome second.isSome
        return ⟨first, second, negated, a⟩ :: (← commands n)

structure Program where
  commands : Array Command
  quiet : Bool
  deriving Repr

def Program.ofText? (extended : Bool) (s : String) : Except (String × Nat) Program := do
  let (l, source) ← (Edit.commands (s.length + 1)).run ⟨s.toList, 0, extended, 0, false⟩
  return ⟨l.toArray, source.quiet⟩

/-- The name of a jump's label that is nowhere. -/
def Program.missingLabel? (p : Program) : Option String :=
  p.commands.toList.findSome? fun c =>
    match c.action with
    | .jump _ name =>
      let known := name.isEmpty || p.commands.any fun c => match c.action with
        | .label l => l == name
        | _ => false
      if known then none else some name
    | _ => none

end RabinReward.Shell.Tool.Edit
