import RabinReward.Shell.Tool.Options

/-!
# Tools that copy text

Each of them prints what its operands hold, or a part of that, in some order.
-/

namespace RabinReward.Shell.Tool

/-! ## Whole files -/

/-- A byte as `cat -v` shows it. -/
def visible (c : Char) : List Char :=
  let low (c : Char) : List Char :=
    if c == '\x7f' then ['^', '?']
    else if c < ' ' then ['^', Char.ofNat (c.toNat + 64)]
    else [c]
  if c.toNat < 128 then low c else 'M' :: '-' :: low (Char.ofNat (c.toNat - 128))

/-- A line's number at the width of six, and a tab. -/
def lineNumber (n : Nat) : String :=
  let ds := toString n
  String.ofList (List.replicate (6 - ds.length) ' ') ++ ds ++ "\t"

structure CatStyle where
  numberAll : Bool
  numberFull : Bool
  ends : Bool
  tabs : Bool
  control : Bool
  squeeze : Bool

def CatStyle.byte (s : CatStyle) (c : Char) : List Char :=
  if c == '\t' then (if s.tabs then ['^', 'I'] else [c])
  else if s.control then visible c
  else [c]

/-- Shows lines in a style; the number of lines that have been numbered, and whether the line before
was empty. -/
def CatStyle.lines (s : CatStyle) : Nat → Bool → List String → List String
  | _, _, [] => []
  | n, wasEmpty, l :: ls =>
    if s.squeeze && wasEmpty && l.isEmpty then s.lines n true ls
    else
      let numbered := if s.numberFull then !l.isEmpty else s.numberAll
      let mark := if numbered then lineNumber (n + 1) else ""
      (mark ++ String.ofList (l.toList.flatMap s.byte)) ::
        s.lines (if numbered then n + 1 else n) l.isEmpty ls

def CatStyle.text (s : CatStyle) (t : String) : String :=
  let (ls, ended) := Tool.lines t
  let tail := if s.ends then "$\n" else "\n"
  let shown := s.lines 0 false ls
  if ended then String.join (shown.map (· ++ tail)) else tail.intercalate shown

def catOptions : OptionTable :=
  { short := "AbeEnstTuv", first := false
    long := [("show-all", 'A', .nothing), ("number-nonblank", 'b', .nothing),
      ("show-ends", 'E', .nothing), ("number", 'n', .nothing), ("squeeze-blank", 's', .nothing),
      ("show-tabs", 'T', .nothing), ("show-nonprinting", 'v', .nothing)] }

/-- `cat`: prints what its operands hold. -/
def cat : Tool := fun _ name args => do
  withOptions name 1 catOptions args fun os operands => do
    let any (cs : List Char) : Bool := cs.any (has os)
    let style : CatStyle :=
      { numberAll := any ['n', 'b'], numberFull := any ['b'], ends := any ['A', 'e', 'E']
        tabs := any ['A', 't', 'T'], control := any ['A', 'e', 't', 'v'], squeeze := any ['s'] }
    let plain := os.all fun (c, _) => c == 'u'
    if (← Sh.descriptor? 1).isNone then
      failure name "standard output: Bad file descriptor" 1
    else if plain then
      let mut status := 0
      for path in (if operands.isEmpty then ["-"] else operands) do
        match ← readOperand path with
        | .ok s =>
          if let some e := ← Sh.write 1 s then return ← failure name s!"write error: {e.text}" 1
        | .error e =>
          warn name (plainly path e)
          if path = "-" then warn name s!"closing standard input: {e.text}"
          status := 1
      return status
    else filterAll name operands style.text

/-- `tac`: the lines from the last to the first. -/
def tac : Tool := fun _ name args => do
  let table : OptionTable := { short := "br", first := false, long := [] }
  let wording : Wording := fun path e =>
    if e == .isDirectory then s!"{path}: read error: Invalid argument"
    else s!"failed to open {quoted path} for reading: {e.text}"
  withOptions name 1 table args fun _ operands => do
    filterEach name wording operands fun s =>
      let (ls, ended) := lines s
      if ended then unlines ls.reverse
      else String.join (ls.reverse.zipIdx.map fun (l, i) => if i = 0 then l else l ++ "\n")

/-- `rev`: each line backwards. -/
def rev : Tool := fun _ _ args => do
  let name := "rev"
  let wording : Wording := fun path e => s!"cannot open {path}: {e.text}"
  withOptions name 1 { short := "", first := false, long := [] } args fun _ operands => do
    filterEach name wording operands fun s =>
      "\n".intercalate ((s.toList.splitOn '\n').map fun l => String.ofList l.reverse)

/-- `tee`: copies the input to the output and to files. -/
def tee : Tool := fun _ name args => do
  let table : OptionTable :=
    { short := "aip", first := false
      long := [("append", 'a', .nothing), ("ignore-interrupts", 'i', .nothing)] }
  withOptions name 1 table args fun os paths => do
    let mode : OpenMode := if has os 'a' then .append else .clobber
    let text := match ← Sh.readAll 0 with
      | .ok s => s
      | .error _ => ""
    let mut status := 0
    if let some e := ← Sh.write 1 text then
      warn name s!"'standard output': {e.text}"
      status := 1
    for path in paths do
      match ← Redirect.openFile mode false path with
      | .ok c =>
        match (← Sh.files).write c text with
        | .ok f => Sh.setFiles f
        | .error e =>
          warn name s!"{shellQuoted path}: {e.text}"
          status := 1
      | .error e =>
        warn name s!"{shellQuoted path}: {e.text}"
        status := 1
    return status

/-! ## Parts of files -/

/-- Which part of a text is wanted. -/
structure Part where
  bytes : Bool
  count : Nat
  /-- Whether the count is of what is left out: at the end for `head`, in front for `tail`. -/
  complement : Bool
  deriving Repr

/-- The pieces that are counted: bytes, or lines with their ends. -/
def Part.pieces (p : Part) (s : String) : List (List Char) :=
  if p.bytes then s.toList.map fun c => [c]
  else
    let ls := s.toList.splitOn '\n'
    ls.dropLast.map (· ++ ['\n']) ++ (match ls.getLast? with
      | some [] | none => []
      | some l => [l])

def Part.head (p : Part) (s : String) : String :=
  let l := p.pieces s
  String.ofList (l.take (if p.complement then l.length - p.count else p.count)).flatten

def Part.tail (p : Part) (s : String) : String :=
  let l := p.pieces s
  String.ofList (l.drop (if p.complement then p.count - 1 else l.length - p.count)).flatten

/-- Reads a count behind `-n` or `-c`; a sign complements the part. -/
def Part.ofText? (bytes : Bool) (sign : Char) (s : String) : Except String Part :=
  let (complement, digits) := match s.toList with
    | c :: cs =>
      if c == sign then (true, String.ofList cs)
      else (false, if c == '-' || c == '+' then String.ofList cs else s)
    | [] => (false, s)
  match scaledCount? digits with
  | some n => .ok ⟨bytes, n, complement⟩
  | none =>
    let what := if bytes then "bytes" else "lines"
    let shown := quoted (if sign == '-' then digits else s)
    .error s!"invalid number of {what}: {shown}"

/-- Turns a first argument like `-5` into the option `-n 5`. -/
def spelledOut (sign : Char) (args : List String) : List String :=
  match args with
  | a :: rest =>
    match a.toList with
    | '-' :: d :: ds =>
      if (d :: ds).all isDigit then "-n" :: String.ofList (d :: ds) :: rest else args
    | '+' :: d :: ds =>
      if sign == '+' && (d :: ds).all isDigit then "-n" :: a :: rest else args
    | _ => args
  | [] => []

/-- What is wrong with a count that is the first argument by itself, if it is none of `head` or
stands where `tail` takes no such count. -/
def spelledFault? (sign : Char) (args : List String) : Option (String × Bool) :=
  match args.map String.toList with
  | ('-' :: d :: ds) :: rest =>
    if !isDigit d then none
    else
      match ds.dropWhile isDigit, sign with
      | [], '-' => none
      | c :: _, '-' => some (s!"invalid trailing option -- {c}", true)
      | more, _ =>
        let alone := match rest with
          | [] => true
          | [w] => w.head? != some '-' || w = ['-']
          | _ => false
        if more.isEmpty && alone then none
        else some (s!"option used in invalid context -- {d}", false)
  | _ => none

/-- Prints the same part of each operand, with headings if there is more than one. -/
def partTool (sign : Char) (take : Part → String → String) (limit : Part → Option Nat) : Tool :=
  fun _ name args => do
    if let some (text, hint) := spelledFault? sign args then
      return ← if hint then tryHelp name text 1 else failure name text 1
    let table : OptionTable :=
      { short := "n:c:qvz", first := false
        long := [("bytes", 'c', .argument), ("lines", 'n', .argument), ("quiet", 'q', .nothing),
          ("silent", 'q', .nothing), ("verbose", 'v', .nothing)] }
    withOptions name 1 table (spelledOut sign args) fun os operands => do
      let wanted : Except String Part :=
        match os.reverse.find? fun (c, _) => c == 'n' || c == 'c' with
        | some (c, s) => Part.ofText? (c == 'c') sign s
        | none => .ok ⟨false, 10, false⟩
      match wanted with
      | .error e => failure name e 1
      | .ok p => do
        let headings := has os 'v' || (operands.length > 1 && !has os 'q')
        let mut first := true
        let mut status := 0
        for path in (if operands.isEmpty then ["-"] else operands) do
          match ← readPart path (limit p) (take p) with
          | .ok s =>
            let shown := if path = "-" then "standard input" else path
            let gap := if first then "" else "\n"
            let heading := if headings then s!"{gap}==> {shown} <==\n" else ""
            first := false
            status := max status (← finish name (heading ++ s) 0)
          | .error e =>
            warn name (atLength path e)
            status := 1
        return status
where
  /-- Reads a part of an operand. A file that can be read again is left behind the part. -/
  readPart (path : String) (limit : Option Nat) (take : String → String) :
      Sh (Except FileError String) := do
    let channel ←
      if path = "-" then
        match ← Sh.descriptor? 0 with
        | some c => pure (Except.ok c)
        | none => pure (.error .badDescriptor)
      else Redirect.openFile .read false path
    match channel with
    | .error e => return .error e
    | .ok c =>
      let f ← Sh.files
      let kind := (f.node (f.channel c).node).kind
      match kind, limit with
      | .zero, some n => return .ok (String.ofList (List.replicate n '\x00'))
      | _, _ =>
        match f.readAll c with
        | .error e => return .error e
        | .ok (s, g) =>
          let part := take s
          match kind, limit with
          | .regular, some _ => Sh.setFiles (f.advance c part.length)
          | _, _ => Sh.setFiles g
          return .ok part

/-- `head`: the first lines or bytes. -/
def head : Tool := partTool '-' Part.head fun p =>
  if p.complement then none else some p.count

/-- `tail`: the last lines or bytes. -/
def tail : Tool := partTool '+' Part.tail fun _ => none

/-! ## Lines side by side and folded -/

/-- Breaks a line so that no part is wider than `width`, behind a blank if that is asked for and
there is one. The number bounds the parts. -/
def fold (width : Nat) (atBlanks : Bool) : Nat → List Char → List (List Char)
  | 0, l => [l]
  | n + 1, l =>
    if l.length ≤ width then [l]
    else
      let whole := l.take width
      let kept := (whole.reverse.dropWhile (!isBlankByte ·)).reverse
      let part := if atBlanks && !kept.isEmpty then kept else whole
      part :: fold width atBlanks n (l.drop part.length)

def foldTool : Tool := fun _ name args => do
  let table : OptionTable :=
    { short := "bsw:", first := false
      long := [("bytes", 'b', .nothing), ("spaces", 's', .nothing), ("width", 'w', .argument)] }
  let args := match args.map String.toList with
    | ('-' :: d :: ds) :: _ =>
      if (d :: ds).all isDigit then "-w" :: String.ofList (d :: ds) :: args.tail else args
    | _ => args
  withOptions name 1 table args fun os operands => do
    match scaledCount? ((argument? os 'w').getD "80") with
    | none | some 0 =>
      let given := (argument? os 'w').getD ""
      let reason := if (scaledCount? given).isSome then ": Numerical result out of range" else ""
      failure name s!"invalid number of columns: {quoted given}{reason}" 1
    | some n =>
      filterEach name plainly operands fun s =>
        "\n".intercalate ((s.toList.splitOn '\n').flatMap fun l =>
          (fold n (has os 's') l.length l).map String.ofList)

/-- The lines that stand side by side, with the given separators in turn. -/
def besides (separators : List Char) (columns : List (List String)) : Nat → List String
  | 0 => []
  | n + 1 =>
    if columns.all (·.isEmpty) then []
    else
      let cells := columns.map fun l => (l.headD "").toList
      let gap (i : Nat) : List Char :=
        match separators[i % separators.length]? with
        | some '\x00' | none => []
        | some c => [c]
      let line := (cells.zipIdx.map fun (c, i) => if i = 0 then c else gap (i - 1) ++ c).flatten
      String.ofList line :: besides separators (columns.map List.tail) n

/-- The list of separators of `paste`. -/
def separatorList : List Char → List Char
  | '\\' :: c :: cs =>
    (match c with
      | 'n' => '\n'
      | 't' => '\t'
      | '0' => '\x00'
      | c => c) :: separatorList cs
  | c :: cs => c :: separatorList cs
  | [] => []

/-- `paste`: lines of files side by side, or the lines of one file in one line. -/
def paste : Tool := fun _ name args => do
  let table : OptionTable :=
    { short := "d:sz", first := false
      long := [("delimiters", 'd', .argument), ("serial", 's', .nothing)] }
  withOptions name 1 table args fun os operands => do
    let separators := separatorList ((argument? os 'd').getD "\t").toList
    let separators := if separators.isEmpty then ['\x00'] else separators
    let (texts, status) ← readUntilFault name plainly operands.eraseDups
    if status != 0 then return status
    let operands := if operands.isEmpty then ["-"] else operands
    let shared := operands.count "-"
    -- Columns that come from the standard input take turns at its lines.
    let columns := (operands.zipIdx.filterMap fun (path, i) =>
      (texts.find? (·.1 == path)).map fun (_, s) =>
        let ls := (lines s).1
        if path != "-" || has os 's' then ls
        else
          let turn := (operands.take i).count "-"
          (ls.zipIdx.filter fun (_, k) => k % shared = turn).map (·.1))
    let out :=
      if has os 's' then
        columns.flatMap fun l => besides separators (l.map fun s => [s]) 1
      else besides separators columns ((columns.map List.length).foldl max 0)
    finish name (unlines out) status

/-- `nl`: numbers the lines that are not empty. -/
def nl : Tool := fun _ name args => do
  let table : OptionTable := { short := "b:s:w:v:i:", first := false, long := [] }
  withOptions name 1 table args fun os operands => do
    let all := argument? os 'b' == some "a"
    let gap := (argument? os 's').getD "\t"
    let width := ((argument? os 'w').bind decimal?).getD 6
    let pad (n : Nat) : String := String.ofList (List.replicate n ' ')
    let rec number (n : Nat) : List String → List String
      | [] => []
      | l :: ls =>
        if all || !l.isEmpty then
          let ds := toString n
          (pad (width - ds.length) ++ ds ++ gap ++ l) :: number (n + 1) ls
        else (pad (width + gap.length) ++ l) :: number n ls
    filterAll name operands fun s => unlines (number 1 (lines s).1)

end RabinReward.Shell.Tool
