import RabinReward.Shell.Redirect

/-!
# Programs

A tool is a program that a script can start. It gets the name it was called by and its arguments,
reads and writes through the descriptors of its process, and gives a status. Some tools start
further programs, for which they have a `Host`. Messages begin with the tool's name.
-/

namespace RabinReward.Shell

/-- What a tool can do beyond its own process. -/
structure Host where
  /-- Goes on as another program, given its name and arguments. -/
  become : List String → Sh Nat
  /-- Runs another program and waits for it. -/
  call : List String → Sh Nat
  /-- Lets time pass, in which what is in the background runs. -/
  pass : Sh Unit

abbrev Tool := Host → (name : String) → (args : List String) → Sh Nat

namespace Tool

/-- Prints a message of a tool. -/
def warn (name text : String) : Sh Unit := Sh.print 2 s!"{name}: {text}\n"

/-- Prints a message, and gives the status of a failure. -/
def failure (name text : String) (status : Nat) : Sh Nat := do
  warn name text
  return status

/-- The message that sends the reader to a tool's help. -/
def tryHelp (name text : String) (status : Nat) : Sh Nat := do
  warn name text
  Sh.print 2 s!"Try '{name} --help' for more information.\n"
  return status

/-- A text between single quotes, as a shell reads it. -/
def singleQuoted (cs : List Char) : List Char :=
  '\'' :: cs.flatMap (fun c => if c = '\'' then ['\'', '\\', '\'', '\''] else [c]) ++ ['\'']

/-- The escape of a byte between quotes that allow escapes. -/
def escaped (c : Char) : List Char :=
  match c with
  | '\n' => ['\\', 'n']
  | '\t' => ['\\', 't']
  | '\r' => ['\\', 'r']
  | '\x07' => ['\\', 'a']
  | '\x08' => ['\\', 'b']
  | '\x0b' => ['\\', 'v']
  | '\x0c' => ['\\', 'f']
  | c =>
    let ds := digitsIn 8 c.toNat
    '\\' :: (List.replicate (3 - ds.length) '0' ++ ds)

/-- Whether a shell takes a byte for itself; the first byte of a word has fewer liberties. -/
def isPlain (c : Char) : Bool :=
  isAlnum c || c == '_' || c == '-' || c == '.' || c == '/' || c == '+' || c == ',' || c == ':' ||
    c == '@' || c == '%' || c == ']' || c == '\x7b' || c == '\x7d' || c == '#' || c == '~'

/-- A text as a shell would read it back: in quotes if it needs them. -/
def shellQuoted (s : String) : String := String.ofList <|
  let cs := s.toList
  let special (c : Char) : Bool :=
    c == '"' || c == '$' || c == '\x60' || c == '\\' || c == '!'
  match cs with
  | [] => ['\'', '\'']
  | c :: more =>
    let bare := cs.all isPlain && c != '#' && c != '~' &&
      !(more.isEmpty && (c == '\x7b' || c == '\x7d'))
    if bare then cs
    else if cs.all isPrint then
      if cs.contains '\'' && !cs.any special then '"' :: cs ++ ['"'] else singleQuoted cs
    else
      (if isPrint c then [] else ['\'', '\'']) ++
        (cs.splitBy fun a b => isPrint a == isPrint b).flatMap fun l =>
          if l.all isPrint then singleQuoted l
          else '$' :: '\'' :: l.flatMap escaped ++ ['\'']

/-- A text in quotes, as messages show it: bytes that cannot be printed are escaped. -/
def quoted (s : String) : String :=
  let body := s.toList.flatMap fun c =>
    if c = '\'' || c = '\\' then ['\\', c] else if isPrint c then [c] else escaped c
  "'" ++ String.ofList body ++ "'"

/-- What a file holds; a dash stands for the standard input. -/
def readOperand (path : String) : Sh (Except FileError String) := do
  if path = "-" then Sh.readAll 0
  else
    match ← Redirect.openFile .read false path with
    | .ok c =>
      match (← Sh.files).readAll c with
      | .ok (s, f) =>
        Sh.setFiles f
        return .ok s
      | .error e => return .error e
    | .error e => return .error e

/-- Prints the result of a tool, and gives its status, which is 1 if that is impossible. -/
def finish (name s : String) (status : Nat) : Sh Nat := do
  match ← Sh.write 1 s with
  | none => return status
  | some e => failure name s!"write error: {e.text}" 1

/-- How a tool words its complaint about an operand that it cannot read. -/
abbrev Wording := String → FileError → String

/-- The usual complaint. -/
def plainly : Wording := fun path e => s!"{shellQuoted path}: {e.text}"

/-- A complaint that tells a file that cannot be opened from one that cannot be read. -/
def atLength : Wording := fun path e =>
  match e with
  | .isDirectory => s!"error reading {quoted path}: {e.text}"
  | .badDescriptor => s!"error reading 'standard input': {e.text}"
  | e => s!"cannot open {quoted path} for reading: {e.text}"

/-- What each operand holds, or the standard input if there is none, and the status. -/
def readOperands (name : String) (wording : Wording) (operands : List String) :
    Sh (List (String × String) × Nat) := do
  let mut texts := []
  let mut status := 0
  for path in (if operands.isEmpty then ["-"] else operands) do
    match ← readOperand path with
    | .ok s => texts := (path, s) :: texts
    | .error e =>
      warn name (wording path e)
      status := 1
  return (texts.reverse, status)

/-- Reads operands up to the first that cannot be read. -/
def readUntilFault (name : String) (wording : Wording) (operands : List String) :
    Sh (List (String × String) × Nat) := do
  let mut texts := []
  for path in (if operands.isEmpty then ["-"] else operands) do
    match ← readOperand path with
    | .ok s => texts := (path, s) :: texts
    | .error e => return (texts.reverse, ← failure name (wording path e) 1)
  return (texts.reverse, 0)

/-- Prints what a function makes of each operand. -/
def filterEach (name : String) (wording : Wording) (operands : List String)
    (use : String → String) : Sh Nat := do
  let mut status := 0
  for path in (if operands.isEmpty then ["-"] else operands) do
    match ← readOperand path with
    | .ok s => status := max status (← finish name (use s) 0)
    | .error e =>
      warn name (wording path e)
      status := 1
  return status

/-- Prints what a function makes of all operands, one behind the other. -/
def filterAll (name : String) (operands : List String) (use : String → String) : Sh Nat := do
  let (texts, status) ← readOperands name plainly operands
  finish name (use (String.join (texts.map (·.2)))) status

/-- The lines of a text without their ends; whether the last one has an end. -/
def lines (s : String) : List String × Bool :=
  match (s.toList.splitOn '\n').reverse with
  | [] => ([], true)
  | [] :: ls => ((ls.reverse).map String.ofList, true)
  | ls => ((ls.reverse).map String.ofList, false)

/-- Lines with an end behind each. -/
def unlines (ls : List String) : String := String.join (ls.map (· ++ "\n"))

/-- A number with a letter that multiplies it. -/
def scaledCount? (s : String) : Option Nat :=
  match takeNumber 10 none s.toList with
  | (some n, suffix) =>
    match suffix with
    | [] => some n
    | ['b'] => some (n * 512)
    | ['k', 'B'] => some (n * 1000)
    | ['k'] | ['K'] => some (n * 1024)
    | ['M', 'B'] => some (n * 1000 * 1000)
    | ['M'] | ['m'] => some (n * 1024 * 1024)
    | ['G'] => some (n * 1024 * 1024 * 1024)
    | _ => none
  | (none, _) => none

end Tool

end RabinReward.Shell
