import RabinReward.Shell.Syntax

/-!
# What is being read

A `Source` is the script that is still to be read, with the line that the next byte stands on. A
backslash before a line feed joins two lines and is skipped by `join`. An alias puts its text in
front of the rest; it is active, and not replaced again, until a byte behind that text is read.
Here-documents are announced by their redirection and read when their line ends.
-/

namespace RabinReward.Shell

/-- Why a script cannot be read, and the line on which that shows. -/
structure SyntaxError where
  line : Nat
  text : String
  deriving DecidableEq, Repr

/-- A redirection operator without its operand. -/
inductive RedirectionSign where
  | file (mode : OpenMode)
  | duplicate
  | here (stripTabs : Bool)
  deriving DecidableEq, Repr, Inhabited

inductive Token where
  | eof
  | newline
  | semicolon
  | background
  | and
  | or
  | pipe
  | opening
  | closing
  | endCase
  | redirection (fd : Nat) (sign : RedirectionSign)
  | word (w : Word) (quoted : Bool)
  | keyword (name : String)

instance : Inhabited Token := ⟨.eof⟩

/-- How a token is named in an error. -/
def Token.name : Token → String
  | .eof => "end of file"
  | .newline => "newline"
  | .semicolon => "\";\""
  | .background => "\"&\""
  | .and => "\"&&\""
  | .or => "\"||\""
  | .pipe => "\"|\""
  | .opening => "\"(\""
  | .closing => "\")\""
  | .endCase => "\";;\""
  | .redirection _ _ => "redirection"
  | .word _ _ => "word"
  | .keyword k => "\"" ++ k ++ "\""

/-- Whether no command begins with a token, so that a list of commands ends before it. -/
def Token.endsList : Token → Bool
  | .eof | .closing | .endCase => true
  | .keyword k => ["do", "done", "elif", "else", "esac", "fi", "then", "\x7d"].contains k
  | _ => false

def keywords : List String :=
  ["!", "\x7b", "\x7d", "case", "do", "done", "elif", "else", "esac", "fi", "for", "if", "in",
    "then", "until", "while"]

/-- A here-document that is announced but not read. -/
structure Announced where
  number : Nat
  mark : List Char
  stripTabs : Bool
  expand : Bool
  deriving Repr

/-- An alias whose text is being read. -/
structure ActiveAlias where
  name : String
  /-- How much of the source lies behind the text of the alias. -/
  behind : Nat
  /-- Whether the text ends in a blank, which makes the next word subject to aliases. -/
  blank : Bool
  deriving Repr

structure Source where
  rest : List Char
  /-- The length of `rest`. -/
  size : Nat
  line : Nat
  aliases : List (String × String)
  active : List ActiveAlias
  pushed : Option Token
  last : Token
  announced : List Announced
  /-- Texts of the here-documents that have been read, by number. -/
  documents : Array HereDocument

/-- A script from its first line, given what is defined already. -/
def Source.of (script : String) (aliases : List (String × String))
    (documents : Array HereDocument) : Source :=
  let cs := script.toList
  { rest := cs, size := cs.length, line := 1, aliases, active := [], pushed := none, last := .eof,
    announced := [], documents }

abbrev Parse := StateT Source (Except SyntaxError)

namespace Parse

def fail {α : Type} (text : String) : Parse α := do throw ⟨(← get).line, text⟩

/-- The next byte, which stays. -/
def peek : Parse (Option Char) := do return (← get).rest.head?

/-- Consumes one byte. -/
def skip : Parse Unit := modify fun s =>
  match s.rest with
  | [] => s
  | c :: cs =>
    { s with rest := cs, size := s.size - 1, line := if c = '\n' then s.line + 1 else s.line }

/-- Joined lines at the front of a text: what is left, and how many line ends are gone. -/
def joined (n : Nat) : List Char → List Char × Nat
  | '\\' :: '\n' :: cs => joined (n + 1) cs
  | cs => (cs, n)

/-- Skips ends of joined lines. -/
def join : Parse Unit := modify fun s =>
  let (rest, n) := joined 0 s.rest
  if n = 0 then s else { s with rest, size := s.size - 2 * n, line := s.line + n }

/-- The next byte behind ends of joined lines. -/
def peekJoined : Parse (Option Char) := do
  join
  peek

/-- Consumes the next byte if it is the given one. -/
def accept (c : Char) : Parse Bool := do
  if (← peekJoined) = some c then
    skip
    return true
  else return false

/-- Consumes bytes as long as they are of a kind. -/
def takeWhile (p : Char → Bool) : Nat → List Char → Parse (List Char)
  | 0, acc => return acc.reverse
  | n + 1, acc => do
    match ← peekJoined with
    | some c =>
      if p c then
        skip
        takeWhile p n (c :: acc)
      else return acc.reverse
    | none => return acc.reverse

def pushBack (t : Token) : Parse Unit := modify fun s => { s with pushed := some t }

/-- The error that the last token could not stand where it does. -/
def unexpected {α : Type} (expected : Option String) : Parse α := do
  let name := (← get).last.name
  match expected with
  | none => fail s!"Syntax error: {name} unexpected"
  | some e => fail s!"Syntax error: {name} unexpected (expecting {e})"

end Parse

end RabinReward.Shell
