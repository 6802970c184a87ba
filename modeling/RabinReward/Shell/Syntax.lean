import RabinReward.Shell.Bytes

/-!
# Scripts

A word is a list of pieces. Quotes stay in it as marks, between which expansions are not split into
fields; a byte that a quote protects from being part of a pattern is `escaped`. Commands hold the
line they start on, which error messages name. The text of a here-document is kept apart, under a
number, because it is read after the command it belongs to.
-/

namespace RabinReward.Shell

/-- What the expansion of a parameter does beside giving its value. -/
inductive ParamOp where
  | value
  | length
  | orDefault
  | assign
  | require
  | alternative
  /-- Cuts what a pattern matches off the front or the back. -/
  | trim (back longest : Bool)
  | malformed
  deriving DecidableEq, Repr, Inhabited

/-- How a redirection opens its file. -/
inductive OpenMode where
  | read
  | write
  /-- Writes even where existing files are protected. -/
  | clobber
  | append
  | readWrite
  deriving DecidableEq, Repr, Inhabited

mutual

inductive Piece where
  | char (c : Char)
  | escaped (c : Char)
  /-- Begins or ends a quoted part. -/
  | quote
  /-- `emptyCounts` is set if an empty value is like none. -/
  | param (name : String) (op : ParamOp) (emptyCounts : Bool) (word : List Piece)
  /-- What a command prints. -/
  | output (c : Command)
  | arithmetic (e : List Piece)

inductive Redirection where
  | file (fd : Nat) (mode : OpenMode) (name : List Piece)
  | duplicate (fd source : Nat)
  | close (fd : Nat)
  /-- Duplicates the channel whose number is only known when the command runs. -/
  | duplicateWord (fd : Nat) (source : List Piece)
  | here (fd : Nat) (document : Nat)

inductive Command where
  | nothing
  | simple (line : Nat) (assignments words : List (List Piece)) (redirections : List Redirection)
  | pipeline (commands : List Command)
  | background (c : Command)
  | not (c : Command)
  | and (l r : Command)
  | or (l r : Command)
  | seq (l r : Command)
  | subshell (line : Nat) (c : Command) (redirections : List Redirection)
  | redirected (line : Nat) (c : Command) (redirections : List Redirection)
  | cond (test yes : Command) (no : Option Command)
  | loop (stopOnSuccess : Bool) (test body : Command)
  | forEach (line : Nat) (name : String) (words : List (List Piece)) (body : Command)
  | select (line : Nat) (word : List Piece) (cases : List (List (List Piece) × Command))
  | function (line : Nat) (name : String) (body : Command)

end

instance : Inhabited Piece := ⟨.quote⟩

instance : Inhabited Command := ⟨.nothing⟩

abbrev Word := List Piece

/-- The text of a here-document, and whether it is expanded. -/
structure HereDocument where
  body : Word
  expand : Bool

/-- The text of a word without quotes and expansions. -/
def Word.plain? : Word → Option String
  | [] => some ""
  | .char c :: ps => (plain? ps).map (String.singleton c ++ ·)
  | _ => none

/-- The text of a word whose quotes are dropped, as far as it has no expansions. -/
def Word.unquoted : Word → List Char
  | [] => []
  | .char c :: ps | .escaped c :: ps => c :: Word.unquoted ps
  | _ :: ps => Word.unquoted ps

/-- The name of an assignment and the word after the sign. -/
def Word.assignment? (w : Word) : Option (String × Word) :=
  let name := w.takeWhile fun | .char c => isNameByte c | _ => false
  match Word.plain? name, w.drop name.length with
  | some n, .char '=' :: value => if isName n then some (n, value) else none
  | _, _ => none

/-- A quoted `$@`. -/
def Word.allArguments : Word := [.quote, .param "@" .value false [], .quote]

end RabinReward.Shell
