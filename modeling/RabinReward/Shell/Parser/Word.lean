import RabinReward.Shell.Parser.Source

/-!
# Reading words

A `Frame` says what is being read: a word, the text of a here-document, the operand of a parameter
expansion up to its brace, or an arithmetic expression up to its parentheses. Frames nest, and each
has quotes of its own. What they contain is read through a `Parser`, which is a function from goals
to results, so that words and commands can be read in separate modules.
-/

namespace RabinReward.Shell

inductive Ending where
  | word
  | document
  /-- A closing brace; `double` is set for an operand that stands in double quotes. -/
  | brace (double : Bool)
  | arithmetic
  deriving DecidableEq, Repr

structure Frame where
  ending : Ending
  /-- Whether the frame stands in a here-document. -/
  document : Bool
  /-- Whether the word is the mark of a here-document, in which a dollar sign is like any byte. -/
  mark : Bool
  deriving DecidableEq, Repr

def Frame.inBraces (f : Frame) : Bool :=
  match f.ending with
  | .brace _ => true
  | _ => false

inductive Quoting where
  | none
  | single
  | double
  | arithmetic
  deriving DecidableEq, Repr

/-- The quotes that a frame begins in. -/
def Frame.quoting (f : Frame) : Quoting :=
  match f.ending with
  | .word | .brace false => .none
  | .document | .brace true => .double
  | .arithmetic => .arithmetic

/-- Which tokens a reading of the next token turns into others. -/
structure Checks where
  keywords : Bool
  aliases : Bool
  newlines : Bool
  mark : Bool
  deriving DecidableEq, Repr

def Checks.none : Checks := ⟨false, false, false, false⟩

/-- At the start of a command. -/
def Checks.command : Checks := ⟨true, true, false, false⟩

/-- At the start of a command, which may follow on a later line. -/
def Checks.commandBelow : Checks := ⟨true, true, true, false⟩

inductive ListMode where
  | block
  | maybeEmpty
  deriving DecidableEq, Repr

/-- What can be read. -/
inductive Goal where
  | list (mode : ListMode)
  | command (checks : Checks)
  | pieces (f : Frame)

/-- What a reading gives: a command, or pieces and whether a part of them was quoted. -/
def Goal.Result : Goal → Type
  | .list _ | .command _ => Command
  | .pieces _ => List Piece × Bool

abbrev Parser := (g : Goal) → Parse g.Result

/-- The bytes that end a word outside quotes. -/
def isSeparator (c : Char) : Bool :=
  c == '<' || c == '>' || c == '(' || c == ')' || c == ';' || c == '&' || c == '|' || c == ' ' ||
    c == '\t'

/-- The bytes that mean something in a pattern or to the expansion of tildes. -/
def isPatternByte (c : Char) : Bool :=
  c == '!' || c == '*' || c == '?' || c == '[' || c == '=' || c == '~' || c == ':' || c == '/' ||
    c == '-' || c == ']'

def isSpecialParameter (c : Char) : Bool :=
  isDigit c || c == '!' || c == '#' || c == '$' || c == '*' || c == '-' || c == '?' || c == '@'

/-- The state of reading a frame. -/
structure Scan where
  quoting : Quoting
  /-- Whether a quoted part of an operand in braces is open. -/
  inner : Bool
  /-- Parentheses that are open in an arithmetic expression. -/
  depth : Nat
  /-- The pieces so far, the last one first. -/
  pieces : List Piece
  quoted : Bool

namespace Scan

def add (s : Scan) (p : Piece) : Scan := { s with pieces := p :: s.pieces }

def isDouble (s : Scan) : Bool := s.quoting == .double || s.quoting == .arithmetic

/-- The mark of a quotation, which a here-document does without. -/
def mark (s : Scan) (f : Frame) : Scan := if f.document then s else s.add .quote

def toggleInner (s : Scan) (f : Frame) : Scan :=
  if f.inBraces then { s with inner := !s.inner } else s

/-- A byte in quotes. -/
def addQuoted (s : Scan) (f : Frame) (c : Char) : Scan :=
  if f.document && !s.isDouble then s.add (.char c) else s.add (.escaped c)

/-- A backslash and the byte behind it. -/
def addEscape (s : Scan) (f : Frame) : Option Char → Scan
  | none => s.add (.escaped '\\')
  | some c =>
    let kept := s.isDouble && c != '\\' && c != '\x60' && c != '$' &&
      (c != '"' || (f.document && !f.inBraces)) && (c != '\x7d' || !f.inBraces)
    let s := if kept then s.add (.escaped '\\') else s
    { s.add (.escaped c) with quoted := true }

end Scan

/-! ## Expansions -/

/-- The operator of a parameter expansion in braces. -/
structure Operator where
  op : ParamOp
  emptyCounts : Bool
  /-- Whether an operand follows, which ends at the closing brace. -/
  operand : Bool
  /-- Whether the operand is read as if outside quotes. -/
  unquoted : Bool

def operatorOf? (c : Char) : Option ParamOp :=
  match c with
  | '-' => some .orDefault
  | '+' => some .alternative
  | '?' => some .require
  | '=' => some .assign
  | _ => none

/-- Consumes the byte of an operator. A line end in its place is not counted as one. -/
def operatorByte : Parse (Option Char) := do
  let c ← Parse.peekJoined
  let line := (← get).line
  Parse.skip
  modify fun s => { s with line }
  return c

/-- Reads the operator that follows the name. -/
def operator : Parse Operator := do
  match ← operatorByte with
  | some '\x7d' => return ⟨.value, false, false, false⟩
  | some '#' => return ⟨.trim false (← Parse.accept '#'), false, true, true⟩
  | some '%' => return ⟨.trim true (← Parse.accept '%'), false, true, true⟩
  | some ':' =>
    match ← operatorByte with
    | some '\x7d' => return ⟨.value, true, true, false⟩
    | some c => return ⟨(operatorOf? c).getD .malformed, true, true, false⟩
    | none => return ⟨.malformed, true, true, false⟩
  | some c => return ⟨(operatorOf? c).getD .malformed, false, true, false⟩
  | none => return ⟨.malformed, false, true, false⟩

/-- Reads the operand of an expansion and its brace. -/
def operand (self : Parser) (f : Frame) (s : Scan) (unquoted : Bool) : Parse (List Piece) := do
  let double := s.isDouble && !unquoted
  return (← self (.pieces ⟨.brace double, f.document, false⟩)).1

/-- A bound for the tokens and bytes that are left, a token that is pushed back included. -/
def nameLimit : Parse Nat := do return (← get).size + 10

/-- Reads a name or a number in braces. -/
def bracedName (first : Char) : Parse (Option String) := do
  let n ← nameLimit
  if isNameStart first then return some (String.ofList (← Parse.takeWhile isNameByte n []))
  else if isDigit first then return some (String.ofList (← Parse.takeWhile isDigit n []))
  else return none

/-- An expansion that makes no sense, up to its closing brace. -/
def malformed (self : Parser) (f : Frame) (s : Scan) : Parse Piece := do
  return .param "" .malformed false (← operand self f s false)

/-- What follows a name in braces. -/
def afterName (self : Parser) (f : Frame) (s : Scan) (name : String) : Parse Piece := do
  let o ← operator
  if o.operand then return .param name o.op o.emptyCounts (← operand self f s o.unquoted)
  else return .param name o.op o.emptyCounts []

/-- What follows the name of which the length is asked. -/
def afterLength (self : Parser) (f : Frame) (s : Scan) (name : String) : Parse Piece := do
  if (← Parse.peekJoined) = some '\x7d' then
    return .param name .length false (← operand self f s false)
  else malformed self f s

/-- A parameter expansion behind its opening brace. -/
def braced (self : Parser) (f : Frame) (s : Scan) : Parse Piece := do
  match ← Parse.peekJoined with
  | none | some '\x7d' => malformed self f s
  | some '#' =>
    Parse.skip
    match ← Parse.peekJoined with
    | none => afterName self f s "#"
    | some c =>
      match ← bracedName c with
      | some name => afterLength self f s name
      | none =>
        let kept ← get
        Parse.skip
        if c != '\x7d' && (← Parse.peekJoined) = some '\x7d' then
          if isSpecialParameter c then afterLength self f s (String.singleton c)
          else malformed self f s
        else
          set kept
          afterName self f s "#"
  | some c =>
    match ← bracedName c with
    | some name => afterName self f s name
    | none =>
      discard operatorByte
      if isSpecialParameter c then afterName self f s (String.singleton c) else malformed self f s

/-- The command in parentheses. -/
def parenthesized (self : Parser) : Parse Piece := do
  let outer := (← get).announced
  modify fun s => { s with announced := [], pushed := none }
  let c ← self (.list .maybeEmpty)
  let s ← get
  match s.pushed with
  | some .closing =>
    set { s with announced := outer, pushed := none }
    return .output c
  | some t =>
    set { s with last := t }
    Parse.unexpected (some "\")\"")
  | none => Parse.unexpected (some "\")\"")

/-- The text between backquotes, which loses the backslashes that protect quotes. -/
def backquoted (double : Bool) : Nat → List Char → Parse (List Char)
  | 0, acc => return acc.reverse
  | n + 1, acc => do
    let c ← Parse.peekJoined
    Parse.skip
    match c with
    | none => Parse.fail "Syntax error: EOF in backquote substitution"
    | some '\x60' => return acc.reverse
    | some '\\' =>
      let c ← Parse.peek
      Parse.skip
      match c with
      | none => Parse.fail "Syntax error: EOF in backquote substitution"
      | some c =>
        if c != '\\' && c != '\x60' && c != '$' && (!double || c != '"') then
          backquoted double n (c :: '\\' :: acc)
        else backquoted double n (c :: acc)
    | some c => backquoted double n (c :: acc)

/-- The command in backquotes, whose lines are counted by themselves. What follows a complete
command there is ignored. -/
def backquote (self : Parser) (s : Scan) : Parse Piece := do
  let text ← backquoted s.isDouble (← nameLimit) []
  let outer ← get
  set { outer with
    rest := text, size := text.length, line := 1, active := [], pushed := none, announced := [] }
  let c ← self (.list .maybeEmpty)
  let inner ← get
  set { outer with documents := inner.documents, last := inner.last, pushed := none }
  return .output c

/-- What a dollar sign begins. -/
def dollar (self : Parser) (f : Frame) (s : Scan) : Parse Piece := do
  if f.mark then return .char '$'
  match ← Parse.peekJoined with
  | some '(' =>
    Parse.skip
    if ← Parse.accept '(' then
      return .arithmetic (← self (.pieces ⟨.arithmetic, f.document, false⟩)).1
    else parenthesized self
  | some '\x7b' =>
    Parse.skip
    braced self f s
  | some c =>
    if isNameStart c then
      let name ← Parse.takeWhile isNameByte (← nameLimit) []
      return .param (String.ofList name) .value false []
    else if isSpecialParameter c then
      Parse.skip
      return .param (String.singleton c) .value false []
    else return .char '$'
  | none => return .char '$'

/-! ## Frames -/

/-- The end of the source inside a frame. -/
def atEnd (f : Frame) (s : Scan) : Parse Scan := do
  if f.ending = .arithmetic then Parse.fail "Syntax error: Missing '))'"
  else if s.quoting != .none && !f.document then
    Parse.fail "Syntax error: Unterminated quoted string"
  else if f.inBraces then Parse.fail "Syntax error: Missing '\x7d'"
  else return s

/-- Reads a frame to its end; the given number bounds the steps. -/
def scan (self : Parser) (f : Frame) : Nat → Scan → Parse Scan
  | 0, s => return s
  | n + 1, s => do
    if s.quoting = .single then
      match ← Parse.peek with
      | none => atEnd f s
      | some c =>
        Parse.skip
        if c = '\'' then
          if f.document && !f.inBraces then scan self f n (s.add (.char c))
          else
            let s := { s with quoting := .none, quoted := true }
            scan self f n (s.mark f)
        else if isPatternByte c || c == '\\' then scan self f n (s.addQuoted f c)
        else scan self f n (s.add (.char c))
    else
      match ← Parse.peekJoined with
      | none => atEnd f s
      | some c =>
        if s.quoting = .none && f.ending = .word && (isSeparator c || c == '\n') then return s
        Parse.skip
        match c with
        | '\\' =>
          let c ← Parse.peek
          Parse.skip
          scan self f n (s.addEscape f c)
        | '\'' =>
          if s.quoting = .none then scan self f n ({ s with quoting := .single }.mark f)
          else scan self f n (s.add (.char c))
        | '"' =>
          if s.quoting = .none then
            scan self f n (({ s with quoting := .double }.toggleInner f).mark f)
          else if s.quoting = .arithmetic || (f.document && !f.inBraces) then
            scan self f n (s.add (.char c))
          else
            let quoting := if f.ending = .brace true then s.quoting else .none
            let s := { s with quoting, quoted := true }
            scan self f n ((s.toggleInner f).mark f)
        | '$' => scan self f n (s.add (← dollar self f s))
        | '\x60' => scan self f n (s.add (← backquote self s))
        | '\x7d' => if f.inBraces && !s.inner then return s else scan self f n (s.add (.char c))
        | '(' =>
          let depth := if s.quoting = .arithmetic then s.depth + 1 else s.depth
          scan self f n ({ s with depth }.add (.char c))
        | ')' =>
          if s.quoting != .arithmetic then scan self f n (s.add (.char c))
          else if s.depth > 0 then scan self f n ({ s with depth := s.depth - 1 }.add (.char c))
          else if ← Parse.accept ')' then return s
          else scan self f n (s.add (.char c))
        | c =>
          if s.quoting = .double && isPatternByte c then scan self f n (s.addQuoted f c)
          else scan self f n (s.add (.char c))

/-- The pieces of a frame, and whether a part of them was quoted. -/
def pieces (self : Parser) (f : Frame) : Parse (List Piece × Bool) := do
  let limit := (← get).size + 1
  let s ← scan self f limit ⟨f.quoting, false, 0, [], false⟩
  return (s.pieces.reverse, s.quoted)

end RabinReward.Shell
