import RabinReward.Shell.Parser.Word

/-!
# Reading commands

Commands are read by descent: a list of commands holds pipelines, and these hold simple commands and
compound ones. Each reading of a token says which words count as keywords or aliases at its place.
`readLine?` reads one line of a script, and as many more as its commands need.
-/

namespace RabinReward.Shell

/-! ## Here-documents -/

/-- A line and what follows it. Where the text is expanded, a backslash joins the next line. -/
def splitLine (join : Bool) : List Char → List Char × Option (List Char)
  | [] => ([], none)
  | '\n' :: cs => ([], some cs)
  | '\\' :: c :: cs =>
    if join then
      let (l, r) := splitLine join cs
      ('\\' :: c :: l, r)
    else
      let (l, r) := splitLine join (c :: cs)
      ('\\' :: l, r)
  | c :: cs =>
    let (l, r) := splitLine join cs
    (c :: l, r)

/-- The lines of a here-document, how much of the source lies behind it, and how many lines of the
source it takes. -/
def documentLines (a : Announced) : Nat → List Char → List (List Char) × List Char × Nat
  | 0, cs => ([], cs, 0)
  | n + 1, cs =>
    let (line, rest) := splitLine a.expand cs
    let line := if a.stripTabs then line.dropWhile (· == '\t') else line
    if line = a.mark then ([], rest.getD [], 1)
    else
      match rest with
      | none => (if line.isEmpty then [] else [line], [], 0)
      | some rest =>
        let (ls, r, k) := documentLines a n rest
        ((line ++ ['\n']) :: ls, r, k + 1)

/-- Reads a here-document that begins here. -/
def readDocument (self : Parser) (a : Announced) : Parse Unit := do
  let outer ← get
  let (lines, rest, count) := documentLines a (outer.size + 1) outer.rest
  let text := lines.flatten
  let body ←
    if a.expand then
      set { outer with rest := text, size := text.length, active := [] }
      pure (← self (.pieces ⟨.document, true, false⟩)).1
    else pure (text.map Piece.char)
  modify fun s => { s with
    rest, size := rest.length, line := outer.line + count, active := []
    documents := s.documents.setIfInBounds a.number ⟨body, a.expand⟩ }

/-- Reads the here-documents that are announced. -/
def readDocuments (self : Parser) : Parse Unit := do
  let l := (← get).announced
  modify fun s => { s with announced := [] }
  l.forM (readDocument self)

/-! ## Tokens -/

/-- The operator of a redirection, whose first byte comes next. -/
def redirectionSign (fd : Option Nat) : Parse Token := do
  let first ← Parse.peek
  Parse.skip
  if first = some '>' then
    let sign ←
      if ← Parse.accept '>' then pure (.file .append)
      else if ← Parse.accept '|' then pure (.file .clobber)
      else if ← Parse.accept '&' then pure .duplicate
      else pure (.file .write)
    return .redirection (fd.getD 1) sign
  else
    let sign ←
      if ← Parse.accept '<' then pure (RedirectionSign.here (← Parse.accept '-'))
      else if ← Parse.accept '&' then pure .duplicate
      else if ← Parse.accept '>' then pure (.file .readWrite)
      else pure (.file .read)
    return .redirection (fd.getD 0) sign

/-- The channel that a word in front of a redirection stands for. -/
def channelOf? : Word → Option (Option Nat)
  | [] => some none
  | [.char c] => (digitIn? 10 c).map some
  | _ => none

/-- Skips the rest of a line. -/
def skipLine : Nat → Parse Unit
  | 0 => return ()
  | n + 1 => do
    match ← Parse.peek with
    | none | some '\n' => return ()
    | some _ =>
      Parse.skip
      skipLine n

/-- The next token as it is written. -/
def rawToken (self : Parser) (checks : Checks) : Nat → Parse Token
  | 0 => return .eof
  | n + 1 => do
    match ← Parse.peekJoined with
    | none => return .eof
    | some c =>
      match c with
      | ' ' | '\t' =>
        Parse.skip
        rawToken self checks n
      | '#' =>
        skipLine (← nameLimit)
        rawToken self checks n
      | '\n' =>
        Parse.skip
        return .newline
      | '&' =>
        Parse.skip
        return if ← Parse.accept '&' then .and else .background
      | '|' =>
        Parse.skip
        return if ← Parse.accept '|' then .or else .pipe
      | ';' =>
        Parse.skip
        return if ← Parse.accept ';' then .endCase else .semicolon
      | '(' =>
        Parse.skip
        return .opening
      | ')' =>
        Parse.skip
        return .closing
      | _ =>
        let (w, quoted) ← self (.pieces ⟨.word, false, checks.mark⟩)
        let c ← Parse.peek
        if !quoted && (c = some '<' || c = some '>') then
          match channelOf? w with
          | some fd => redirectionSign fd
          | none => return .word w quoted
        else return .word w quoted

/-- Ends the aliases whose text has been read; whether one of them ended in a blank. -/
def endAliases : Parse Bool := modifyGet fun s =>
  let (ended, active) := s.active.partition fun a => s.size < a.behind
  (ended.any (·.blank), { s with active })

/-- The text of an alias that is not being read. -/
def aliasText? (s : Source) (name : String) : Option String :=
  if s.active.any (·.name == name) then none else (s.aliases.find? (·.1 == name)).map (·.2)

/-- Puts the text of an alias in front of the source. -/
def pushAlias (name text : String) : Parse Unit := modify fun s =>
  let cs := text.toList
  let blank := cs.getLast?.any isBlankByte
  { s with
    rest := cs ++ s.rest, size := s.size + cs.length
    active := ⟨name, s.size, blank⟩ :: s.active }

/-- The next token: the one pushed back, or one from the source. -/
def fetchToken (self : Parser) (checks : Checks) : Parse Token := do
  match (← get).pushed with
  | some t =>
    modify fun s => { s with pushed := none }
    return t
  | none => rawToken self checks (← nameLimit)

/-- Reads a token, with the given checks. -/
def tokenLoop (self : Parser) (checks : Checks) : Nat → Parse Token
  | 0 => return .eof
  | n + 1 => do
    let t ← fetchToken self checks
    let checks := { checks with aliases := (← endAliases) || checks.aliases }
    match t with
    | .newline =>
      if checks.newlines then
        readDocuments self
        tokenLoop self checks n
      else return t
    | .word w false =>
      match w.plain? with
      | none => return t
      | some name =>
        if checks.keywords && keywords.contains name then return .keyword name
        else if checks.aliases then
          match aliasText? (← get) name with
          | some text =>
            pushAlias name text
            tokenLoop self checks n
          | none => return t
        else return t
    | t => return t

def readToken (self : Parser) (checks : Checks) : Parse Token := do
  let limit := (← get).size + 1000
  let t ← tokenLoop self checks limit
  modify fun s => { s with last := t }
  return t

/-- Reads a token and pushes it back unless it is the given keyword; whether it was. -/
def acceptKeyword (self : Parser) (k : String) : Parse Bool := do
  let t ← readToken self .none
  match t with
  | .keyword k' =>
    if k' = k then return true
    else
      Parse.pushBack t
      return false
  | _ =>
    Parse.pushBack t
    return false

def expectKeyword (self : Parser) (checks : Checks) (k : String) : Parse Unit := do
  match ← readToken self checks with
  | .keyword k' => if k' = k then return () else Parse.unexpected (some ("\"" ++ k ++ "\""))
  | _ => Parse.unexpected (some ("\"" ++ k ++ "\""))

/-! ## Redirections -/

/-- Announces a here-document and gives its number. -/
def announce (mark : Word) (quoted stripTabs : Bool) : Parse Nat := modifyGet fun s =>
  let number := s.documents.size
  (number, { s with
    documents := s.documents.push ⟨[], false⟩
    announced := s.announced ++ [⟨number, mark.unquoted, stripTabs, !quoted⟩] })

/-- Reads the operand of a redirection. -/
def redirectionOperand (self : Parser) (fd : Nat) (sign : RedirectionSign) :
    Parse Redirection := do
  let mark := match sign with
    | .here _ => true
    | _ => false
  match ← readToken self { Checks.none with mark } with
  | .word w quoted =>
    match sign with
    | .file mode => return .file fd mode w
    | .here stripTabs => return .here fd (← announce w quoted stripTabs)
    | .duplicate =>
      match w with
      | [.char '-'] => return .close fd
      | [.char c] =>
        match digitIn? 10 c with
        | some source => return .duplicate fd source
        | none => return .duplicateWord fd w
      | w => return .duplicateWord fd w
  | _ => Parse.unexpected none

/-- Reads redirections as long as there are any. -/
def redirections (self : Parser) (checks : Checks) :
    Nat → List Redirection → Parse (List Redirection)
  | 0, acc => return acc.reverse
  | n + 1, acc => do
    match ← readToken self checks with
    | .redirection fd sign =>
      redirections self .none n ((← redirectionOperand self fd sign) :: acc)
    | t =>
      Parse.pushBack t
      return acc.reverse

/-! ## Simple commands -/

/-- The parts of a simple command, the last one first. -/
structure SimpleParts where
  assignments : List Word
  words : List Word
  redirections : List Redirection

/-- Utilities that no function can replace. -/
def specialUtilities : List String :=
  [".", ":", "break", "continue", "eval", "exec", "exit", "export", "local", "readonly", "return",
    "set", "shift", "times", "trap", "unset"]

/-- Reads a function behind its opening parenthesis. -/
def functionBody (self : Parser) (name : Word) : Parse Command := do
  match ← readToken self .none with
  | .closing =>
    match name.plain? with
    | some n =>
      if isName n && !specialUtilities.contains n then
        let line := (← get).line
        return .function line n (← self (.command .commandBelow))
      else Parse.fail "Syntax error: Bad function name"
    | none => Parse.fail "Syntax error: Bad function name"
  | _ => Parse.unexpected (some "\")\"")

def simpleLoop (self : Parser) (line : Nat) (checks : Checks) : Nat → SimpleParts → Parse Command
  | 0, _ => return .nothing
  | n + 1, p => do
    match ← readToken self checks with
    | .word w _ =>
      if p.words.isEmpty && w.assignment?.isSome then
        simpleLoop self line checks n { p with assignments := w :: p.assignments }
      else simpleLoop self line .none n { p with words := w :: p.words }
    | .redirection fd sign =>
      let r ← redirectionOperand self fd sign
      simpleLoop self line checks n { p with redirections := r :: p.redirections }
    | t =>
      match t, p with
      | .opening, ⟨[], [name], []⟩ => functionBody self name
      | _, _ =>
        Parse.pushBack t
        return .simple line p.assignments.reverse p.words.reverse p.redirections.reverse

/-! ## Compound commands -/

/-- Reads the words up to the first token that is none. -/
def wordList (self : Parser) : Nat → List Word → Parse (List Word)
  | 0, acc => return acc.reverse
  | n + 1, acc => do
    match ← readToken self .none with
    | .word w _ => wordList self n (w :: acc)
    | _ => return acc.reverse

/-- The branches of a conditional command behind its first keyword. -/
def conditional (self : Parser) : Nat → Parse Command
  | 0 => return .nothing
  | n + 1 => do
    let test ← self (.list .block)
    expectKeyword self .none "then"
    let yes ← self (.list .block)
    if ← acceptKeyword self "elif" then return .cond test yes (some (← conditional self n))
    else if ← acceptKeyword self "else" then
      return .cond test yes (some (← self (.list .block)))
    else return .cond test yes none

def loopCommand (self : Parser) (stopOnSuccess : Bool) : Parse Command := do
  let test ← self (.list .block)
  expectKeyword self .none "do"
  let body ← self (.list .block)
  return .loop stopOnSuccess test body

def forCommand (self : Parser) (line : Nat) : Parse Command := do
  match ← readToken self .none with
  | .word w false =>
    match w.plain? with
    | some name =>
      if !isName name then Parse.fail "Syntax error: Bad for loop variable"
      else
        let words ←
          match ← readToken self .commandBelow with
          | .keyword "in" =>
            let ws ← wordList self (← nameLimit) []
            match (← get).last with
            | .newline | .semicolon => pure ws
            | _ => Parse.unexpected none
          | .semicolon => pure [Word.allArguments]
          | t =>
            Parse.pushBack t
            pure [Word.allArguments]
        expectKeyword self .commandBelow "do"
        return .forEach line name words (← self (.list .block))
    | none => Parse.fail "Syntax error: Bad for loop variable"
  | _ => Parse.fail "Syntax error: Bad for loop variable"

/-- The text of a token as a pattern of a case. -/
def Token.pattern (t : Token) : Word :=
  match t with
  | .word w _ => w
  | .keyword k => k.toList.map .char
  | _ => []

/-- The patterns of a case, the first of which has been read. -/
def casePatterns (self : Parser) (first : Word) : Nat → List Word → Parse (List Word)
  | 0, acc => return acc.reverse
  | n + 1, acc => do
    match ← readToken self .none with
    | .pipe =>
      let t ← readToken self .none
      casePatterns self t.pattern n (first :: acc)
    | .closing => return (first :: acc).reverse
    | _ => Parse.unexpected (some "\")\"")

/-- The cases up to the end of the selection, given the token at their front. -/
def caseList (self : Parser) : Nat → Token → List (List Word × Command) →
    Parse (List (List Word × Command))
  | 0, _, acc => return acc.reverse
  | _ + 1, .keyword "esac", acc => return acc.reverse
  | n + 1, t, acc => do
    let t ←
      match t with
      | .opening => readToken self .none
      | t => pure t
    let ps ← casePatterns self t.pattern (← nameLimit) []
    let body ← self (.list .maybeEmpty)
    match ← readToken self ⟨true, false, true, false⟩ with
    | .keyword "esac" => return ((ps, body) :: acc).reverse
    | .endCase =>
      let t ← readToken self ⟨true, false, true, false⟩
      caseList self n t ((ps, body) :: acc)
    | _ => Parse.unexpected (some "\";;\"")

def caseCommand (self : Parser) (line : Nat) : Parse Command := do
  match ← readToken self .none with
  | .word w _ =>
    expectKeyword self .commandBelow "in"
    let t ← readToken self ⟨true, false, true, false⟩
    return .select line w (← caseList self (← nameLimit) t [])
  | _ => Parse.unexpected (some "word")

/-- Reads the redirections behind a compound command. -/
def withRedirections (self : Parser) (line : Nat) (c : Command) : Parse Command := do
  let rs ← redirections self .command (← nameLimit) []
  if rs.isEmpty then return c
  else
    match c with
    | .subshell l b _ => return .subshell l b rs
    | c => return .redirected line c rs

/-- Reads a command. -/
def command (self : Parser) (checks : Checks) : Parse Command := do
  let line := (← get).line
  let t ← readToken self checks
  let closed (c : Command) (k : String) : Parse Command := do
    expectKeyword self .none k
    withRedirections self line c
  match t with
  | .keyword "if" => closed (← conditional self (← nameLimit)) "fi"
  | .keyword "while" => closed (← loopCommand self false) "done"
  | .keyword "until" => closed (← loopCommand self true) "done"
  | .keyword "for" => closed (← forCommand self line) "done"
  | .keyword "case" => withRedirections self line (← caseCommand self line)
  | .keyword "\x7b" => closed (← self (.list .block)) "\x7d"
  | .opening =>
    let c ← self (.list .block)
    match ← readToken self .none with
    | .closing => withRedirections self line (.subshell line c [])
    | _ => Parse.unexpected (some "\")\"")
  | .word _ _ | .redirection _ _ =>
    let line := (← get).line
    Parse.pushBack t
    simpleLoop self line ⟨false, true, false, false⟩ (← nameLimit) ⟨[], [], []⟩
  | _ => Parse.unexpected none

/-! ## Lists of commands -/

/-- Reads the further commands of a pipeline. -/
def pipeLoop (self : Parser) : Nat → List Command → Parse (List Command)
  | 0, acc => return acc.reverse
  | n + 1, acc => do
    match ← readToken self .none with
    | .pipe => pipeLoop self n ((← self (.command .commandBelow)) :: acc)
    | t =>
      Parse.pushBack t
      return acc.reverse

def pipeline (self : Parser) (checks : Checks) : Parse Command := do
  let t ← readToken self checks
  let negated ←
    match t with
    | .keyword "!" => pure true
    | t =>
      Parse.pushBack t
      pure false
  let first ← self (.command (if negated then .command else .none))
  let cs ← pipeLoop self (← nameLimit) [first]
  let c := match cs with
    | [c] => c
    | cs => .pipeline cs
  return if negated then .not c else c

def andOrLoop (self : Parser) : Nat → Command → Parse Command
  | 0, c => return c
  | n + 1, c => do
    match ← readToken self .none with
    | .and => andOrLoop self n (.and c (← pipeline self .commandBelow))
    | .or => andOrLoop self n (.or c (← pipeline self .commandBelow))
    | t =>
      Parse.pushBack t
      return c

def andOr (self : Parser) : Parse Command := do
  let c ← pipeline self .none
  andOrLoop self (← nameLimit) c

/-- Puts a command behind others. -/
def Command.followedBy (first : Option Command) (c : Command) : Command :=
  match first with
  | none => c
  | some f => .seq f c

/-- Reads one element of a list and the token behind it. -/
def listElement (self : Parser) (sofar : Option Command) : Parse (Command × Token) := do
  let c ← andOr self
  let t ← readToken self .none
  match t with
  | .background => return (.followedBy sofar (.background c), t)
  | t => return (.followedBy sofar c, t)

def listLoop (self : Parser) (mode : ListMode) : Nat → Option Command → Parse Command
  | 0, sofar => return sofar.getD .nothing
  | n + 1, sofar => do
    let t ← readToken self .commandBelow
    match t with
    | .eof =>
      readDocuments self
      Parse.pushBack t
      return sofar.getD .nothing
    | t =>
      Parse.pushBack t
      if t.endsList && (mode = .maybeEmpty || sofar.isSome) then return sofar.getD .nothing
      else
        let (c, t) ← listElement self sofar
        match t with
        | .eof =>
          readDocuments self
          Parse.pushBack t
          return c
        | .newline =>
          Parse.pushBack t
          listLoop self mode n (some c)
        | .background | .semicolon => listLoop self mode n (some c)
        | t =>
          Parse.pushBack t
          return c

/-- Reads what a goal asks for, given how to read what is inside it. -/
def readGoal (self : Parser) : Parser
  | .list mode => do listLoop self mode (← nameLimit) none
  | .command checks => command self checks
  | .pieces f => pieces self f

/-- Reads what a goal asks for; the given number bounds the depth. -/
def readDeep : Nat → Parser
  | 0 => fun _ => Parse.fail "Syntax error: too deep"
  | n + 1 => readGoal (readDeep n)

def lineLoop (self : Parser) : Nat → Option Command → Parse (Option Command)
  | 0, sofar => return sofar
  | n + 1, sofar => do
    match ← readToken self .command with
    | .newline =>
      readDocuments self
      return some (sofar.getD .nothing)
    | .eof =>
      readDocuments self
      return sofar
    | t =>
      Parse.pushBack t
      let (c, t) ← listElement self sofar
      match t with
      | .eof =>
        readDocuments self
        return some c
      | .newline =>
        Parse.pushBack t
        lineLoop self n (some c)
      | .background | .semicolon => lineLoop self n (some c)
      | _ => Parse.unexpected none

/-- Reads the commands of one line; nothing at the end of the source. -/
def readLine? : Parse (Option Command) := do
  modify fun s => { s with pushed := none }
  let n ← nameLimit
  lineLoop (readDeep (4 * n + 100)) n none

end RabinReward.Shell
