import RabinReward.Shell.Arithmetic
import RabinReward.Shell.Pattern
import RabinReward.Shell.State

/-!
# Expansion of words

A word expands to cells: bytes that remember whether they were quoted and whether they may be split
into fields, marks of quotes, and seams where a part that may be split begins. Fields are cut out of
the cells (`splitFields`), and a field that is a pattern becomes the names of the files it matches.
Assignments, patterns and the operands of redirections are expanded without splitting.
-/

namespace RabinReward.Shell

/-- How a byte may be split off. -/
inductive Region where
  /-- Not at all. -/
  | fixed
  /-- At separators. -/
  | open
  /-- At zero bytes, which stand between the arguments of a quoted `$@`. -/
  | arguments
  deriving DecidableEq, Repr

inductive Cell where
  | byte (c : Char) (quoted : Bool) (region : Region)
  | quote
  /-- Begins a region. -/
  | seam (arguments : Bool)
  deriving DecidableEq, Repr

/-- What is special about an expansion. -/
structure Mode where
  /-- Fields are wanted. -/
  fields : Bool
  /-- The word is the operand of an expansion, whose text may be split too. -/
  operand : Bool
  /-- The word stands in double quotes. -/
  quoted : Bool
  /-- A tilde at the start stands for a home directory. -/
  tilde : Bool
  /-- So does one behind a colon. -/
  colonTilde : Bool
  deriving DecidableEq, Repr

/-- Runs a command and gives what it prints, without line ends at the end. -/
abbrev Capture := Command → Sh String

namespace Expand

/-! ## Tildes -/

/-- The home directory of a user; of the current one, if the name is empty. -/
def home? (user : String) : Sh (Option String) := do
  if user.isEmpty then return (← Sh.value? "HOME")
  else return if user = "root" then some "/root" else none

/-- The name behind a tilde and the pieces that follow it. -/
def tildeName? (colon : Bool) : List Piece → List Char → Option (String × List Piece)
  | [], acc => some (String.ofList acc.reverse, [])
  | .char c :: ps, acc =>
    if c == '/' || (colon && c == ':') then some (String.ofList acc.reverse, .char c :: ps)
    else tildeName? colon ps (c :: acc)
  | .escaped _ :: _, _ | .quote :: _, _ => none
  | _ :: _, _ => none

/-- Replaces a tilde at the front. -/
def tilde (m : Mode) (ps : List Piece) : Sh (List Cell × List Piece) := do
  match ps with
  | .char '~' :: rest =>
    match tildeName? m.colonTilde rest [] with
    | none => return ([], ps)
    | some (user, rest) =>
      match ← home? user with
      | some h =>
        if h.isEmpty then return ([], ps)
        else return (h.toList.map fun c => .byte c true .fixed, rest)
      | none => return ([], ps)
  | ps => return ([], ps)

/-! ## Parameters -/

inductive Value where
  | text (s : String)
  | list (l : List String)

/-- The letters of the options that are set, as `$-` shows them. -/
def optionLetters : List (String × Char) :=
  [("privileged", 'p'), ("nounset", 'u'), ("notify", 'b'), ("allexport", 'a'),
    ("noclobber", 'C'), ("emacs", 'E'), ("vi", 'V'), ("verbose", 'v'), ("xtrace", 'x'),
    ("stdin", 's'), ("noexec", 'n'),
    ("monitor", 'm'), ("interactive", 'i'), ("ignoreeof", 'I'), ("noglob", 'f'), ("errexit", 'e')]

def parameter? (name : String) : Sh (Option Value) := do
  let p ← Sh.process
  match name with
  | "$" => return some (.text (Nat.repr p.rootPid))
  | "?" => return some (.text (Nat.repr p.status))
  | "#" => return some (.text (Nat.repr p.arguments.length))
  | "!" => return p.lastBackground.map fun n => .text (Nat.repr n)
  | "-" =>
    let cs := optionLetters.filterMap fun (o, c) => if p.options.contains o then some c else none
    return some (.text (String.ofList cs))
  | "@" | "*" => return some (.list p.arguments)
  | _ =>
    match decimal? name with
    | some 0 => return some (.text p.name)
    | some n => return (p.arguments[n - 1]?).map .text
    | none => return (← Sh.value? name).map .text

/-- The byte between the values of a list, if they are joined. -/
def joint : Sh (Option Char) := do
  match ← Sh.separators with
  | some s => return s.toList.head?
  | none => return some ' '

/-- The bytes of a value. A zero byte stands between the values of a list that is to be split. -/
def valueBytes (m : Mode) (quoted : Bool) (name : String) (v : Value) : Sh (List Char) := do
  match v with
  | .text s => return s.toList
  | .list l =>
    let between ←
      if m.fields && (!quoted || name == "@") then pure (some '\x00') else joint
    return (between.toList).intercalate (l.map (·.toList))

def cellsOf (region : Region) (quoted : Bool) (cs : List Char) : List Cell :=
  cs.map fun c => .byte c quoted region

/-- The cells of an expansion's result. -/
def result (quoted : Bool) (cs : List Char) : List Cell :=
  if quoted then cellsOf .fixed true cs else .seam false :: cellsOf .open false cs

/-- The cells of a parameter's value. -/
def valueCells (m : Mode) (quoted : Bool) (name : String) (cs : List Char) : Sh (List Cell) := do
  if quoted && m.fields && name == "@" && !(← Sh.process).arguments.isEmpty then
    return .seam true :: cellsOf .arguments true cs
  else return result quoted cs

def cellText (l : List Cell) : String :=
  String.ofList (l.filterMap fun | .byte c _ _ => some c | _ => none)

def cellPattern (l : List Cell) : Pattern :=
  .ofBytes (l.filterMap fun | .byte c q _ => some ⟨c, q⟩ | _ => none)

/-- Stops because a parameter is not set. -/
def unsetError {α : Type} (name : String) (tail : String) : Sh α :=
  Sh.fail s!"{name}: parameter not set{tail}"

/-! ## Words -/

/-- Expands pieces in a mode. -/
abbrev Pieces := Mode → List Piece → Sh (List Cell)

/-- A plain operand, as in an assignment. -/
def plainMode : Mode := ⟨false, false, false, true, false⟩

/-- A parameter whose operand counts. -/
def withOperand (self : Pieces) (m : Mode) (quoted : Bool) (name : String) (op : ParamOp)
    (emptyCounts : Bool) (operand : List Piece) : Sh (List Cell) := do
  let value ← parameter? name
  let bytes ←
    match value with
    | some v => valueBytes m quoted name v
    | none => pure []
  let isSet := value.isSome && !(emptyCounts && bytes.isEmpty)
  match op with
  | .orDefault =>
    if isSet then valueCells m quoted name bytes
    else self { m with operand := true, quoted, tilde := true } operand
  | .alternative =>
    if isSet then self { m with operand := true, quoted, tilde := true } operand else return []
  | .assign =>
    if isSet then valueCells m quoted name bytes
    else
      let s := cellText (← self plainMode operand)
      if !isName name then Sh.fail s!"{name}: bad variable name"
      Sh.setValue name s false
      valueCells m quoted name s.toList
  | .require =>
    if isSet then valueCells m quoted name bytes
    else
      let s := cellText (← self plainMode operand)
      if operand.isEmpty then unsetError name (if emptyCounts then " or null" else "")
      else Sh.fail s!"{name}: {s}"
  | .trim back longest =>
    if value.isNone then
      if ← Sh.optionSet "nounset" then unsetError name "" else return []
    let p := cellPattern (← self plainMode operand)
    valueCells m quoted name (p.trim back longest bytes)
  | .length =>
    if value.isNone && (← Sh.optionSet "nounset") then unsetError name ""
    return result quoted (Nat.repr bytes.length).toList
  | .malformed => Sh.fail "Bad substitution"
  | .value =>
    if value.isNone && (← Sh.optionSet "nounset") then unsetError name ""
    if value.isNone then return [] else valueCells m quoted name bytes

/-- The value of an arithmetic expression. -/
def arithmetic (text : String) : Sh Int := do
  let vars := (← Sh.process).vars
  let look (x : String) : Option String := (vars.find? (·.1 == x)).bind (·.2.value)
  match evaluate look text with
  | .ok (n, assigned) =>
    assigned.forM fun (x, v) => Sh.setValue x (toString v) false
    return n
  | .error (.number s) => Sh.fail s!"Illegal number: {s}"
  | .error (.expression reason) => Sh.fail s!"arithmetic expression: {reason}: \"{text}\""

def piece (capture : Capture) (self : Pieces) (m : Mode) (quoted : Bool) : Piece → Sh (List Cell)
  | .char c => return [.byte c false (if m.operand && !quoted then .open else .fixed)]
  | .escaped c => return [.byte c true .fixed]
  | .quote => return [.quote]
  | .param name op emptyCounts word => withOperand self m quoted name op emptyCounts word
  | .output c => return result quoted (← capture c).toList
  | .arithmetic e => do
    let text := cellText (← self { plainMode with tilde := false } e)
    return result quoted (toString (← arithmetic text)).toList

/-- Whether a byte begins a part of an operand that may be split. -/
def opensRegion (m : Mode) (quoted : Bool) (p : Piece) : Bool :=
  match p with
  | .char _ => m.operand && !quoted
  | _ => false

def pieceList (capture : Capture) (self : Pieces) (m : Mode) : Nat → Bool → Bool → List Piece →
    List (List Cell) → Sh (List (List Cell))
  | 0, _, _, _, acc => return acc
  | _, _, _, [], acc => return acc
  | n + 1, inside, running, p :: ps, acc => do
    let quoted := m.quoted || inside
    match p, ps with
    | .quote, .param "@" .value false [] :: .quote :: rest =>
      if inside then pieceList capture self m n (!inside) false ps ([.quote] :: acc)
      else
        let cells ← withOperand self m true "@" .value false []
        pieceList capture self m n inside false rest (cells :: acc)
    | .quote, ps => pieceList capture self m n (!inside) false ps ([.quote] :: acc)
    | .char ':', .char '~' :: rest =>
      if m.colonTilde && !quoted then
        let (cells, rest) ← tilde m (.char '~' :: rest)
        let cells := cells :: [.byte ':' false .fixed] :: acc
        match rest with
        | .char '~' :: rest =>
          pieceList capture self m n inside false rest ([.byte '~' false .fixed] :: cells)
        | rest => pieceList capture self m n inside false rest cells
      else pieceList capture self m n inside running ps ((← piece capture self m quoted p) :: acc)
    | p, ps =>
      let starts := opensRegion m quoted p
      let cells ← piece capture self m quoted p
      let cells := if starts && !running then .seam false :: cells else cells
      pieceList capture self m n inside starts ps (cells :: acc)

def pieces (capture : Capture) (self : Pieces) : Pieces := fun m ps => do
  let (front, ps) ← if m.tilde then tilde m ps else pure ([], ps)
  let l ← pieceList capture self { m with tilde := false } (ps.length + 1) false false ps [front]
  return l.reverse.flatten

/-- Expands pieces; the given number bounds the depth. -/
def piecesDeep (capture : Capture) : Nat → Pieces
  | 0 => fun _ _ => return []
  | n + 1 => pieces capture (piecesDeep capture n)

def depthLimit : Nat := 10000

/-! ## Fields -/

def isBlankSeparator (c : Char) : Bool := c == ' ' || c == '\t' || c == '\n' || c == '\x00'

structure Splitting where
  /-- How many fields may still be cut off, if their number is bounded. -/
  left : Option Nat
  /-- Fields so far, the last one first. -/
  fields : List (List Cell)
  /-- The cells of the field that is begun, the last one first. -/
  current : List Cell
  /-- How many of them are certain not to be separators at the end of the last field. -/
  certain : Option Nat
  arguments : Bool
  afterArguments : Bool
  /-- Whether the last field ended at a blank. -/
  afterBlank : Bool

namespace Splitting

def start (left : Option Nat) : Splitting := ⟨left, [], [], none, false, false, false⟩

def cut (s : Splitting) : Splitting :=
  { s with fields := s.current.reverse :: s.fields, current := [] }

def keep (s : Splitting) (c : Cell) : Splitting := { s with current := c :: s.current }

/-- A byte that separates fields. -/
def separator (s : Splitting) (blank : Bool) (c : Cell) : Splitting :=
  let s := if s.arguments || s.afterArguments then s else { s with afterBlank := blank }
  if s.current.isEmpty && s.afterBlank then { s with afterBlank := false }
  else
    match s.left with
    | none => s.cut
    | some (n + 2) => { s.cut with left := some (n + 1) }
    | some _ => { s with left := some 0, certain := some s.current.length }.keep c

/-- A byte of the last field, which takes all that is left. Separators at its end do not belong to
it: blanks, and one other separator if nothing but blanks stands around it. -/
def lastField (s : Splitting) (isSeparator blank : Bool) (c : Cell) : Splitting :=
  let s :=
    if blank then { s with certain := some (s.certain.getD s.current.length) }
    else if isSeparator && s.afterBlank then { s with afterBlank := false }
    else { s with certain := none, afterBlank := false }
  s.keep c

def step (separators : List Char) (s : Splitting) (cell : Cell) : Splitting :=
  match cell with
  | .quote => s.keep cell
  | .seam arguments =>
    { s with arguments, afterArguments := s.arguments, afterBlank := false }
  | .byte _ _ .fixed => s.keep cell
  | .byte c _ .arguments => if c == '\x00' then s.separator true cell else s.keep cell
  | .byte c _ .open =>
    let isSeparator := c == '\x00' || separators.contains c
    let blank := isSeparator && isBlankSeparator c
    if s.left = some 0 then s.lastField isSeparator blank cell
    else if s.afterBlank then
      if blank then s
      else if isSeparator then { s with afterBlank := false }
      else { s with afterBlank := false }.keep cell
    else if isSeparator then s.separator blank cell
    else s.keep cell

def finish (s : Splitting) : List (List Cell) :=
  let s := match s.certain with
    | some n => { s with current := s.current.drop (s.current.length - n) }
    | none => s
  if s.arguments || !s.current.isEmpty then s.cut.fields.reverse else s.fields.reverse

end Splitting

/-- Cuts cells into fields, at most the given number of them. -/
def splitFields (limit : Option Nat) (separators : List Char) (cells : List Cell) :
    List (List Cell) :=
  (cells.foldl (Splitting.step separators) (.start limit)).finish

/-! ## File names -/

def isPatternCell : Cell → Bool
  | .byte c false _ => c == '*' || c == '?' || c == '['
  | _ => false

/-- Cuts a field at slashes. -/
def components : List Cell → List (List Cell)
  | [] => [[]]
  | .byte '/' _ _ :: cs => [] :: components cs
  | c :: cs =>
    match components cs with
    | l :: ls => (c :: l) :: ls
    | [] => [[c]]

/-- A field without backslashes that protect a byte. -/
def literalText (l : List Cell) : String := cellText l

/-- The names that the components of a field match, in front of which a path stands. -/
def matchNames (f : Files) (directory : String) : String → List (List Cell) → List String
  | front, [] => [front]
  | front, [l] =>
    if l.any isPatternCell then
      let here := Files.absolute directory front
      if f.isDirectory here then
        let p := cellPattern l
        let hidden := match l with
          | .byte '.' _ _ :: _ => true
          | _ => false
        ((f.entries here).filter fun n =>
          (hidden || !n.startsWith ".") && p.matches n.toList).map (front ++ ·)
      else []
    else
      let path := front ++ literalText l
      if l.isEmpty || (f.find? (Files.absolute directory path)).isSome then [path] else []
  | front, l :: ls =>
    if l.any isPatternCell then
      let here := Files.absolute directory front
      if f.isDirectory here then
        let p := cellPattern l
        let hidden := match l with
          | .byte '.' _ _ :: _ => true
          | _ => false
        let names := (f.entries here).filter fun n =>
          (hidden || !n.startsWith ".") && p.matches n.toList &&
            f.isDirectory (Files.absolute directory (front ++ n))
        names.flatMap fun n => matchNames f directory (front ++ n ++ "/") ls
      else []
    else matchNames f directory (front ++ literalText l ++ "/") ls

/-- The file names that a field matches, or the field itself. -/
def fileNames (l : List Cell) : Sh (List String) := do
  let text := cellText l
  if (← Sh.optionSet "noglob") || !l.any isPatternCell then return [text]
  else
    let m ← get
    let cells := l.filter fun | .byte _ _ _ => true | _ => false
    let names := matchNames m.files m.process.directory "" (components cells)
    return if names.isEmpty then [text] else names

/-! ## Uses -/

variable (capture : Capture)

/-- The fields of a word. -/
def fields (w : Word) : Sh (List String) := do
  let cells ← piecesDeep capture depthLimit ⟨true, false, false, true, false⟩ w
  let separators := ((← Sh.separators).getD " \t\n").toList
  let l ← (splitFields none separators cells).mapM fileNames
  return l.flatten

def allFields (ws : List Word) : Sh (List String) := do
  return (← ws.mapM (fields capture)).flatten

/-- The text of a word that is not split. -/
def text (w : Word) : Sh String := do
  return cellText (← piecesDeep capture depthLimit plainMode w)

/-- The value of an assignment. -/
def assigned (w : Word) : Sh String := do
  return cellText (← piecesDeep capture depthLimit { plainMode with colonTilde := true } w)

/-- The text of a here-document. -/
def document (w : Word) : Sh String := do
  let m := { plainMode with quoted := true, tilde := false }
  return cellText (← piecesDeep capture depthLimit m w)

/-- The pattern of a case. -/
def pattern (w : Word) : Sh Pattern := do
  return cellPattern (← piecesDeep capture depthLimit plainMode w)

end Expand

end RabinReward.Shell
