import RabinReward.Shell.Regex.Reader
import RabinReward.Shell.Tool.Options

/-!
# The program `grep`

It prints the lines that match one of its patterns.
-/

namespace RabinReward.Shell.Tool.Search

/-- Where in a line a match may be. -/
inductive Extent where
  | anywhere
  | word
  | line
  deriving DecidableEq, Repr

structure Query where
  patterns : List Regex
  extent : Extent
  ignoreCase : Bool
  inverted : Bool

def Query.subject (q : Query) (l : String) : Regex.Subject :=
  ⟨l.toList.toArray, q.ignoreCase, false⟩

/-- Whether a stretch of a line has the right extent. -/
def Query.fits (q : Query) (s : Regex.Subject) (a b : Nat) : Bool :=
  match q.extent with
  | .anywhere => true
  | .line => a = 0 && b = s.bytes.size
  | .word =>
    let before := if a = 0 then none else s.bytes[a - 1]?
    !before.any Regex.isWord && !(s.bytes[b]?).any Regex.isWord

/-- The end of the longest match at a position. -/
def Query.stopAt? (q : Query) (s : Regex.Subject) (i : Nat) : Option Nat :=
  let stops := q.patterns.flatMap fun r =>
    ((r.ways s ⟨i, []⟩).map (·.position)).filter (q.fits s i)
  stops.max?

/-- The first match that begins at one of the next `n` positions. -/
def Query.first? (q : Query) (s : Regex.Subject) : Nat → Nat → Option (Nat × Nat)
  | 0, _ => none
  | n + 1, i =>
    match q.stopAt? s i with
    | some j => some (i, j)
    | none => q.first? s n (i + 1)

def Query.selects (q : Query) (l : String) : Bool :=
  let s := q.subject l
  (q.first? s (s.bytes.size + 1) 0).isSome != q.inverted

/-- All matches in a line that are not empty; the number bounds them. -/
def Query.matches (q : Query) (s : Regex.Subject) : Nat → Nat → List String
  | 0, _ => []
  | n + 1, i =>
    match q.first? s (s.bytes.size + 1 - i) i with
    | none => []
    | some (a, b) =>
      if a = b then q.matches s n (b + 1)
      else String.ofList (s.bytes.extract a b).toList :: q.matches s n b

def options : OptionTable :=
  { short := "A:B:C:EFGHLRce:f:hilm:noqrsvwxy", first := false
    long := [("after-context", 'A', .argument), ("before-context", 'B', .argument),
      ("context", 'C', .argument), ("extended-regexp", 'E', .nothing),
      ("fixed-strings", 'F', .nothing), ("basic-regexp", 'G', .nothing),
      ("with-filename", 'H', .nothing), ("files-without-match", 'L', .nothing),
      ("count", 'c', .nothing), ("regexp", 'e', .argument), ("file", 'f', .argument),
      ("no-filename", 'h', .nothing), ("ignore-case", 'i', .nothing),
      ("files-with-matches", 'l', .nothing), ("max-count", 'm', .argument),
      ("line-number", 'n', .nothing), ("only-matching", 'o', .nothing), ("quiet", 'q', .nothing),
      ("silent", 'q', .nothing), ("no-messages", 's', .nothing), ("invert-match", 'v', .nothing),
      ("word-regexp", 'w', .nothing), ("line-regexp", 'x', .nothing), ("color", 'k', .maybe)] }

def usage (name : String) : Sh Nat := do
  Sh.print 2 (s!"Usage: {name} [OPTION]... PATTERNS [FILE]...\n" ++
    s!"Try '{name} --help' for more information.\n")
  return 2

/-- The lines to print: selected ones, and those around them. A separator stands between groups. -/
def context (before after : Nat) (selected : List (Bool × String)) :
    List (Option (Bool × Nat × String)) :=
  let marks := (selected.map (·.1)).toArray
  let near (i : Nat) : Bool :=
    (List.range (after + 1)).any (fun k => k ≤ i && (marks[i - k]?).getD false) ||
      (List.range (before + 1)).any fun k => (marks[i + k]?).getD false
  let shown := selected.zipIdx.filterMap fun ((m, l), i) => if near i then some (m, i, l) else none
  let rec join : Option Nat → List (Bool × Nat × String) → List (Option (Bool × Nat × String))
    | _, [] => []
    | last, (m, i, l) :: rest =>
      let gap := match last with
        | some k => if (before + after > 0) && i > k + 1 then [none] else []
        | none => []
      gap ++ some (m, i, l) :: join (some i) rest
  join none shown

structure Style where
  names : Bool
  numbers : Bool
  only : Bool
  before : Nat
  after : Nat

/-- The lines of one file as they are printed. -/
def Style.show (st : Style) (q : Query) (path : String) (selected : List (Bool × String)) :
    String :=
  let label (m : Bool) (i : Nat) : String :=
    let sep := if m then ":" else "-"
    (if st.names then path ++ sep else "") ++ (if st.numbers then toString (i + 1) ++ sep else "")
  let pieces := (context st.before st.after selected).map fun o =>
    match o with
    | none => "--\n"
    | some (m, i, l) =>
      if st.only then
        if m && !q.inverted then
          let found := q.matches (q.subject l) (l.length + 1) 0
          String.join (found.map fun f => label m i ++ f ++ "\n")
        else ""
      else label m i ++ l ++ "\n"
  String.join pieces

/-- Marks the first `limit` lines that are selected; those behind the last one are cut off. -/
def mark (q : Query) : Option Nat → List String → List (Bool × String)
  | _, [] => []
  | some 0, _ => []
  | limit, l :: ls =>
    if q.selects l then (true, l) :: mark q (limit.map (· - 1)) ls
    else (false, l) :: mark q limit ls

def readPatterns (os : Options) (texts : List String) : Except Regex.Fault (List Regex) :=
  (texts.flatMap fun s => (s.toList.splitOn '\n')).mapM fun cs =>
    if has os 'F' then .ok (Regex.ofLiteral cs)
    else (Regex.ofText? ⟨has os 'E', false⟩ cs).map (·.1)

def grep : Tool := fun _ name args => do
  match parse options (args.length + 1) args with
  | .error e =>
    warn name e
    usage name
  | .ok (os, operands) => do
    let given := (os.filter (·.1 == 'e')).map (·.2)
    let fromFile ← match argument? os 'f' with
      | some path =>
        match ← readOperand path with
        | .ok s => pure (some (lines s).1)
        | .error e =>
          return ← failure name s!"{path}: {e.text}" 2
      | none => pure none
    let (texts, operands) := match given ++ fromFile.getD [] with
      | [] =>
        if fromFile.isSome then (some [], operands)
        else (operands.head?.map fun p => [p], operands.tail)
      | l => (some l, operands)
    let number (c : Char) : Except String (Option Nat) :=
      match argument? os c with
      | none => .ok none
      | some s =>
        match decimal? s with
        | some n => .ok (some n)
        | none =>
          .error (if c == 'm' then "invalid max count"
            else s!"{s}: invalid context length argument")
    let numbers : Except String (Option Nat × Nat × Nat) := do
      let m ← number 'm'
      let c ← number 'C'
      return (m, ((← number 'B') <|> c).getD 0, ((← number 'A') <|> c).getD 0)
    match texts, numbers with
    | none, _ => usage name
    | _, .error e => failure name e 2
    | some texts, .ok (limit, before, after) =>
      match readPatterns os texts with
      | .error e =>
        failure name (if e == .bracket then "Invalid regular expression" else e.text) 2
      | .ok patterns => do
        let extent : Extent := if has os 'x' then .line else if has os 'w' then .word else .anywhere
        let q : Query := ⟨patterns, extent, has os 'i' || has os 'y', has os 'v'⟩
        let names := (operands.length > 1 || has os 'H') && !has os 'h'
        let style : Style := ⟨names, has os 'n', has os 'o', before, after⟩
        let mut found := false
        let mut failed := false
        for path in (if operands.isEmpty then ["-"] else operands) do
          let shown := if path = "-" then "(standard input)" else path
          match ← readOperand path with
          | .error e =>
            if !has os 's' then warn name s!"{shown}: {e.text}"
            failed := true
          | .ok s =>
            let selected := mark q limit (lines s).1
            let n := selected.countP (·.1)
            if n > 0 then found := true
            if has os 'q' then pure ()
            else if has os 'l' || has os 'L' then
              if (n > 0) == has os 'l' then Sh.print 1 (shown ++ "\n")
            else
              let out := if has os 'c' then (if names then shown ++ ":" else "") ++ s!"{n}\n"
                else style.show q shown selected
              if !out.isEmpty then
                if (← finish name out 0) != 0 then failed := true
        return if has os 'q' && found then 0 else if failed then 2 else if found then 0 else 1

end RabinReward.Shell.Tool.Search
