import RabinReward.Shell.Tool.Edit.Program
import RabinReward.Shell.Tool.Place

/-!
# The program `sed`

It reads line after line into a pattern space, runs the commands of its program on it, and prints it
at the end of each cycle. A second space holds text from one cycle to the next.
-/

namespace RabinReward.Shell.Tool.Edit

/-- Where a command with two addresses stands. -/
inductive Range where
  | outside
  /-- Inside, up to a line if that is known. -/
  | inside (stop : Option Nat)
  | finished
  deriving DecidableEq, Repr, Inhabited

structure State where
  space : String
  held : String
  /-- The number of the current line. -/
  line : Nat
  /-- Lines to come; the last one may lack its end. -/
  rest : List String
  /-- Whether the last line of the input has its end. -/
  ended : Bool
  /-- Output, the last piece first. -/
  out : List String
  /-- Whether the output lacks the end of its last line. -/
  isOpen : Bool
  /-- What is printed at the end of the cycle, the last piece first. -/
  queue : List String
  ranges : Array Range
  substituted : Bool
  lastPattern : Option Regex
  /-- What is written to files, the last piece first. -/
  writes : List (String × String)

structure Settings where
  quiet : Bool
  /-- What files hold that are read in between. -/
  files : List (String × String)

/-- Why a cycle ends. -/
inductive Ending where
  /-- The pattern space is printed unless that is off. -/
  | done
  /-- The pattern space is dropped. -/
  | dropped
  /-- A new cycle without a new line. -/
  | again
  | quit (shows : Bool) (status : Nat)
  deriving DecidableEq, Repr

abbrev Run := StateT State (Except String)

/-- Whether the current line is the last one. -/
def isLast : Run Bool := return (← get).rest.isEmpty

/-- Prints a text; a line that lacked its end gets it first. -/
def put (s : String) (ended : Bool) : Run Unit := modify fun st =>
  let front := if st.isOpen then ["\n"] else []
  { st with out := (if ended then s ++ "\n" else s) :: front ++ st.out, isOpen := !ended }

/-- Prints the text of a command. -/
def putText (s : String) : Run Unit := do
  if !s.isEmpty then put (String.ofList s.toList.dropLast) true

/-- Prints the pattern space as the current line. -/
def putSpace : Run Unit := do
  let st ← get
  put st.space (!st.rest.isEmpty || st.ended)

def subject (s : String) (ignoreCase multiline : Bool) : Regex.Subject :=
  ⟨s.toList.toArray, ignoreCase, multiline⟩

/-- The pattern that is meant; an empty one is the last one used. -/
def patternOf (r : Option Regex) : Run Regex := do
  let last := (← get).lastPattern
  match r <|> last with
  | some r =>
    modify fun st => { st with lastPattern := some r }
    return r
  | none => throw "no previous regular expression"

/-- Whether the current line is at an address. -/
def atAddress (a : Address) : Run Bool := do
  let st ← get
  match a with
  | .line n => return st.line == n
  | .last => isLast
  | .pattern r i m =>
    let r ← patternOf r
    return (r.search? (subject st.space i m) 0).isSome
  | .every start step =>
    if step = 0 then return st.line == start
    else return st.line ≥ start && (st.line - start) % step = 0
  | .plus _ | .multiple _ => return false

/-- The line at which a range ends, if that is known when it begins. -/
def rangeEnd? (line : Nat) : Address → Option Nat
  | .line n => some n
  | .plus n => some (line + n)
  | .multiple n => some (if n = 0 then line else (line / n + 1) * n)
  | _ => none

/-- Whether a command applies to the current line. -/
def selects (i : Nat) (c : Command) : Run Bool := do
  let st ← get
  let setRange (r : Range) : Run Unit := modify fun st => { st with ranges := st.ranges.set! i r }
  let hit : Bool ←
    match c.first, c.second with
    | none, _ => pure true
    | some a, none => atAddress a
    | some a, some b =>
      let starts : Run Bool := do
        if ← atAddress a then
          match rangeEnd? st.line b with
          | some n => if n > st.line then setRange (.inside (some n))
          | none => setRange (.inside none)
          return true
        else return false
      match (st.ranges[i]?).getD .outside with
      | .inside (some n) =>
        if st.line ≥ n then setRange .finished
        if st.line > n then starts else pure true
      | .inside none =>
        if ← atAddress b then setRange .finished
        pure true
      | .finished =>
        match a with
        | .line _ => pure false
        | _ => starts
      | .outside => starts
  return hit != c.negated

/-! ## Substitution -/

/-- Applies the letters that change case: one for the next byte, and one for all that follow. -/
def insert (m : Regex.Match) (bytes : Array Char) :
    Option Char → Option Char → List Insertion → List Char
  | _, _, [] => []
  | next, all, i :: is =>
    match i with
    | .letters c =>
      if c == 'l' || c == 'u' then insert m bytes (some c) all is
      else insert m bytes none (if c == 'E' then none else some c) is
    | .byte c => change next all [c] ++ insert m bytes none all is
    | .group n =>
      let held := if n = 0 then some (m.start, m.stop)
        else (m.groups.find? (·.1 == n)).map (·.2)
      match held with
      | some (a, b) =>
        let cs := (bytes.extract a b).toList
        change next all cs ++ insert m bytes (if cs.isEmpty then next else none) all is
      | none => insert m bytes next all is
where
  change (next all : Option Char) (cs : List Char) : List Char :=
    let cs := match all with
      | some 'U' => cs.map toUpper
      | some 'L' => cs.map toLower
      | _ => cs
    match next, cs with
    | some 'u', c :: r => toUpper c :: r
    | some 'l', c :: r => toLower c :: r
    | _, cs => cs

/-- Replaces matches from a position on; `count` matches came before. Gives the result backwards and
whether anything was replaced. The number bounds the matches. -/
def replace (s : Substitution) (r : Regex) (text : Regex.Subject) :
    Nat → Nat → Nat → Option Nat → List Char → Bool → List Char × Bool
  | 0, i, _, _, acc, any => (((text.bytes.extract i text.bytes.size).toList).reverse ++ acc, any)
  | n + 1, i, count, before, acc, any =>
    let rest (i : Nat) : List Char := (text.bytes.extract i text.bytes.size).toList
    match if i ≤ text.bytes.size then r.search? text i else none with
    | none => ((rest i).reverse ++ acc, any)
    | some m =>
      let acc := (text.bytes.extract i m.start).toList.reverse ++ acc
      let matched := (text.bytes.extract m.start m.stop).toList
      let isEmpty := m.stop == m.start
      let skipped := isEmpty && before == some m.start
      let count := if skipped then count else count + 1
      let replaces := !skipped && count ≥ max s.number 1
      let acc := if replaces then (insert m text.bytes none none s.insertions).reverse ++ acc
        else matched.reverse ++ acc
      let any := any || replaces
      if replaces && !s.everywhere then ((rest m.stop).reverse ++ acc, any)
      else if isEmpty then
        match text.bytes[m.stop]? with
        | some c => replace s r text n (m.stop + 1) count (some m.stop) (c :: acc) any
        | none => (acc, any)
      else replace s r text n m.stop count (some m.stop) acc any

def write (path s : String) : Run Unit := do
  if path = "/dev/stdout" then put s true
  else modify fun st => { st with writes := (path, s ++ "\n") :: st.writes }

def substitute (s : Substitution) : Run Unit := do
  let st ← get
  let r ← patternOf s.pattern
  let text := subject st.space s.ignoreCase s.multiline
  let (out, any) := replace s r text (text.bytes.size + 2) 0 0 none [] false
  if any then
    modify fun st => { st with space := String.ofList out.reverse, substituted := true }
    if s.shows then putSpace
    if let some path := s.file then write path (← get).space

/-! ## Commands -/

/-- Takes the next line into the pattern space. -/
def nextLine (join : Bool) : Run Bool := do
  let st ← get
  match st.rest with
  | [] => return false
  | l :: ls =>
    set { st with
      space := if join then st.space ++ "\n" ++ l else l, rest := ls, line := st.line + 1 }
    return true

/-- Prints what was put off to the end of the cycle. -/
def flush : Run Unit := do
  let st ← get
  set { st with queue := [] }
  st.queue.reverse.forM fun s => do
    if s.endsWith "\n" then put (String.ofList s.toList.dropLast) true
    else if !s.isEmpty then put s false

/-- The pattern space with all bytes made visible, in lines of a width. -/
def listed (width : Nat) (s : String) : String :=
  let pieces := s.toList.map fun c =>
    if c == '\\' then ['\\', '\\']
    else if isPrint c then [c]
    else escaped c
  let limit := width - 1
  let rec wrap : List (List Char) → Nat → List Char
    | [], _ => ['$']
    | p :: ps, n =>
      if width > 1 && n + p.length > limit then '\\' :: '\n' :: (p ++ wrap ps p.length)
      else p ++ wrap ps (n + p.length)
  String.ofList (wrap pieces 0)

/-- The first line of a text, and what is behind it if there is more. -/
def splitLine (s : String) : String × Option String :=
  let front := s.toList.takeWhile (· != '\n')
  match s.toList.drop front.length with
  | [] => (s, none)
  | _ :: rest => (String.ofList front, some (String.ofList rest))

/-- What a command leads to. -/
inductive Outcome where
  | next
  | goto (i : Nat)
  | ends (e : Ending)

/-- The index behind the end of a group. -/
def behindGroup (p : Program) : Nat → Nat → Nat → Nat
  | 0, i, _ => i
  | n + 1, i, depth =>
    match (p.commands[i]?).map Command.action with
    | none => i
    | some .opening => behindGroup p n (i + 1) (depth + 1)
    | some .closing => if depth = 0 then i + 1 else behindGroup p n (i + 1) (depth - 1)
    | some _ => behindGroup p n (i + 1) depth

def labelAt (p : Program) (name : String) : Nat :=
  if name.isEmpty then p.commands.size
  else
    (p.commands.toList.findIdx? fun c => match c.action with
      | .label l => l == name
      | _ => false).getD p.commands.size

/-- Carries out a command that is a letter. -/
def plain (settings : Settings) (c : Char) : Run Outcome := do
  let st ← get
  match c with
  | '=' =>
    put (toString st.line) true
    return .next
  | 'd' => return .ends .dropped
  | 'D' =>
    match splitLine st.space with
    | (_, none) => return .ends .dropped
    | (_, some rest) =>
      set { st with space := rest }
      return .ends .again
  | 'F' =>
    put "-" true
    return .next
  | 'g' =>
    set { st with space := st.held }
    return .next
  | 'G' =>
    set { st with space := st.space ++ "\n" ++ st.held }
    return .next
  | 'h' =>
    set { st with held := st.space }
    return .next
  | 'H' =>
    set { st with held := st.held ++ "\n" ++ st.space }
    return .next
  | 'x' =>
    set { st with space := st.held, held := st.space }
    return .next
  | 'z' =>
    set { st with space := "" }
    return .next
  | 'p' =>
    putSpace
    return .next
  | 'P' =>
    put (splitLine st.space).1 true
    return .next
  | 'n' =>
    if st.rest.isEmpty then return .ends (.quit true 0)
    else
      if !settings.quiet then putSpace
      flush
      discard (nextLine false)
      return .next
  | _ =>
    flush
    if ← nextLine true then return .next else return .ends (.quit true 0)

def perform (settings : Settings) (p : Program) (i : Nat) (c : Command) : Run Outcome := do
  let st ← get
  match c.action with
  | .opening | .closing | .label _ => return .next
  | .jump kind name =>
    if kind == 'b' then return .goto (labelAt p name)
    else
      set { st with substituted := false }
      if st.substituted == (kind == 't') then return .goto (labelAt p name) else return .next
  | .text 'a' s =>
    set { st with queue := s :: st.queue }
    return .next
  | .text 'i' s =>
    putText s
    return .next
  | .text _ s =>
    let inside := match (st.ranges[i]?).getD .outside with
      | .inside _ => true
      | _ => false
    if !inside || c.negated then putText s
    return .ends .dropped
  | .substitute s =>
    substitute s
    return .next
  | .exchange pairs =>
    let change (b : Char) : Char := ((pairs.find? (·.1 == b)).map (·.2)).getD b
    set { st with space := String.ofList (st.space.toList.map change) }
    return .next
  | .quit kind status => return .ends (.quit (kind == 'q') status)
  | .file 'r' path =>
    match settings.files.find? (·.1 == path) with
    | some (_, s) => set { st with queue := s :: st.queue }
    | none => pure ()
    return .next
  | .file _ path =>
    write path st.space
    return .next
  | .list width =>
    put (listed width st.space) true
    return .next
  | .plain c => plain settings c

/-- Runs commands from an index on; the number bounds the steps. -/
def cycle (settings : Settings) (p : Program) : Nat → Nat → Run Ending
  | 0, _ => throw "no end of the cycle"
  | n + 1, i => do
    match p.commands[i]? with
    | none => return .done
    | some c =>
      if ← selects i c then
        match ← perform settings p i c with
        | .next => cycle settings p n (i + 1)
        | .goto j => cycle settings p n j
        | .ends e => return e
      else
        match c.action with
        | .opening => cycle settings p n (behindGroup p p.commands.size (i + 1) 0)
        | _ => cycle settings p n (i + 1)

def stepLimit : Nat := 1000000

/-- Runs cycles until the input ends; the number bounds them. Gives the status. -/
def cycles (settings : Settings) (p : Program) : Nat → Bool → Run Nat
  | 0, _ => return 0
  | n + 1, keeps => do
    let more ← if keeps then pure true else nextLine false
    if !more then return 0
    else
      modify fun st => { st with substituted := st.substituted && keeps }
      match ← cycle settings p stepLimit 0 with
      | .done =>
        if !settings.quiet then putSpace
        flush
        cycles settings p n false
      | .dropped =>
        flush
        cycles settings p n false
      | .again =>
        flush
        cycles settings p n true
      | .quit shows status =>
        if shows && !settings.quiet then putSpace
        if shows then flush
        return status

/-- Runs a program on a text, with something in the second space. -/
def edit (settings : Settings) (p : Program) (text : String) (held : String) :
    Except String (State × Nat) := do
  let (ls, ended) := lines text
  let ranges := p.commands.map fun c =>
    match c.first with
    | some (.line 0) => Range.inside none
    | _ => .outside
  let start : State :=
    { space := "", held, line := 0, rest := ls, ended, out := [], isOpen := false, queue := []
      ranges, substituted := false, lastPattern := none, writes := [] }
  let (status, st) ← (cycles settings p stepLimit false).run start
  return (st, status)

/-! ## The command line -/

def options : OptionTable :=
  { short := "ne:f:Eri::suz", first := false
    long := [("quiet", 'n', .nothing), ("silent", 'n', .nothing), ("expression", 'e', .argument),
      ("file", 'f', .argument), ("regexp-extended", 'E', .nothing), ("in-place", 'i', .maybe),
      ("separate", 's', .nothing), ("unbuffered", 'u', .nothing)] }

/-- The file names that a program reads from. -/
def Program.inputs (p : Program) : List String :=
  p.commands.toList.filterMap fun c => match c.action with
    | .file 'r' path => some path
    | _ => none

/-- Writes what a program wrote to files. -/
def writeFiles (writes : List (String × String)) : Sh Unit := do
  let paths := (writes.map (·.1)).eraseDups
  paths.forM fun path => do
    let text := String.join ((writes.filter (·.1 == path)).map (·.2))
    match ← Redirect.openFile .clobber false path with
    | .ok c =>
      match (← Sh.files).write c text with
      | .ok f => Sh.setFiles f
      | .error _ => pure ()
    | .error _ => pure ()

/-- Writes a text over a file. -/
def overwriteFile (path s : String) : Sh Unit := writeFiles [(path, s)]

def usage (name : String) : Sh Nat := do
  let script := "\x7bscript-only-if-no-other-script\x7d"
  Sh.print 2 (s!"Usage: {name} [OPTION]... " ++ script ++ " [input-file]...\n\n")
  return 1

def sed : Tool := fun _ name args => do
  withOptions name 1 options args fun os operands => do
    let mut scripts := []
    for (c, s) in os do
      if c == 'e' then scripts := scripts ++ [s]
      else if c == 'f' then
        match ← readOperand s with
        | .ok text => scripts := scripts ++ [text]
        | .error e => return ← failure name s!"couldn't open file {s}: {e.text}" 4
    let (script, operands) := if scripts.isEmpty then
        match operands with
        | s :: rest => (some s, rest)
        | [] => (none, [])
      else (some (joinWith "\n" scripts), operands)
    match script with
    | none => usage name
    | some script =>
      match Program.ofText? (has os 'E' || has os 'r') script with
      | .error (text, place) =>
        failure name s!"-e expression #1, char {place}: {text}" 1
      | .ok p =>
        if let some label := p.missingLabel? then
          return ← failure name ("can't find label for jump to \x60" ++ label ++ "'") 4
        let files ← p.inputs.filterMapM fun path => do
          match ← readOperand path with
          | .ok s => return some (path, s)
          | .error _ => return none
        let settings : Settings := ⟨has os 'n' || p.quiet, files⟩
        let wording : Wording := fun path e =>
          match e with
          | .isDirectory =>
            if has os 'i' then s!"couldn't edit {path}: not a regular file"
            else s!"read error on {path}: {e.text}"
          | .badDescriptor => s!"read error on stdin: {e.text}"
          | e => s!"can't read {path}: {e.text}"
        if has os 'i' && operands.isEmpty then return ← failure name "no input files" 4
        let (texts, status) ← readOperands name wording operands
        let directories ← operands.filterM isDirectory
        let status := if !directories.isEmpty || (status != 0 && has os 'i') then 4
          else if status != 0 then 2
          else 0
        let finishWith (r : Except String (State × Nat)) (use : String → Sh Nat) : Sh Nat := do
          match r with
          | .error e => failure name s!"-e expression #1, char 0: {e}" 1
          | .ok (st, n) =>
            writeFiles st.writes.reverse
            let m ← use (String.join st.out.reverse)
            return if n != 0 then n else m
        if has os 'i' then
          let mut result := status
          for (path, s) in texts do
            let n ← finishWith (edit settings p s "") fun out => do
              overwriteFile path out
              return 0
            if n != 0 then result := n
          return result
        else
          let joined := texts.foldl (fun acc (_, s) =>
            if acc.isEmpty || acc.endsWith "\n" then acc ++ s else acc ++ "\n" ++ s) ""
          finishWith (edit settings p joined "") fun out => finish name out status

end RabinReward.Shell.Tool.Edit
