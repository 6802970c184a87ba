import RabinReward.Shell.Mode
import RabinReward.Shell.Redirect
import RabinReward.Shell.Utility.Options
import RabinReward.Shell.Utility.Signals

/-!
# Utilities that change the shell

Each takes its arguments and gives a status. They set variables, arguments, options, aliases, traps
and the directory; they read lines and command-line options.
-/

namespace RabinReward.Shell.Utility

/-- Splits an argument at its first equals sign. -/
def splitAssignment (s : String) : String × Option String :=
  let name := s.toList.takeWhile (· != '=')
  match s.toList.drop name.length with
  | _ :: value => (String.ofList name, some (String.ofList value))
  | [] => (s, none)

/-! ## Variables -/

/-- The variables that a filter accepts, as commands that set them. -/
def listVariables (front : String) (keep : Variable → Bool) : Sh Unit := do
  let vars := (← Sh.process).vars.filter fun (_, v) => keep v
  let vars := vars.mergeSort fun a b => !(b.1 < a.1)
  vars.forM fun (x, v) =>
    let value := match v.value with
      | some s => "=" ++ singleQuoted s
      | none => ""
    Sh.print 1 s!"{front}{x}{value}\n"

/-- Gives a variable an attribute, and a value if there is one. -/
def declare (change : Variable → Variable) (arg : String) : Sh Unit := do
  let (x, value) := splitAssignment arg
  Sh.checkName x
  if let some v := value then Sh.setValue x v false
  let v := (← Sh.entry? x).getD ⟨none, false, false⟩
  Sh.putVariable x (change v)

/-- `export` and `readonly`, which list the variables that they would change if there is no
operand. -/
def declareAll (name : String) (args : List String) : Sh Nat := do
  let (options, args) ← Sh.options "p" args
  let change (v : Variable) : Variable :=
    if name = "export" then { v with exported := true } else { v with constant := true }
  if args.isEmpty || !options.isEmpty then
    listVariables (name ++ " ") fun v => if name = "export" then v.exported else v.constant
  else args.forM (declare change)
  return 0

/-- Keeps what a variable is, so that it can be restored when the function ends. -/
def save (x : String) : Sh Unit := do
  let old ← Sh.entry? x
  Sh.modifyProcess fun p =>
    match p.saved with
    | frame :: frames => { p with saved := ((x, old) :: frame) :: frames }
    | [] => p

def makeLocal (args : List String) : Sh Nat := do
  if (← Sh.process).saved.isEmpty then Sh.fail "not in a function"
  args.forM fun arg => do
    let (x, value) := splitAssignment arg
    if x != "-" then
      Sh.checkName x
      save x
      match value with
      | some v => Sh.setValue x v false
      | none => if (← Sh.entry? x).isNone then Sh.putVariable x ⟨none, false, false⟩
  return 0

/-- Restores the variables of the innermost frame and drops it. -/
def restoreFrame : Sh Unit := do
  match (← Sh.process).saved with
  | [] => return ()
  | frame :: frames =>
    frame.forM fun (x, old) =>
      match old with
      | some v => Sh.putVariable x v
      | none => Sh.modifyProcess fun p => { p with vars := p.vars.filter (·.1 != x) }
    Sh.modifyProcess fun p => { p with saved := frames }

def unsetAll (args : List String) : Sh Nat := do
  let (options, args) ← Sh.options "fv" args
  let functions := (options.getLast?.map (·.1)) = some 'f'
  args.forM fun x => do
    if functions then
      Sh.modifyProcess fun p => { p with functions := p.functions.filter (·.1 != x) }
    else
      let name := String.ofList (x.toList.takeWhile (· != '='))
      Sh.checkName name
      Sh.unsetValue name
  return 0

/-! ## Arguments and options of the shell -/

def optionNames : List (String × Char) :=
  [("errexit", 'e'), ("noglob", 'f'), ("ignoreeof", 'I'), ("interactive", 'i'), ("monitor", 'm'),
    ("noexec", 'n'), ("stdin", 's'), ("xtrace", 'x'), ("verbose", 'v'), ("vi", 'V'),
    ("emacs", 'E'), ("noclobber", 'C'), ("allexport", 'a'), ("notify", 'b'), ("nounset", 'u'),
    ("privileged", 'p'), ("nolog", '\x00'), ("debug", '\x00')]

/-- What a shell says that is to control jobs, for which it lacks a terminal. -/
def noTerminal : String := "can't access tty; job control turned off"

def setOption (on : Bool) (name : String) : Sh Unit := do
  if on && name == "monitor" then Sh.complain noTerminal
  else
    Sh.modifyProcess fun p =>
      let others := p.options.filter (· != name)
      { p with options := if on then name :: others else others }

/-- The sign that sets or clears an option. -/
def signOf (on : Bool) : String := if on then "-" else "+"

def setLetter (on : Bool) (c : Char) : Sh Unit := do
  match optionNames.find? fun (_, d) => d != '\x00' && c == d with
  | some (name, _) => setOption on name
  | none => Sh.fail s!"Illegal option {signOf on}{c}"

def showOptions (on : Bool) : Sh Unit := do
  let p ← Sh.process
  if on then Sh.print 1 "Current option settings\n"
  optionNames.forM fun (name, _) =>
    let set := p.options.contains name
    if on then
      let gap := String.ofList (List.replicate (16 - name.length) ' ')
      Sh.print 1 (name ++ gap ++ (if set then "on\n" else "off\n"))
    else Sh.print 1 s!"set {signOf set}o {name}\n"

/-- Sets options by name, or shows them. -/
def namedOption (on : Bool) : List String → Sh (List String)
  | [] => do
    showOptions on
    return []
  | name :: ws => do
    if optionNames.any (·.1 == name) then setOption on name
    else Sh.fail s!"Illegal option {signOf on}o {name}"
    return ws

/-- What is left of arguments once options are taken off the front. -/
structure AfterOptions where
  rest : List String
  /-- Whether the rest becomes the arguments of the shell even if it is empty. -/
  replaces : Bool
  /-- Whether the first word of the rest is a script. -/
  isScript : Bool
  deriving Repr

/-- Takes options off the front of arguments. Only on the command line of a shell `c` is one. -/
def shellOptions (commandLine : Bool) : Nat → List String → Sh AfterOptions
  | 0, ws => return ⟨ws, false, false⟩
  | _, [] => return ⟨[], false, false⟩
  | n + 1, w :: ws => do
    match w.toList with
    | ['-', '-'] => return ⟨ws, true, false⟩
    | ['-'] =>
      setOption false "xtrace"
      setOption false "verbose"
      return ⟨ws, false, false⟩
    | sign :: cs =>
      if sign == '-' || sign == '+' then
        let on := sign == '-'
        let mut rest := ws
        let mut isScript := false
        for c in cs do
          if c == 'c' && commandLine then isScript := true
          else if c == 'o' then rest ← namedOption on rest
          else if !(c == 'l' && commandLine) then setLetter on c
        let after ← shellOptions commandLine n rest
        return { after with isScript := after.isScript || isScript }
      else return ⟨w :: ws, false, false⟩
    | [] => return ⟨w :: ws, false, false⟩

def setArguments (l : List String) : Sh Unit := Sh.modifyProcess fun p =>
  { p with arguments := l, optionNext := 1, optionOffset := 0 }

def setShell (args : List String) : Sh Nat := do
  if args.isEmpty then listVariables "" fun v => v.value.isSome
  else
    let after ← shellOptions false (args.length + 1) args
    if after.replaces || !after.rest.isEmpty then setArguments after.rest
  return 0

def shiftArguments (args : List String) : Sh Nat := do
  let n ← match args with
    | a :: _ => Sh.number a
    | [] => pure 1
  let l := (← Sh.process).arguments
  if n > l.length then Sh.fail "can't shift that many"
  setArguments (l.drop n)
  return 0

/-! ## Command-line options -/

/-- The word that the option in front of an operand stands in, from the given offset on. -/
def currentOption (words : List String) (next offset : Nat) : List Char :=
  if next ≤ 1 || offset = 0 then []
  else ((words[next - 2]?).getD "").toList.drop offset

/-- The result of looking for an option: the letter, its argument, the next operand and the offset
in the word before it. -/
structure FoundOption where
  letter : Char
  argument : Option String
  next : Nat
  offset : Nat
  ended : Bool
  complaint : Option String

/-- Looks for the option at a place, given the rest of its word and the number of the next one. -/
def findOption (spec : List Char) (words : List String) (cs : List Char) (next : Nat) :
    FoundOption :=
  match cs with
  | [] => ⟨'?', none, next, 0, true, none⟩
  | c :: cs =>
    let quiet := spec.head? = some ':'
    let offset := ((words[next - 2]?).getD "").length - cs.length
    match optionKind? spec c with
    | none =>
      if quiet then ⟨'?', some (String.singleton c), next, offset, false, none⟩
      else ⟨'?', none, next, offset, false, some s!"Illegal option -{c}"⟩
    | some false => ⟨c, some "", next, offset, false, none⟩
    | some true =>
      if !cs.isEmpty then ⟨c, some (String.ofList cs), next, 0, false, none⟩
      else
        match words[next - 1]? with
        | some a => ⟨c, some a, next + 1, 0, false, none⟩
        | none =>
          if quiet then ⟨':', some (String.singleton c), next, 0, false, none⟩
          else ⟨'?', none, next, 0, false, some s!"No arg for -{c} option"⟩

def nextOption (spec : List Char) (words : List String) (next offset : Nat) : FoundOption :=
  let next := if next = 0 then 1 else next
  match currentOption words next offset with
  | [] =>
    match (words[next - 1]?).map (·.toList) with
    | some ['-', '-'] => ⟨'?', none, next + 1, 0, true, none⟩
    | some ('-' :: c :: cs) => findOption spec words (c :: cs) (next + 1)
    | _ => ⟨'?', none, next, 0, true, none⟩
  | cs => findOption spec words cs next

def readOption (args : List String) : Sh Nat := do
  match args with
  | spec :: x :: words =>
    let p ← Sh.process
    let words := if words.isEmpty then p.arguments else words
    let beyond := p.optionNext > words.length + 1
    let r := nextOption spec.toList words (if beyond then 1 else p.optionNext)
      (if beyond then 0 else p.optionOffset)
    if let some text := r.complaint then Sh.print 2 (text ++ "\n")
    match r.argument with
    | some a => Sh.setValue "OPTARG" a false
    | none => if !r.ended then Sh.unsetValue "OPTARG"
    Sh.setValue "OPTIND" (Nat.repr r.next) false
    Sh.checkName x
    Sh.setValue x (String.singleton r.letter) false
    Sh.modifyProcess fun p => { p with optionNext := r.next, optionOffset := r.offset }
    return if r.ended then 1 else 0
  | _ => Sh.fail "Usage: getopts optstring var [arg...]"

/-! ## Reading lines -/

/-- The cells of a line, how many bytes it takes, and whether it has an end. A backslash protects
the byte behind it, and joins the next line. -/
def lineCells (raw : Bool) : List Char → List Cell × Nat × Bool
  | [] => ([], 0, false)
  | '\n' :: _ => ([], 1, true)
  | '\x00' :: cs =>
    let (l, n, ended) := lineCells raw cs
    (l, n + 1, ended)
  | '\\' :: c :: cs =>
    if raw then
      let (l, n, ended) := lineCells raw (c :: cs)
      (.byte '\\' false .open :: l, n + 1, ended)
    else
      let (l, n, ended) := lineCells raw cs
      if c = '\n' then (.seam false :: l, n + 2, ended)
      else (.byte c true .fixed :: .seam false :: l, n + 2, ended)
  | ['\\'] => if raw then ([.byte '\\' false .open], 1, false) else ([], 1, false)
  | c :: cs =>
    let (l, n, ended) := lineCells raw cs
    (.byte c false .open :: l, n + 1, ended)

def assignFields : List String → List (List Cell) → Sh Unit
  | [], _ => return ()
  | x :: xs, [] => do
    Sh.checkName x
    Sh.setValue x "" false
    assignFields xs []
  | x :: xs, l :: ls => do
    Sh.checkName x
    Sh.setValue x (Expand.cellText l) false
    assignFields xs ls

def readLine (args : List String) : Sh Nat := do
  let (options, names) ← Sh.options "p:r" args
  if names.isEmpty then Sh.fail "arg count"
  let raw := options.any (·.1 == 'r')
  let pending ←
    match ← Sh.descriptor? 0 with
    | some c => pure ((← Sh.files).pending c)
    | none => pure []
  let (cells, n, ended) := lineCells raw pending
  if let some c ← Sh.descriptor? 0 then Sh.setFiles ((← Sh.files).advance c n)
  let separators := ((← Sh.separators).getD " \t\n").toList
  assignFields names (splitLineFields names.length separators cells)
  return if ended then 0 else 1
where
  splitLineFields (n : Nat) (separators : List Char) (cells : List Cell) : List (List Cell) :=
    Expand.splitFields (some n) separators (.seam false :: cells)

/-! ## Directories and masks -/

/-- The directories to look in for a path, and whether the one found is shown. A path that begins
with a dot or a slash is looked for where it says, others in `CDPATH` first. -/
def candidates (target : String) : Sh (List (String × Bool)) := do
  let here := [(target, false)]
  let parts := Files.pathParts target
  if target.startsWith "/" || parts.head? == some "." || parts.head? == some ".." then return here
  else
    match ← Sh.value? "CDPATH" with
    | none | some "" => return here
    | some path =>
      let dirs := (path.toList.splitOn ':').map String.ofList
      return (dirs.map fun d =>
        if d.isEmpty then (target, false) else (d ++ "/" ++ target, true)) ++ here

def changeDirectory (args : List String) : Sh Nat := do
  let (_, args) ← Sh.options "LP" args
  let p ← Sh.process
  let (target, shows) ←
    match args with
    | "-" :: _ => do pure ((← Sh.value? "OLDPWD").getD "", true)
    | d :: _ => pure (d, false)
    | [] => do pure ((← Sh.value? "HOME").getD "", false)
  if target.isEmpty && args.isEmpty then return 0
  let target := if target.isEmpty then "." else target
  let f ← Sh.files
  match (← candidates target).find? fun (d, _) =>
      f.isDirectory (Files.absolute p.directory d) with
  | some (d, announces) =>
    let path := Files.absolute p.directory d
    Sh.setValue "OLDPWD" p.directory true
    Sh.setValue "PWD" path true
    Sh.modifyProcess fun p => { p with directory := path }
    if shows || announces then Sh.print 1 (path ++ "\n")
    return 0
  | none => Sh.fail s!"can't cd to {target}"

def printDirectory (args : List String) : Sh Nat := do
  let _ ← Sh.options "LP" args
  Sh.print 1 ((← Sh.process).directory ++ "\n")
  return 0

def setMask (args : List String) : Sh Nat := do
  let (options, args) ← Sh.options "S" args
  match args with
  | [] =>
    let mask := (← Sh.process).umask
    Sh.print 1 ((if options.isEmpty then octal4 mask else symbolicMask mask) ++ "\n")
  | m :: _ =>
    let mask := (← Sh.process).umask
    let isNumber := m.toList.head?.any isDigit
    match changedMode? m (if isNumber then mask else 0o777 ^^^ mask) with
    | some n =>
      let mask := if isNumber then n % 0o1000 else 0o777 ^^^ (n % 0o1000)
      Sh.modifyProcess fun p => { p with umask := mask }
    | none => Sh.fail (if isNumber then s!"Illegal number: {m}" else s!"Illegal mode: {m}")
  return 0

/-- `ulimit`: there are no limits, and those that are set do not matter. -/
def limit (args : List String) : Sh Nat := do
  let (_, args) ← Sh.options "HSatfdscmlpnvwr" args
  match args with
  | [] => Sh.print 1 "unlimited\n"
  | n :: _ =>
    if n != "unlimited" && (decimal? n).isNone then Sh.fail "bad number"
  return 0

/-! ## Aliases -/

/-- The place of a name in the table of aliases, by which they are listed. -/
def aliasPlace (name : String) : Nat :=
  let cs := name.toList
  cs.foldl (fun n c => n + c.toNat) ((cs.head?.getD '\x00').toNat * 16) % 39

def showAlias (x text : String) : Sh Unit := Sh.print 1 s!"{x}={singleQuoted text}\n"

def defineAlias (args : List String) : Sh Nat := do
  let table := (← Sh.process).aliases
  if args.isEmpty then
    let sorted := table.mergeSort fun a b => aliasPlace a.1 ≤ aliasPlace b.1
    sorted.forM fun (x, text) => showAlias x text
    return 0
  else
    let mut status := 0
    for arg in args do
      match splitAssignment arg with
      | (x, some text) =>
        if x.isEmpty then
          Sh.print 2 s!"alias: {arg} not found\n"
          status := 1
        else
          Sh.modifyProcess fun p => { p with aliases := Sh.putPair x text p.aliases }
      | (x, none) =>
        match (← Sh.process).aliases.find? (·.1 == x) with
        | some (_, text) => showAlias x text
        | none =>
          Sh.print 2 s!"alias: {x} not found\n"
          status := 1
    return status

def removeAlias (args : List String) : Sh Nat := do
  let (options, args) ← Sh.options "a" args
  if !options.isEmpty then
    Sh.modifyProcess fun p => { p with aliases := [] }
    return 0
  let mut status := 0
  for x in args do
    if (← Sh.process).aliases.any (·.1 == x) then
      Sh.modifyProcess fun p => { p with aliases := p.aliases.filter (·.1 != x) }
    else
      Sh.print 2 s!"unalias: {x} not found\n"
      status := 1
  return status

/-! ## Signals -/

/-- Sets the traps of the given signals. -/
def setTraps (action : Option String) : List String → Sh Nat
  | [] => return 0
  | s :: ss => do
    match signal? s with
    | none =>
      Sh.print 2 s!"trap: {s}: bad trap\n"
      return 1
    | some n =>
      let name := signalName n
      Sh.modifyProcess fun p =>
        { p with traps := match action with
            | some a => Sh.putPair name a p.traps
            | none => p.traps.filter (·.1 != name) }
      setTraps action ss

def setTrap (args : List String) : Sh Nat := do
  let (_, args) ← Sh.options "" args
  match args with
  | [] =>
    let traps := (← Sh.process).traps
    signalNames.forM fun name => do
      if let some (_, action) := traps.find? (·.1 == name) then
        Sh.print 1 s!"trap -- {singleQuoted action} {name}\n"
    return 0
  | [s] => setTraps none [s]
  | a :: ss =>
    if (signalNumber? a).isSome then setTraps none args
    else setTraps (if a = "-" then none else some a) ss

/-- Sends a signal to a process. -/
def send (signal pid : Nat) : Sh Nat := do
  let p ← Sh.process
  let known := pid = p.pid || pid = p.rootPid || p.jobs.contains pid
  if !known then
    Sh.complain "No such process\n"
    return 1
  else if signal = 0 then return 0
  else
    modify fun m => { m with signals := m.signals ++ [(pid, signal)] }
    return 0

def listSignals : List String → Sh Nat
  | [] => do
    Sh.print 1 "0\n"
    (signalNames.tail).forM fun s => Sh.print 1 (s ++ "\n")
    return 0
  | s :: _ => do
    let n ← Sh.number s
    let n := if n > 128 then n - 128 else n
    if 0 < n && n < 65 then
      Sh.print 1 (signalName n ++ "\n")
      return 0
    else Sh.fail s!"invalid signal number or exit status: {s}"

def killUsage {α : Type} : Sh α :=
  Sh.fail ("Usage: kill [-s sigspec | -signum | -sigspec] [pid | job]... or\n" ++
    "kill -l [exitstatus]")

def sendAll (signal : Nat) (pids : List String) : Sh Nat := do
  if pids.isEmpty then killUsage
  let l ← pids.mapM fun s => do send signal (← Sh.number s)
  return l.foldl max 0

def sendSignal (args : List String) : Sh Nat := do
  match args with
  | [] => killUsage
  | first :: rest =>
    match first.toList with
    | '-' :: cs =>
      match (signal? (String.ofList cs)).filter (· != 0) with
      | some n => sendAll n rest
      | none =>
        if cs = ['0'] then sendAll 0 rest
        else
          let (options, args) ← Sh.options "ls:" args
          match options with
          | ('s', name) :: _ =>
            match signal? name with
            | some n => sendAll n args
            | none => Sh.fail s!"invalid signal number or name: {name}"
          | ('l', _) :: _ => listSignals args
          | _ => sendAll 15 args
    | _ => sendAll 15 args

end RabinReward.Shell.Utility
