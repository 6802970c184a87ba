import RabinReward.Shell.Print.Printf
import RabinReward.Shell.Tool.Basic
import RabinReward.Shell.Utility.Facts
import RabinReward.Shell.Utility.Lookup
import RabinReward.Shell.Utility.Variables

/-!
# Running commands

A runner executes a command and gives its status. Whether a failure counts is told by `tested`: the
condition of a branch or a loop may fail even where failures end the script. Subshells run on a copy
of the process and leave the files behind. The parts of a pipeline run one after the other, and a
command in the background runs when it is waited for or when its process ends.
-/

namespace RabinReward.Shell

/-- Runs a command; the first argument says whether its failure is tested. -/
abbrev Runner := Bool → Command → Sh Nat

/-- The programs that can be started. -/
abbrev Tools := String → Option Tool

namespace Run

/-! ## Processes -/

/-- Runs an action and undoes something afterwards, however the action ends. -/
def finally' {α : Type} (act : Sh α) (undo : Sh Unit) : Sh α := do
  let a ← tryCatch act fun e => do
    undo
    throw e
  undo
  return a

/-- Reads and runs a script line by line, beginning with what a source holds. -/
def script (run : Runner) (tested : Bool) : Nat → Source → Nat → Sh Nat
  | 0, _, status => return status
  | n + 1, source, status => do
    let p ← Sh.process
    let source := { source with aliases := p.aliases, documents := p.documents }
    match readLine?.run source with
    | .error e =>
      Sh.modifyProcess fun p => { p with line := e.line }
      Sh.fail e.text
    | .ok (none, source) =>
      Sh.modifyProcess fun p => { p with documents := source.documents }
      return status
    | .ok (some c, source) =>
      Sh.modifyProcess fun p => { p with documents := source.documents, readLine := source.line }
      let status ←
        match c with
        | .nothing => pure status
        | c => if ← Sh.optionSet "noexec" then pure status else run tested c
      if (← Sh.process).skip != .none then return status
      else script run tested n source status

def text (run : Runner) (tested : Bool) (s : String) : Sh Nat :=
  script run tested (s.length + 2) (.of s [] #[]) 0

/-- Runs the trap of a signal, and keeps the status. -/
def trap (run : Runner) (action : String) : Sh Unit := do
  let status := (← Sh.process).status
  let _ ← text run false action
  if (← Sh.process).skip != .function then Sh.setStatus status

/-- Handles one signal that has arrived. -/
def handleSignal (run : Runner) (n : Nat) : Sh Unit := do
  match (← Sh.process).traps.find? (·.1 == signalName n) with
  | some (_, action) => if action != "" then trap run action
  | none => if !isHarmless n then throw (.signal n)

/-- Handles the signals that have arrived. -/
def handleSignals (run : Runner) : Sh Unit := do
  let m ← get
  let (mine, others) := m.signals.partition (·.1 == m.process.pid)
  if !mine.isEmpty then
    set { m with signals := others }
    mine.forM fun (_, n) => handleSignal run n

/-- How a process ends. -/
inductive Ending where
  | status (n : Nat)
  | killed (signal : Nat)
  deriving DecidableEq, Repr, Inhabited

def Ending.number : Ending → Nat
  | .status n => n % 256
  | .killed n => 128 + n

/-- The ending of an action. -/
def ending (act : Sh Nat) : Sh Ending :=
  tryCatch (do return .status (← act)) fun
    | .signal n => return .killed n
    | .error | .exit => return .status (← Sh.process).status
    | .exhausted => throw .exhausted

/-- Runs the trap for the end of the process. -/
def exitTrap (run : Runner) (e : Ending) : Sh Ending := do
  match (← Sh.process).traps.find? (·.1 == "EXIT"), e with
  | some (_, action), .status n =>
    Sh.modifyProcess fun p =>
      { p with traps := p.traps.filter (·.1 != "EXIT"), skip := .none, status := n }
    let inner : Sh Nat := do
      let _ ← text run false action
      return n
    ending inner
  | _, _ => return e

/-- Takes the next command that waits in the background of a process. -/
def takeWaiting (pid : Nat) : Sh (Option Waiting) := modifyGet fun m =>
  match m.waiting.find? (·.process.pid == pid) with
  | some w => (some w, { m with waiting := m.waiting.filter (·.process.pid != pid) })
  | none => (none, m)

/-- Runs an action as a process of its own; `setup` makes it from the current one. -/
def inProcess (run : Runner) (p : Process) (act : Sh Nat) : Sh Ending := do
  let outer := (← get).process
  modify fun m => { m with process := p }
  let e ← ending act
  let e ← exitTrap run e
  modify fun m => { m with process := outer }
  return e

/-- Runs a command that waits in the background, and tells how it ended if it did not run before. -/
def runWaiting (run : Runner) (pid : Nat) : Sh (Option Ending) := do
  match ← takeWaiting pid with
  | none => return none
  | some w =>
    let e ← inProcess run w.process do
      handleSignals run
      run false w.command
    modify fun m => { m with finished := (pid, e.number) :: m.finished }
    return some e

/-- Runs all that waits in the background of the current process. -/
def runJobs (run : Runner) : Sh Unit := do
  (← Sh.process).jobs.forM fun pid => discard (runWaiting run pid)

/-- Runs whatever waits in the background of any process; the number bounds how much. -/
def passTime (run : Runner) : Nat → Sh Unit
  | 0 => return ()
  | n + 1 => do
    match (← get).waiting with
    | [] => return ()
    | w :: _ =>
      discard (runWaiting run w.process.pid)
      passTime run n

/-- A copy of a process for a subshell. -/
def forked (p : Process) (pid : Nat) : Process :=
  { p with pid, jobs := [], traps := p.traps.filter (·.2 == "") }

def newPid : Sh Nat := modifyGet fun m => (m.nextPid, { m with nextPid := m.nextPid + 1 })

def signalText (n : Nat) : String :=
  match n with
  | 1 => "Hangup"
  | 3 => "Quit"
  | 4 => "Illegal instruction"
  | 5 => "Trace/breakpoint trap"
  | 6 => "Aborted"
  | 7 => "Bus error"
  | 8 => "Floating point exception"
  | 9 => "Killed"
  | 10 => "User defined signal 1"
  | 11 => "Segmentation fault"
  | 12 => "User defined signal 2"
  | 14 => "Alarm clock"
  | 15 => "Terminated"
  | _ => ""

/-- Runs an action in a subshell, and gives its status. -/
def subshell (run : Runner) (setup : Process → Process) (act : Sh Nat) : Sh Nat := do
  let pid ← newPid
  let p := setup (forked (← Sh.process) pid)
  let whole : Sh Nat := do
    let n ← act
    runJobs run
    return n
  let e ← inProcess run p whole
  if let .killed n := e then
    if signalText n != "" then Sh.print 2 (signalText n ++ "\n")
  return e.number

/-- What a command prints, without line ends at the end. -/
def capture (run : Runner) : Capture := fun c => do
  let (f, out) := (← Sh.files).openStream
  Sh.setFiles f
  match c with
  | .nothing => return ""
  | c =>
    let setup (p : Process) : Process :=
      { p with descriptors := (1, out) :: p.descriptors.filter (·.1 != 1) }
    let status ← subshell run setup (run false c)
    Sh.modifyProcess fun p => { p with substituted := status }
    let cs := ((← Sh.files).written out).toList.filter (· != '\x00')
    return String.ofList (cs.reverse.dropWhile (· == '\n')).reverse

/-! ## Programs -/

/-- A new shell in place of a process, with what it inherits. -/
def freshShell (p : Process) (name : String) (arguments : List String) : Process :=
  { p with
    name, arguments
    vars := (p.vars.filter fun (_, v) => v.exported && v.value.isSome).map fun (x, v) =>
      (x, { v with constant := false })
    functions := [], aliases := [], options := [], status := 0, substituted := 0, skip := .none
    loops := 0, returnable := false, saved := [], line := 0, readLine := 0, utility := none
    documents := #[]
    rootPid := p.pid, lastBackground := none, jobs := []
    traps := p.traps.filter (·.2 == ""), optionNext := 1, optionOffset := 0 }

/-- Runs a script as a new shell in the current process. -/
def scriptShell (run : Runner) (s : String) : Sh Nat := do
  Sh.modifyProcess fun p =>
    { p with vars := p.vars.filter fun (x, _) => x != "OPTIND" && x != "IFS" }
  Sh.putVariable "IFS" ⟨some " \t\n", false, false⟩
  Sh.putVariable "OPTIND" ⟨some "1", false, false⟩
  Sh.putVariable "PPID" ⟨some "1", false, false⟩
  Sh.putVariable "PS1" ⟨some "# ", false, false⟩
  Sh.putVariable "PS2" ⟨some "> ", false, false⟩
  Sh.putVariable "PS4" ⟨some "+ ", false, false⟩
  if (← Sh.value? "PATH").isNone then Sh.putVariable "PATH" ⟨some defaultPath, false, false⟩
  if (← Sh.value? "PWD").isNone then
    Sh.putVariable "PWD" ⟨some (← Sh.process).directory, false, false⟩
  let e ← ending do
    let n ← text run false s
    return n
  let e ← exitTrap run e
  runJobs run
  match e with
  | .status n => return n
  | .killed n => throw (.signal n)

/-- `sh` with its arguments: options, then a script or the name of one. -/
def shellTool (run : Runner) : Tool := fun _ name args => do
  Sh.modifyProcess fun p => freshShell p name []
  let after ← Utility.shellOptions true (args.length + 1) args
  match after.isScript, after.rest with
  | true, [] => Sh.fail "-c requires an argument"
  | true, s :: more =>
    Sh.modifyProcess fun p => { p with name := more.headD name, arguments := more.tail }
    if ← Sh.optionSet "interactive" then Sh.complain Utility.noTerminal
    scriptShell run s
  | false, rest =>
    let fromInput := rest.isEmpty || (← Sh.optionSet "stdin")
    match ← Tool.readOperand (if fromInput then "-" else rest.headD "-"), fromInput with
    | .ok s, true =>
      Sh.modifyProcess fun p => { p with arguments := rest }
      scriptShell run s
    | .error _, true | .error .isDirectory, false => scriptShell run ""
    | .ok s, false =>
      Sh.modifyProcess fun p => { p with name := rest.headD name, arguments := rest.tail }
      scriptShell run s
    | .error _, false => Sh.fail s!"cannot open {rest.headD name}: No such file"

variable (tools : Tools) (run : Runner)

/-- Starts a program in the current process, given its path and the words of the command. -/
def program (self : Host) (path : String) (words : List String) : Sh Nat := do
  let m ← get
  match m.files.locate m.process.directory path with
  | .error _ => return 127
  | .ok i =>
    let node := m.files.node i
    match node.kind with
    | .program name =>
      match tools name with
      | some t => t self (words.headD name) words.tail
      | none => if name = "sh" then shellTool run self (words.headD name) words.tail else return 0
    | _ =>
      Sh.modifyProcess fun p => freshShell p path words.tail
      scriptShell run node.content

/-- Complains that a program cannot be started, and gives the status. -/
def cannotStart (name : String) (found : Found) : Sh Nat := do
  match found with
  | .denied =>
    Sh.complain s!"{name}: Permission denied"
    return 126
  | _ =>
    Sh.complain s!"{name}: not found"
    return 127

/-- The status for a program that cannot be started, which in a directory of `PATH` is as good as
missing. -/
def statusOf (name : String) (status : Nat) : Nat :=
  if name.toList.contains '/' then status else 127

/-- Goes on as a program found by its name; the number bounds the depth. -/
def become : Nat → List String → Sh Nat
  | 0, _ => throw .exhausted
  | n + 1, words => do
    match words with
    | [] => return 0
    | name :: _ =>
      match ← findProgram name with
      | .program path => program tools run (host (become n)) path words
      | .denied => return 126
      | _ => return 127
where
  host (next : List String → Sh Nat) : Host :=
    { become := next, call := fun words => subshell run id (next words)
      pass := passTime run 1000 }

/-- What tools can do, as deep as they are nested. -/
def host : Host := become.host run (become tools run 100)

/-- Starts a program for a command, and gives its status. -/
def start (path : String) (words : List String) : Sh Nat :=
  subshell run id (program tools run (host tools run) path words)

/-! ## Utilities of the shell -/

/-- Writes what a utility prints, and complains if that is impossible. -/
def output (name : String) (s : String) (status : Nat) : Sh Nat := do
  match ← Sh.write 1 s with
  | none => return status
  | some _ =>
    Sh.complain s!"{name}: I/O error"
    return status ||| 1

def printf (args : List String) : Sh Nat := do
  let (_, args) ← Sh.options "" args
  match args with
  | [] => Sh.fail "usage: printf format [arg ...]"
  | format :: args =>
    let p := printfText format args
    p.complaints.reverse.forM Sh.complain
    output "printf" p.text p.status

/-- Waits for background processes, and gives the status of the last one named. -/
def wait (args : List String) : Sh Nat := do
  match args with
  | [] =>
    runJobs run
    Sh.modifyProcess fun p => { p with jobs := [] }
    return 0
  | args =>
    let mut status := 0
    for a in args do
      let pid ←
        if a.startsWith "%" then
          let jobs := (← Sh.process).jobs
          let k := (decimal? (String.ofList (a.toList.drop 1))).getD 0
          match if k = 0 then jobs.getLast? else jobs[k - 1]? with
          | some pid => pure pid
          | none => Sh.fail s!"No such job: {a}"
        else Sh.number a
      if (← Sh.process).jobs.contains pid then
        if let some (.killed n) := ← runWaiting run pid then
          if signalText n != "" then Sh.print 2 (signalText n ++ "\n")
        status := (((← get).finished.find? (·.1 == pid)).map (·.2)).getD 127
      else status := 127
    return status

/-- The number of loops that `break` or `continue` is about, and what it does with them. -/
def leaveLoops (next : Bool) (args : List String) : Sh Nat := do
  let n ←
    match args with
    | [] => pure 1
    | a :: _ =>
      let n ← Sh.number a
      if n = 0 then Sh.fail s!"Illegal number: {a}"
      pure n
  let loops := (← Sh.process).loops
  let n := min n loops
  if n > 0 then
    Sh.modifyProcess fun p => { p with skip := if next then .next n else .leave n }
  return 0

def dot (tested : Bool) (args : List String) : Sh Nat := do
  let (_, args) ← Sh.options "" args
  match args with
  | [] => return 0
  | path :: _ =>
    let path ←
      if path.toList.contains '/' then pure path
      else do
        let dirs := (((← Sh.value? "PATH").getD "").toList.splitOn ':').map String.ofList
        let m ← get
        let found := dirs.findSome? fun d =>
          let candidate := d ++ "/" ++ path
          match m.files.locate m.process.directory candidate with
          | .ok i => if (m.files.node i).kind == .regular then some candidate else none
          | .error _ => none
        match found with
        | some p => pure p
        | none => Sh.fail s!"{path}: not found"
    match ← Redirect.openFile .read false path with
    | .error e => Sh.fail (Redirect.openMessage .read path e)
    | .ok c =>
      match (← Sh.files).readAll c with
      | .error _ => return 0
      | .ok (s, f) =>
        Sh.setFiles f
        let outer := (← Sh.process).returnable
        Sh.modifyProcess fun p => { p with returnable := true }
        let status ← text run tested s
        Sh.modifyProcess fun p =>
          { p with returnable := outer, skip := if p.skip == .function then .none else p.skip }
        return status

/-- Runs a utility of the shell by name. -/
def utility (tested : Bool) (name : String) (args : List String) : Sh Nat := do
  match name with
  | ":" | "true" => return 0
  | "false" => return 1
  | "echo" => output "echo" (echoText args) 0
  | "printf" => printf args
  | "test" | "[" =>
    match Test.status (← Test.facts) name args with
    | .ok n => return n
    | .error e => Sh.fail e
  | "break" => leaveLoops false args
  | "continue" => leaveLoops true args
  | "eval" => if args.isEmpty then return 0 else text run tested (joinWith " " args)
  | "." => dot run tested args
  | "exit" =>
    if let a :: _ := args then
      let n ← Sh.number a
      Sh.setStatus n
    throw .exit
  | "return" =>
    let status ←
      match args with
      | a :: _ => Sh.number a
      | [] => do pure (← Sh.process).status
    Sh.modifyProcess fun p => { p with skip := .function }
    return status
  | "export" | "readonly" => Utility.declareAll name args
  | "local" => Utility.makeLocal args
  | "unset" => Utility.unsetAll args
  | "set" => Utility.setShell args
  | "shift" => Utility.shiftArguments args
  | "getopts" => Utility.readOption args
  | "read" => Utility.readLine args
  | "cd" | "chdir" => Utility.changeDirectory args
  | "pwd" => Utility.printDirectory args
  | "umask" => Utility.setMask args
  | "alias" => Utility.defineAlias args
  | "unalias" => Utility.removeAlias args
  | "trap" => Utility.setTrap args
  | "kill" => Utility.sendSignal args
  | "wait" => wait run args
  | "type" =>
    let l ← args.mapM (describe true)
    return l.foldl (· ||| ·) 0
  | "command" =>
    let (options, args) ← Sh.options "pvV" args
    match options.find? fun (c, _) => c == 'v' || c == 'V', args with
    | some (c, _), name :: _ => describe (c == 'V') name
    | _, _ => return 0
  | "hash" =>
    let (_, args) ← Sh.options "rv" args
    let l ← args.mapM fun name => do
      match ← find true name with
      | .missing | .denied =>
        Sh.complain s!"{name}: not found"
        return 1
      | _ => return 0
    return l.foldl max 0
  | "times" => output "times" "0m0.000000s 0m0.000000s\n0m0.000000s 0m0.000000s\n" 0
  | "ulimit" => Utility.limit args
  | "jobs" => return 0
  | "fg" | "bg" => Sh.fail "No current job"
  | _ => return 0

/-! ## Simple commands -/

/-- The words at the front of a command, expanded as far as it takes to know what it runs. -/
structure Head where
  words : List String
  rest : List Word
  /-- Whether functions count. -/
  functions : Bool
  /-- Whether the first utility is a special one. -/
  special : Bool

/-- Expands words until there is a field. -/
def expandHead : List Word → Sh (List String × List Word)
  | [] => return ([], [])
  | w :: ws => do
    let l ← Expand.fields (capture run) w
    if l.isEmpty then expandHead ws else return (l, ws)

/-- Takes `command` and its option `-p` off the front, unless it only looks names up. -/
def stripCommand : Nat → List String → List Word → Sh (Option (List String × List Word))
  | 0, _, _ => return none
  | n + 1, ws, rest => do
    let (ws, rest) ← if ws.isEmpty then expandHead run rest else pure (ws, rest)
    match ws with
    | [] => return none
    | "--" :: more =>
      let (more, rest) ← if more.isEmpty then expandHead run rest else pure (more, rest)
      return if more.isEmpty then none else some (more, rest)
    | w :: more =>
      match w.toList with
      | '-' :: c :: cs =>
        if (c :: cs).all (· == 'p') then stripCommand n more rest else return none
      | _ => return some (ws, rest)

/-- Finds out what a command runs. -/
def headOf : Nat → Head → Sh Head
  | 0, h => return h
  | n + 1, h => do
    match h.words with
    | "command" :: more =>
      match ← find h.functions "command" with
      | .utility =>
        match ← stripCommand run (more.length + h.rest.length + 2) more h.rest with
        | some (words, rest) => headOf n { h with words, rest, functions := false }
        | none => return h
      | _ => return h
    | _ => return h

/-- The arguments of a utility that declares variables are expanded like assignments. -/
def declares (name : String) : Bool :=
  name == "export" || name == "readonly" || name == "local" || name == "alias"

def argument (declaring : Bool) (w : Word) : Sh (List String) := do
  match w.assignment? with
  | some (x, value) =>
    if declaring then return [x ++ "=" ++ (← Expand.assigned (capture run) value)]
    else Expand.fields (capture run) w
  | none => Expand.fields (capture run) w

/-- Prints a command before it runs. -/
def trace (descriptors : List (Nat × Nat)) (parts : List String) : Sh Unit := do
  let mark := (← Sh.value? "PS4").getD ""
  match descriptors.find? (·.1 == 2) with
  | some (_, c) =>
    let m ← get
    match m.files.write c (mark ++ joinWith " " parts ++ "\n") with
    | .ok f => set { m with files := f }
    | .error _ => return ()
  | none => return ()

/-- Calls a function. -/
def call (tested : Bool) (body : Command) (args : List String) : Sh Nat := do
  let p ← Sh.process
  Sh.modifyProcess fun q =>
    { q with arguments := args, loops := 0, returnable := true, optionNext := 1, optionOffset := 0 }
  let undo : Sh Unit := Sh.modifyProcess fun q =>
    { q with
      arguments := p.arguments, loops := p.loops, returnable := p.returnable
      optionNext := p.optionNext, optionOffset := p.optionOffset
      skip := if q.skip == .function then .none else q.skip }
  finally' (do
    let _ ← run tested body
    return (← Sh.process).status) undo

/-- Runs a utility of the shell under its name; an error of one that is not special is survived. -/
def runUtility (tested special : Bool) (name : String) (args : List String) : Sh Nat := do
  let outer := (← Sh.process).utility
  Sh.modifyProcess fun p => { p with utility := some name }
  let undo : Sh Unit := Sh.modifyProcess fun p => { p with utility := outer }
  tryCatch (finally' (utility run tested name args) undo) fun
    | .error => if special then throw .error else return (← Sh.process).status
    | e => throw e

/-- `exec`: replaces the shell by a program, unless there is none. -/
def exec (words : List String) : Sh Nat := do
  match words with
  | [] => return 0
  | name :: _ =>
    let outer := (← Sh.process).utility
    Sh.modifyProcess fun p => { p with utility := some "exec" }
    let found ← findProgram name
    match found with
    | .program path =>
      Sh.modifyProcess fun p =>
        { p with utility := outer, traps := p.traps.filter (·.2 == "") }
      let n ← program tools run (host tools run) path words
      Sh.setStatus n
      Sh.modifyProcess fun p => { p with traps := [] }
      throw .exit
    | found =>
      let n ← cannotStart name found
      Sh.setStatus n
      throw .exit

/-- Runs what the words of a command name. -/
def execute (tested : Bool) (h : Head) (words : List String) : Sh Nat := do
  match words with
  | [] => return (← Sh.process).substituted
  | name :: args =>
    match ← find h.functions name with
    | .special =>
      if name = "exec" then exec tools run args else runUtility run tested h.special name args
    | .utility => runUtility run tested h.special name args
    | .function body => call run tested body args
    | .program path => start tools run path words
    | found => return statusOf name (← cannotStart name found)

/-- Carries out the assignments in front of a command; they are local to it if it runs something
other than a special utility. -/
def assign (isLocal exported : Bool) (assignments : List Word) : Sh (List String) :=
  assignments.mapM fun w => do
    match w.assignment? with
    | some (x, value) =>
      let v ← Expand.assigned (capture run) value
      if isLocal then Utility.save x
      Sh.setValue x v (isLocal || exported)
      return x ++ "=" ++ v
    | none => return ""

def simple (tested : Bool) (line : Nat) (assignments words : List Word)
    (redirections : List Redirection) : Sh Nat := do
  Sh.modifyProcess fun p => { p with line, substituted := 0 }
  let (front, rest) ← expandHead run words
  let special :=
    match front with
    | name :: _ => specialUtilities.contains name
    | [] => false
  let h ← headOf run (words.length + 1) ⟨front, rest, true, special⟩
  let declaring := (h.words.head?).any declares
  let more ← h.rest.mapM (argument run declaring)
  let words := h.words ++ more.flatten
  let redirects ← redirections.mapM (Redirect.expand (capture run))
  let before := (← Sh.process).descriptors
  let (saved, ok) ← Redirect.activateAll redirects []
  if !ok then
    Redirect.restore saved
    Sh.setStatus 2
    if special then throw .error else return 2
  else
    let isExec := words.head? = some "exec"
    let isLocal := !words.isEmpty && !special
    let act : Sh Nat := do
      let assigned ← assign run isLocal (isExec && words.length > 1) assignments
      if ← Sh.optionSet "xtrace" then
        if !(assigned ++ words).isEmpty then trace before (assigned ++ words)
      execute tools run tested h words
    let undo : Sh Unit := do
      if !(isExec && words.length = 1) then Redirect.restore saved
      if isLocal then Utility.restoreFrame
    if isLocal then Sh.modifyProcess fun p => { p with saved := [] :: p.saved }
    finally' act undo

/-! ## Compound commands -/

/-- Whether a loop goes on after its test or body ran; counts loops that are left. -/
inductive Turn where
  | go
  | next
  | stop
  deriving DecidableEq, Repr

def turn : Sh Turn := do
  match (← Sh.process).skip with
  | .none => return .go
  | .function => return .stop
  | .leave n =>
    Sh.modifyProcess fun p => { p with skip := if n ≤ 1 then .none else .leave (n - 1) }
    return .stop
  | .next n =>
    if n ≤ 1 then
      Sh.modifyProcess fun p => { p with skip := .none }
      return .next
    else
      Sh.modifyProcess fun p => { p with skip := .next (n - 1) }
      return .stop

def enterLoop : Sh Unit := Sh.modifyProcess fun p => { p with loops := p.loops + 1 }

def leaveLoop : Sh Unit := Sh.modifyProcess fun p => { p with loops := p.loops - 1 }

def whileLoop (tested stopOnSuccess : Bool) (test body : Command) : Nat → Nat → Sh Nat
  | 0, _ => throw .exhausted
  | n + 1, status => do
    let t ← run true test
    let isReturn := (← Sh.process).skip == .function
    match ← turn with
    | .stop => return if isReturn then t else status
    | .next => whileLoop tested stopOnSuccess test body n status
    | .go =>
      if (t = 0) = stopOnSuccess then return status
      else
        let status ← run tested body
        match ← turn with
        | .stop => return status
        | _ => whileLoop tested stopOnSuccess test body n status

def forLoop (tested : Bool) (name : String) (body : Command) : List String → Nat → Sh Nat
  | [], status => return status
  | w :: ws, _ => do
    Sh.setValue name w false
    let status ← run tested body
    match ← turn with
    | .stop => return status
    | _ => forLoop tested name body ws status

/-- The first case of which a pattern matches. -/
def selectCase (word : List Char) : List (List Word × Command) → Sh (Option Command)
  | [] => return none
  | (ps, body) :: cases => do
    let rec firstMatch : List Word → Sh Bool
      | [] => return false
      | p :: ps => do
        if (← Expand.pattern (capture run) p).matches word then return true else firstMatch ps
    if ← firstMatch ps then return some body else selectCase word cases

/-- Runs the parts of a pipeline, the first of which reads from the given channel. -/
def pipeline (tested : Bool) : Option Nat → List Command → Nat → Sh Nat
  | _, [], status => return status
  | input, c :: cs, _ => do
    let (out, next) ←
      if cs.isEmpty then pure (none, none)
      else do
        let (f, out) := (← Sh.files).openStream
        let (f, next) := f.openBehind out
        Sh.setFiles f
        pure (some out, some next)
    let setup (p : Process) : Process :=
      let ds := match input with
        | some i => (0, i) :: p.descriptors.filter (·.1 != 0)
        | none => p.descriptors
      let ds := match out with
        | some o => (1, o) :: ds.filter (·.1 != 1)
        | none => ds
      { p with descriptors := ds }
    let status ← subshell run setup (run tested c)
    pipeline tested next cs status

/-- Puts a command into the background. -/
def background (c : Command) : Sh Nat := do
  let pid ← newPid
  let (f, null) :=
    let (f, i) := (← Sh.files).addNode ⟨.null, "", 0o666⟩
    f.openNode ⟨i, 0, false, true, true⟩
  Sh.setFiles f
  let p := forked (← Sh.process) pid
  let p := { p with descriptors := (0, null) :: p.descriptors.filter (·.1 != 0) }
  modify fun m => { m with waiting := m.waiting ++ [⟨p, c⟩] }
  Sh.modifyProcess fun q => { q with jobs := q.jobs ++ [pid], lastBackground := some pid }
  return 0

/-- Runs a command whose redirections apply to all of it. -/
def redirected (redirections : List Redirection) (act : Sh Nat) : Sh Nat := do
  let redirects ← redirections.mapM (Redirect.expand (capture run))
  let (saved, ok) ← Redirect.activateAll redirects []
  if !ok then
    Redirect.restore saved
    return 2
  else finally' act (Redirect.restore saved)

/-- Ends the script after a failure, if it is to end then. -/
def checkFailure (tested : Bool) (status : Nat) : Sh Unit := do
  if !tested && status != 0 && (← Sh.optionSet "errexit") then throw .exit

def loopLimit : Nat := 10000000

/-- Runs a command, given how to run what is inside it. -/
def command (tested : Bool) (c : Command) : Sh Nat := do
  let setLine (line : Nat) : Sh Unit := Sh.modifyProcess fun p => { p with line }
  let checked (act : Sh Nat) : Sh Nat := do
    let status ← act
    Sh.setStatus status
    handleSignals run
    checkFailure tested (← Sh.process).status
    return (← Sh.process).status
  let plain (act : Sh Nat) : Sh Nat := do
    let status ← act
    Sh.setStatus status
    return status
  let skipping : Sh Bool := do return (← Sh.process).skip != .none
  if ← Sh.optionSet "noexec" then return (← Sh.process).status
  match c with
  | .nothing => return 0
  | .simple line assignments words redirections =>
    checked (simple tools run tested line assignments words redirections)
  | .pipeline cs => checked (pipeline run tested none cs 0)
  | .background c => checked (background c)
  | .subshell line c redirections =>
    setLine line
    checked do
      let redirects ← redirections.mapM (Redirect.expand (capture run))
      subshell run id do
        let (_, ok) ← Redirect.activateAll redirects []
        if !ok then throw .error
        run tested c
  | .redirected line c redirections =>
    setLine line
    plain (redirected run redirections (run tested c))
  | .not c => plain do
    let status ← run true c
    if ← skipping then return status else return if status = 0 then 1 else 0
  | .and l r => do
    let status ← run true l
    if status != 0 || (← skipping) then return status else run tested r
  | .or l r => do
    let status ← run true l
    if status = 0 || (← skipping) then return status else run tested r
  | .seq l r => do
    let status ← run tested l
    if ← skipping then return status else run tested r
  | .cond test yes no => do
    let status ← run true test
    if ← skipping then return status
    else if status = 0 then run tested yes
    else
      match no with
      | some c => run tested c
      | none => plain (return 0)
  | .loop stopOnSuccess test body => plain do
    enterLoop
    finally' (whileLoop run tested stopOnSuccess test body loopLimit 0) leaveLoop
  | .forEach line name words body => plain do
    setLine line
    let l ← Expand.allFields (capture run) words
    enterLoop
    finally' (forLoop run tested name body l 0) leaveLoop
  | .select line word cases => plain do
    setLine line
    let s ← Expand.text (capture run) word
    match ← selectCase run s.toList cases with
    | some .nothing | none => return 0
    | some c => run tested c
  | .function _ name body => plain do
    Sh.modifyProcess fun p => { p with functions := Sh.putPair name body p.functions }
    return 0

/-- Runs a command; the given number bounds the depth. -/
def deep : Nat → Runner
  | 0 => fun _ _ => throw .exhausted
  | n + 1 => command tools (deep n)

end Run

end RabinReward.Shell
