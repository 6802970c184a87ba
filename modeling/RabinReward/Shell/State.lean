import RabinReward.Shell.Files
import RabinReward.Shell.Syntax

/-!
# The state of a shell

A `Process` is what a subshell gets a copy of: variables, functions, descriptors and so on. `Files`
are shared by all processes. An action of the shell (`Sh`) changes both and may stop: because the
shell is told to exit, or because of an error that a shell does not survive. In both cases the
status is already set.
-/

namespace RabinReward.Shell

structure Variable where
  value : Option String
  exported : Bool
  constant : Bool
  deriving DecidableEq, Repr, Inhabited

/-- What the commands that follow are skipped up to. -/
inductive Skip where
  | none
  | leave (loops : Nat)
  | next (loops : Nat)
  | function
  deriving DecidableEq, Repr, Inhabited

structure Process where
  /-- What the shell calls itself in messages. -/
  name : String
  arguments : List String
  vars : List (String × Variable)
  functions : List (String × Command)
  aliases : List (String × String)
  /-- Names of the options that are set. -/
  options : List String
  status : Nat
  /-- Status of the last command substitution. -/
  substituted : Nat
  descriptors : List (Nat × Nat)
  directory : String
  umask : Nat
  traps : List (String × String)
  skip : Skip
  /-- Number of loops around the current command. -/
  loops : Nat
  /-- Whether a function or a sourced script is running. -/
  returnable : Bool
  /-- What the variables of each running function were before it made them local. -/
  saved : List (List (String × Option Variable))
  line : Nat
  /-- The line up to which the script has been read. -/
  readLine : Nat
  /-- The utility that is running, for messages. -/
  utility : Option String
  documents : Array HereDocument
  pid : Nat
  /-- The number that `$$` gives. -/
  rootPid : Nat
  lastBackground : Option Nat
  /-- The processes in the background that are not waited for yet. -/
  jobs : List Nat
  /-- Where the reading of options stands: the next operand and the offset in it. -/
  optionNext : Nat
  optionOffset : Nat
  deriving Inhabited

/-- A command in the background. It runs when somebody waits for it, or when the process ends. -/
structure Waiting where
  process : Process
  command : Command

structure Machine where
  process : Process
  files : Files
  nextPid : Nat
  waiting : List Waiting
  /-- How processes in the background ended. -/
  finished : List (Nat × Nat)
  /-- Signals that await the traps of a process. -/
  signals : List (Nat × Nat)
  deriving Inhabited

/-- Why an action stops. -/
inductive Stop where
  /-- An error, which a utility that is not special survives. -/
  | error
  | exit
  /-- The process is killed. -/
  | signal (number : Nat)
  | exhausted
  deriving DecidableEq, Repr, Inhabited

abbrev Sh := ExceptT Stop (StateM Machine)

namespace Sh

def process : Sh Process := return (← get).process

def modifyProcess (f : Process → Process) : Sh Unit :=
  modify fun m => { m with process := f m.process }

def files : Sh Files := return (← get).files

def setFiles (f : Files) : Sh Unit := modify fun m => { m with files := f }

def setStatus (n : Nat) : Sh Unit := modifyProcess fun p => { p with status := n }

def optionSet (name : String) : Sh Bool := return (← process).options.contains name

/-! ## Descriptors -/

def descriptor? (fd : Nat) : Sh (Option Nat) :=
  return ((← process).descriptors.find? (·.1 == fd)).map (·.2)

def setDescriptor (fd : Nat) (channel : Option Nat) : Sh Unit := modifyProcess fun p =>
  let others := p.descriptors.filter (·.1 != fd)
  { p with descriptors := match channel with
      | some c => (fd, c) :: others
      | none => others }

/-- Writes to a descriptor, and tells why that is impossible. -/
def write (fd : Nat) (s : String) : Sh (Option FileError) := do
  match ← descriptor? fd with
  | none => return some .badDescriptor
  | some c =>
    let m ← get
    match m.files.write c s with
    | .ok f =>
      set { m with files := f }
      return none
    | .error e => return some e

def print (fd : Nat) (s : String) : Sh Unit := discard (write fd s)

/-- Reads all that a descriptor has left. -/
def readAll (fd : Nat) : Sh (Except FileError String) := do
  match ← descriptor? fd with
  | none => return .error .badDescriptor
  | some c =>
    match (← files).readAll c with
    | .ok (s, f) =>
      setFiles f
      return .ok s
    | .error e => return .error e

/-! ## Messages -/

/-- Prints a message of the shell, after its name, the line and the running utility. -/
def complain (text : String) : Sh Unit := do
  let p ← process
  let utility := match p.utility with
    | some u => u ++ ": "
    | none => ""
  print 2 s!"{p.name}: {p.line}: {utility}{text}\n"

/-- Stops with a message and status 2. -/
def fail {α : Type} (text : String) : Sh α := do
  complain text
  setStatus 2
  throw .error

/-! ## Variables -/

def entry? (x : String) : Sh (Option Variable) :=
  return ((← process).vars.find? (·.1 == x)).map (·.2)

/-- Stops unless a name is one of a variable. -/
def checkName (x : String) : Sh Unit := do
  if !isName x then fail s!"{x}: bad variable name"

/-- The value of a variable. -/
def value? (x : String) : Sh (Option String) := return (← entry? x).bind (·.value)

/-- Replaces an entry of a list of pairs, or adds it at the end. -/
def putPair {α : Type} (x : String) (a : α) : List (String × α) → List (String × α)
  | [] => [(x, a)]
  | (y, b) :: l => if y == x then (x, a) :: l else (y, b) :: putPair x a l

def putVariable (x : String) (v : Variable) : Sh Unit := modifyProcess fun p =>
  { p with vars := putPair x v p.vars }

/-- Sets a variable, and exports it if asked to. -/
def setValue (x value : String) (doExport : Bool) : Sh Unit := do
  let all ← optionSet "allexport"
  match ← entry? x with
  | some v =>
    if v.constant then fail s!"{x}: is read only"
    else putVariable x { v with value := some value, exported := v.exported || doExport || all }
  | none => putVariable x ⟨some value, doExport || all, false⟩
  if x == "OPTIND" then
    modifyProcess fun p => { p with optionNext := (decimal? value).getD 1, optionOffset := 0 }

def unsetValue (x : String) : Sh Unit := do
  match ← entry? x with
  | some v =>
    if v.constant then fail s!"{x}: is read only"
    else modifyProcess fun p => { p with vars := p.vars.filter (·.1 != x) }
  | none => return ()

/-- The bytes that separate fields. -/
def separators : Sh (Option String) := value? "IFS"

/-- The variables that programs get, in the order of their names. -/
def environment : Sh (List (String × String)) := do
  let l := (← process).vars.filterMap fun (x, v) =>
    match v.exported, v.value with
    | true, some s => some (x, s)
    | _, _ => none
  return l

end Sh

end RabinReward.Shell
