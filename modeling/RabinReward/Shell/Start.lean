import RabinReward.Converter.Basic
import RabinReward.Shell.Run
import RabinReward.Shell.Tool.Condition
import RabinReward.Shell.Tool.Edit.Run
import RabinReward.Shell.Tool.Expression
import RabinReward.Shell.Tool.Lines
import RabinReward.Shell.Tool.Place
import RabinReward.Shell.Tool.Printf
import RabinReward.Shell.Tool.Search
import RabinReward.Shell.Tool.Text
import RabinReward.Shell.Tool.Translate
import RabinReward.Shell.Tool.Words

/-!
# A host with a shell

A converter leaves the running of programs to a host, and what is proved of converters holds of
every host. The one here is no part of the theory: it stands in for a system where conversions are
run and none is at hand. `sh` and the tools exist, and a name that is none of them gives the reason
why it cannot be started. A program is started as a process of its own whose input is empty.
-/

namespace RabinReward.Shell

def toolTable : List (String × Tool) :=
  [("[", Tool.Condition.run), ("basename", Tool.basename), ("cat", Tool.cat),
    ("chmod", Tool.chmod), ("cp", Tool.cp),
    ("cut", Tool.cut), ("dirname", Tool.dirname), ("echo", Tool.echo), ("env", Tool.env),
    ("expr", Tool.Expression.expr), ("false", Tool.fail), ("fold", Tool.foldTool),
    ("grep", Tool.Search.grep), ("head", Tool.head), ("ln", Tool.ln), ("ls", Tool.ls),
    ("mkdir", Tool.mkdir), ("mktemp", Tool.mktemp), ("mv", Tool.mv), ("nl", Tool.nl),
    ("paste", Tool.paste), ("printenv", Tool.printenv), ("printf", Tool.Printf.run),
    ("pwd", Tool.pwd), ("readlink", Tool.readlink), ("rev", Tool.rev), ("rm", Tool.rm),
    ("rmdir", Tool.rmdir), ("sed", Tool.Edit.sed), ("seq", Tool.seq), ("sleep", Tool.sleep),
    ("sort", Tool.sort), ("tac", Tool.tac), ("tail", Tool.tail), ("tee", Tool.tee),
    ("test", Tool.Condition.run),
    ("touch", Tool.touch), ("tr", Tool.Translate.run), ("true", Tool.succeed),
    ("uniq", Tool.uniq), ("wc", Tool.wc), ("xargs", Tool.xargs), ("yes", Tool.yes)]

def tool? (name : String) : Option Tool := (toolTable.find? (·.1 == name)).map (·.2)

/-- The names of all programs. -/
def programNames : List String := ["dash", "sh"] ++ toolTable.map (·.1)

def systemDirectories : List String :=
  ["/", "/bin", "/boot", "/dev", "/dev/shm", "/etc", "/home", "/lib", "/media", "/mnt", "/opt",
    "/proc", "/proc/self", "/root", "/run", "/sbin", "/srv", "/sys", "/tmp", "/usr", "/usr/bin",
    "/usr/lib", "/usr/local", "/usr/local/bin", "/usr/local/sbin", "/usr/sbin", "/usr/share",
    "/var", "/var/tmp"]

def systemTexts : List String :=
  ["/etc/fstab", "/etc/group", "/etc/hostname", "/etc/hosts", "/etc/os-release", "/etc/passwd",
    "/etc/profile", "/etc/shadow", "/etc/shells"]

def systemDevices : List (String × NodeKind) :=
  [("/dev/full", .full), ("/dev/null", .null), ("/dev/random", .zero), ("/dev/tty", .null),
    ("/dev/urandom", .zero), ("/dev/zero", .zero)]

/-- The files of the system. -/
def systemFiles : Files :=
  let entries : List (String × Node) :=
    systemDirectories.map (fun d => (d, ⟨.directory, "", 0o755⟩)) ++
      systemTexts.map (fun t => (t, ⟨.regular, "\n", 0o644⟩)) ++
      systemDevices.map (fun (d, k) => (d, ⟨k, "", 0o666⟩)) ++
      programNames.flatMap fun n =>
        let name := if n = "dash" then "sh" else n
        [("/bin/" ++ n, ⟨.program name, "", 0o755⟩), ("/usr/bin/" ++ n, ⟨.program name, "", 0o755⟩)]
  entries.foldl (fun f (path, n) => (f.create path n).1) ⟨[], #[], #[]⟩

def startVariables : List (String × Variable) :=
  [("HOME", ⟨some "/root", true, false⟩), ("IFS", ⟨some " \t\n", false, false⟩),
    ("OPTIND", ⟨some "1", false, false⟩), ("PATH", ⟨some defaultPath, true, false⟩),
    ("PPID", ⟨some "1", false, false⟩), ("PS1", ⟨some "# ", false, false⟩),
    ("PS2", ⟨some "> ", false, false⟩), ("PS4", ⟨some "+ ", false, false⟩),
    ("PWD", ⟨some "/root", true, false⟩)]

/-- A process with an empty input, before it runs a program. -/
def startProcess : Process :=
  { (default : Process) with
    vars := startVariables, descriptors := [(0, 0), (1, 1), (2, 2)], directory := "/root"
    umask := 0o022, pid := 100, rootPid := 100, optionNext := 1 }

/-- The machine that a program starts on: channels 1 and 2 are its output and its messages. -/
def startMachine : Machine :=
  let f := systemFiles
  let (f, null) := f.addNode ⟨.null, "", 0o666⟩
  let (f, _) := f.openNode ⟨null, 0, false, true, false⟩
  let (f, _) := f.openStream
  let (f, _) := f.openStream
  { process := startProcess, files := f, nextPid := 101, waiting := [], finished := []
    signals := [] }

/-- Runs commands to any depth that scripts reach. -/
def runner : Runner := Run.deep tool? 1000000

/-- The reason why a program cannot be started, with its number. -/
def startReason (e : FileError) : String :=
  let number := match e with
    | .missing => "2"
    | .denied => "13"
    | .notDirectory => "20"
    | .nameTooLong => "36"
    | _ => "22"
  e.text ++ " (os error " ++ number ++ ")"

/-- The path of a program, or why it cannot be started. -/
def startPath (m : Machine) (name : String) : Except FileError String :=
  let isProgram (path : String) : Except FileError String :=
    match m.files.locate m.process.directory path with
    | .ok i =>
      match (m.files.node i).kind with
      | .program _ => .ok path
      | _ => .error .denied
    | .error e => .error e
  if name.isEmpty then .error .missing
  else if name.toList.contains '/' then isProgram name
  else if name.length > 255 then .error .nameTooLong
  else
    let dirs := (defaultPath.toList.splitOn ':').map String.ofList
    let results := dirs.map fun d => isProgram (d ++ "/" ++ name)
    match results.find? fun | .ok _ => true | .error _ => false with
    | some r => r
    | none =>
      if results.any fun | .error .denied => true | _ => false then .error .denied
      else .error .missing

/-- The host that starts a program with arguments and lets it run. -/
def execute (name : String) (args : List String) : Execution :=
  let name := ofText name
  let args := args.map ofText
  if hasNul name || args.any hasNul then .notStarted "nul byte found in provided data"
  else
    let m := startMachine
    match startPath m name with
    | .error e => .notStarted (startReason e)
    | .ok path =>
      let act : Sh Run.Ending := Run.ending do
        Run.program tool? runner (Run.host tool? runner) path (name :: args)
      let (r, m) := (ExceptT.run act).run m
      let out := toBytes (m.files.written 1)
      let err := toBytes (m.files.written 2)
      match r with
      | .ok (.status n) => .exited (some (n % 256 : Nat)) out err
      | .ok (.killed _) => .exited none out err
      | .error _ => .exited none out err

end RabinReward.Shell
