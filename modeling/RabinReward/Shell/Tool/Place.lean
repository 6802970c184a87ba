import RabinReward.Shell.Mode
import RabinReward.Shell.Tool.Options

/-!
# Tools that work on files as a whole

They make, remove, copy, move and list files and directories.
-/

namespace RabinReward.Shell.Tool

/-- The absolute form of a path. -/
def absolutePath (path : String) : Sh String := do
  return Files.absolute (← Sh.process).directory path

/-- The node that a path names, links followed. -/
def locate (path : String) : Sh (Except FileError Nat) := do
  let m ← get
  return m.files.locate m.process.directory path

/-- The node that a path names, itself a link perhaps. -/
def locateItself (path : String) : Sh (Except FileError Nat) := do
  match (← Sh.files).find? (← absolutePath path), path.isEmpty with
  | some i, false => return .ok i
  | _, _ => locate path

def isDirectory (path : String) : Sh Bool := do
  return (← Sh.files).isDirectory (← absolutePath path)

/-- Whether a path is another one or lies below it. -/
def isBelow (top path : String) : Bool := path == top || path.startsWith (top ++ "/")

/-- Makes a file or directory with a name that is free. -/
def makeNode (path : String) (n : Node) : Sh (Except FileError Unit) := do
  let p ← absolutePath path
  let f ← Sh.files
  match f.parentError? p with
  | some e => return .error e
  | none =>
    Sh.setFiles (f.create p n).1
    return .ok ()

/-- Uses each operand, and gives status 1 if a complaint comes of one. -/
def eachOperand (name : String) (operands : List String)
    (use : String → Sh (Option String)) : Sh Nat := do
  let mut status := 0
  for path in operands do
    if let some text := ← use path then
      warn name text
      status := 1
  return status

/-! ## Making and removing -/

def newMode (whole : Nat) : Sh Nat := return whole &&& (0o777 ^^^ (← Sh.process).umask)

/-- Makes a directory with those above it. -/
def makeAll (path : String) : Sh (Except FileError Unit) := do
  let parts := Files.pathParts (← absolutePath path)
  let mode ← newMode 0o777
  let mut result : Except FileError Unit := .ok ()
  for i in List.range parts.length do
    let p := Files.ofParts (parts.take (i + 1))
    if let .ok () := result then
      match ← locate p with
      | .ok j =>
        if ((← Sh.files).node j).kind != .directory then
          result := .error (if i + 1 = parts.length then .exists else .notDirectory)
      | .error .missing => result ← makeNode p ⟨.directory, "", mode⟩
      | .error e => result := .error e
  return result

def mkdir : Tool := fun _ name args => do
  let table : OptionTable :=
    { short := "pm:v", first := false
      long := [("parents", 'p', .nothing), ("mode", 'm', .argument)] }
  withOptions name 1 table args fun os operands => do
    if operands.isEmpty then tryHelp name "missing operand" 1
    else
      eachOperand name operands fun path => do
        let r ←
          if has os 'p' then makeAll path
          else
            match ← locateItself path with
            | .ok _ => pure (.error .exists)
            | .error .missing =>
              if path.isEmpty then pure (.error .missing)
              else makeNode path ⟨.directory, "", ← newMode 0o777⟩
            | .error e => pure (.error e)
        match r with
        | .ok () => return none
        | .error e => return some s!"cannot create directory {quoted path}: {e.text}"

def rmdir : Tool := fun _ name args => do
  let table : OptionTable := { short := "pv", first := false, long := [] }
  withOptions name 1 table args fun _ operands => do
    if operands.isEmpty then tryHelp name "missing operand" 1
    else
      eachOperand name operands fun path => do
        let wrong (e : FileError) : Sh (Option String) :=
          return some s!"failed to remove {quoted path}: {e.text}"
        match ← locateItself path with
        | .error e => wrong e
        | .ok i =>
          let f ← Sh.files
          let p ← absolutePath path
          if (f.node i).kind != .directory then wrong .notDirectory
          else if !(f.entries p).isEmpty then wrong .notEmpty
          else
            Sh.setFiles (f.unlink p)
            return none

def rm : Tool := fun _ name args => do
  let table : OptionTable :=
    { short := "dfiIrRv", first := false
      long := [("force", 'f', .nothing), ("recursive", 'r', .nothing)] }
  withOptions name 1 table args fun os operands => do
    let deep := has os 'r' || has os 'R'
    if operands.isEmpty then
      if has os 'f' then return 0 else tryHelp name "missing operand" 1
    else
      eachOperand name operands fun path => do
        let wrong (e : FileError) : Sh (Option String) :=
          return some s!"cannot remove {quoted path}: {e.text}"
        match ← locateItself path with
        | .error e =>
          if has os 'f' && (e == .missing || e == .notDirectory) then return none else wrong e
        | .ok i =>
          let f ← Sh.files
          let p ← absolutePath path
          let last := Files.baseName ("/" ++ path)
          if (f.node i).kind == .directory && !deep then wrong .isDirectory
          else if deep && (last == "." || last == "..") then
            return some s!"refusing to remove '.' or '..' directory: skipping {quoted path}"
          else if p = "/" then
            warn name s!"it is dangerous to operate recursively on {quoted path}"
            return some "use --no-preserve-root to override this failsafe"
          else
            Sh.setFiles { f with paths := f.paths.filter fun (q, _) => !isBelow p q }
            return none

def touch : Tool := fun _ name args => do
  let table : OptionTable :=
    { short := "acd:fhmr:t:", first := false, long := [("no-create", 'c', .nothing)] }
  withOptions name 1 table args fun os operands => do
    if operands.isEmpty then tryHelp name "missing file operand" 1
    else
      eachOperand name operands fun path => do
        match ← locate path with
        | .ok _ => return none
        | .error .missing =>
          if has os 'c' then return none
          else
            let made ← if path.isEmpty || path.endsWith "/" then pure (.error .missing)
              else makeNode path ⟨.regular, "", ← newMode 0o666⟩
            match made with
            | .ok () => return none
            | .error e => return some s!"cannot touch {quoted path}: {e.text}"
        | .error e => return some s!"cannot touch {quoted path}: {e.text}"

/-- `mktemp`: makes a file or directory with a name of its own. -/
def mktemp : Tool := fun _ name args => do
  let table : OptionTable :=
    { short := "dp:qtu", first := false
      long := [("directory", 'd', .nothing), ("dry-run", 'u', .nothing),
        ("tmpdir", 'p', .maybe), ("quiet", 'q', .nothing)] }
  withOptions name 1 table args fun os operands => do
    let template := operands.headD "tmp.XXXXXXXXXX"
    let marks := (template.toList.reverse.takeWhile (· == 'X')).length
    if marks < 3 then failure name s!"too few X's in template {quoted template}" 1
    else
      let n ← modifyGet fun m => (m.nextPid, { m with nextPid := m.nextPid + 1 })
      let ds := digitsIn 36 n
      let own := (List.replicate (marks - ds.length) 'A' ++ ds).drop (ds.length - marks)
      let front := template.toList.take (template.length - marks)
      let inside := operands.isEmpty || has os 't' || has os 'p'
      let top := match argument? os 'p' with
        | some "" | none => "/tmp"
        | some d => d
      let path := (if inside then top ++ "/" else "") ++ String.ofList (front ++ own)
      let node : Node := if has os 'd' then ⟨.directory, "", 0o700⟩ else ⟨.regular, "", 0o600⟩
      let made ← if has os 'u' then pure (.ok ()) else makeNode path node
      match made with
      | .ok () => finish name (path ++ "\n") 0
      | .error e =>
        let what := if has os 'd' then "directory" else "file"
        let shown := quoted (String.ofList (path.toList.take (path.length - marks)) ++
          String.ofList (List.replicate marks 'X'))
        failure name s!"failed to create {what} via template {shown}: {e.text}" 1

/-! ## Copies and moves -/

/-- The operands of `cp`, `mv` and `ln`: what is used, and where to. -/
def sourcesAndTarget (name : String) (operands : List String)
    (use : List String → String → Bool → Sh Nat) : Sh Nat := do
  match operands.reverse with
  | [] => tryHelp name "missing file operand" 1
  | [one] => tryHelp name s!"missing destination file operand after {quoted one}" 1
  | target :: sources =>
    let intoDirectory ← isDirectory target
    if sources.length > 1 && !intoDirectory then
      match ← locate target with
      | .ok _ => failure name s!"target {quoted target}: Not a directory" 1
      | .error e => failure name s!"target {quoted target}: {e.text}" 1
    else use sources.reverse target intoDirectory

/-- The path that a source gets at the target. -/
def targetPath (source target : String) (intoDirectory : Bool) : String :=
  if intoDirectory then
    let front := if target.endsWith "/" then target else target ++ "/"
    front ++ Files.baseName ("/" ++ source)
  else target

def cp : Tool := fun _ name args => do
  let table : OptionTable :=
    { short := "adfHiLnpPrRTuvx", first := false
      long := [("recursive", 'r', .nothing), ("force", 'f', .nothing), ("archive", 'a', .nothing)] }
  withOptions name 1 table args fun os operands => do
    let deep := has os 'r' || has os 'R' || has os 'a'
    sourcesAndTarget name operands fun sources target intoDirectory => do
      eachOperand name sources fun source => do
        let place := targetPath source target intoDirectory
        match ← locate source with
        | .error e => return some s!"cannot stat {quoted source}: {e.text}"
        | .ok i =>
          let f ← Sh.files
          let node := f.node i
          let (from', to') := (← absolutePath source, ← absolutePath place)
          if node.kind == .directory then
            if !deep then return some s!"-r not specified; omitting directory {quoted source}"
            else
              let entries := f.paths.filter fun (q, _) => isBelow from' q
              let made := entries.foldl (fun f (q, j) =>
                (f.create (to' ++ String.ofList (q.toList.drop from'.length)) (f.node j)).1) f
              Sh.setFiles made
              return none
          else
            match ← locate place with
            | .ok j =>
              if i = j then
                return some s!"{quoted source} and {quoted place} are the same file"
              else
                Sh.setFiles (f.modifyNode j fun n =>
                  if n.kind == .regular then { n with content := node.content } else n)
                return none
            | .error .missing =>
              match ← makeNode place { node with mode := ← newMode node.mode } with
              | .ok () => return none
              | .error e => return some s!"cannot create regular file {quoted place}: {e.text}"
            | .error e => return some s!"cannot stat {quoted place}: {e.text}"

def mv : Tool := fun _ name args => do
  let table : OptionTable :=
    { short := "finTuv", first := false, long := [("force", 'f', .nothing)] }
  withOptions name 1 table args fun _ operands => do
    sourcesAndTarget name operands fun sources target intoDirectory => do
      eachOperand name sources fun source => do
        let place := targetPath source target intoDirectory
        match ← locateItself source with
        | .error e => return some s!"cannot stat {quoted source}: {e.text}"
        | .ok _ =>
          let f ← Sh.files
          let (from', to') := (← absolutePath source, ← absolutePath place)
          if from' = to' then return some s!"{quoted source} and {quoted place} are the same file"
          else
            match f.parentError? to' with
            | some e => return some s!"cannot move {quoted source} to {quoted place}: {e.text}"
            | none =>
              let others := f.paths.filter fun (q, _) => !isBelow to' q
              let moved := others.map fun (q, i) =>
                if isBelow from' q then (to' ++ String.ofList (q.toList.drop from'.length), i)
                else (q, i)
              Sh.setFiles { f with paths := moved }
              return none

def ln : Tool := fun _ name args => do
  let table : OptionTable :=
    { short := "finsTv", first := false
      long := [("symbolic", 's', .nothing), ("force", 'f', .nothing)] }
  withOptions name 1 table args fun os operands => do
    let operands := match operands with
      | [one] => [one, "./" ++ Files.baseName ("/" ++ one)]
      | l => l
    sourcesAndTarget name operands fun sources target intoDirectory => do
      eachOperand name sources fun source => do
        let place := targetPath source target intoDirectory
        let kind := if has os 's' then "symbolic link" else "hard link"
        let f ← Sh.files
        let p ← absolutePath place
        if (f.find? p).isSome && !has os 'f' then
          return some s!"failed to create {kind} {quoted place}: File exists"
        else
          let f := f.unlink p
          match f.parentError? p with
          | some e => return some s!"failed to create {kind} {quoted place}: {e.text}"
          | none =>
            if has os 's' then
              Sh.setFiles (f.create p ⟨.link source, "", 0o777⟩).1
              return none
            else
              match ← locate source with
              | .error e => return some s!"failed to access {quoted source}: {e.text}"
              | .ok i =>
                Sh.setFiles { f with paths := f.paths ++ [(p, i)] }
                return none

/-- `readlink`: what a link says. -/
def readlink : Tool := fun _ name args => do
  let table : OptionTable := { short := "efmnqsvz", first := false, long := [] }
  withOptions name 1 table args fun os operands => do
    match operands with
    | [] => tryHelp name "missing operand" 1
    | operands =>
      let mut status := 0
      for path in operands do
        let f ← Sh.files
        let p ← absolutePath path
        if has os 'f' || has os 'e' || has os 'm' then
          Sh.print 1 (p ++ "\n")
        else
          match (f.find? p).map fun i => (f.node i).kind with
          | some (.link target) => Sh.print 1 (target ++ "\n")
          | _ => status := 1
      return status

/-! ## Permissions -/

def chmod : Tool := fun _ name args => do
  match args.dropWhile fun a => a == "-R" || a == "-f" || a == "-v" with
  | [] => tryHelp name "missing operand" 1
  | [mode] => tryHelp name s!"missing operand after {quoted mode}" 1
  | mode :: operands =>
    if (changedMode? mode 0).isNone then tryHelp name s!"invalid mode: {quoted mode}" 1
    else
      eachOperand name operands fun path => do
        match ← locate path with
        | .error e => return some s!"cannot access {quoted path}: {e.text}"
        | .ok i =>
          Sh.setFiles ((← Sh.files).modifyNode i fun n =>
            { n with mode := (changedMode? mode n.mode).getD n.mode })
          return none

/-! ## Lists -/

/-- `ls`: names of files, one in a line. -/
def ls : Tool := fun _ name args => do
  let table : OptionTable :=
    { short := "1aACdFghilLmnopqrRstSuUx", first := false
      long := [("all", 'a', .nothing), ("almost-all", 'A', .nothing), ("directory", 'd', .nothing),
        ("reverse", 'r', .nothing)] }
  withOptions name 2 table args fun os operands => do
    let operands := if operands.isEmpty then ["."] else operands
    let ordered (l : List String) : List String :=
      let l := l.mergeSort fun a b => !(b < a)
      if has os 'r' then l.reverse else l
    let mark (p : String) : Sh String := do
      if has os 'F' || has os 'p' then
        return if (← Sh.files).isDirectory p then "/" else ""
      else return ""
    let mut files : List String := []
    let mut directories : List String := []
    let mut status := 0
    for path in operands do
      match ← locateItself path with
      | .error e =>
        warn name s!"cannot access {quoted path}: {e.text}"
        status := 2
      | .ok _ =>
        if !has os 'd' && (← isDirectory path) then directories := path :: directories
        else files := path :: files
    let mut out := unlines (ordered files.reverse)
    for path in ordered directories.reverse do
      let p ← absolutePath path
      let all := (← Sh.files).entries p
      let shown := if has os 'a' || has os 'A' then all
        else all.filter fun s => !s.startsWith "."
      let shown := if has os 'a' then "." :: ".." :: shown else shown
      let marked ← (ordered shown).mapM fun s => return s ++ (← mark (p ++ "/" ++ s))
      let heading := if operands.length > 1 then
          (if out.isEmpty then "" else "\n") ++ path ++ ":\n"
        else ""
      out := out ++ heading ++ unlines marked
    finish name out status

end RabinReward.Shell.Tool
