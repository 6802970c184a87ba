import RabinReward.Shell.Parser.Command
import RabinReward.Shell.Redirect
import RabinReward.Shell.Utility.Options

/-!
# Looking up commands

A name is a keyword, an alias, a special utility, a function, another utility of the shell, or a
program that one of the directories in `PATH` holds.
-/

namespace RabinReward.Shell

/-- Utilities of the shell that functions can replace. -/
def plainUtilities : List String :=
  ["alias", "bg", "cd", "chdir", "command", "echo", "false", "fg", "getopts", "hash", "jobs",
    "kill", "printf", "pwd", "read", "test", "[", "true", "type", "ulimit", "umask", "unalias",
    "wait"]

inductive Found where
  | special
  | function (body : Command)
  | utility
  | program (path : String)
  | missing
  /-- There is a file, but it is no program. -/
  | denied

/-- The program or script that a path names. -/
def programAt (path : String) : Sh Found := do
  let m ← get
  match m.files.locate m.process.directory path with
  | .ok i =>
    let n := m.files.node i
    match n.kind with
    | .program _ => return .program path
    | .regular => return if n.mode &&& 0o111 != 0 then .program path else .denied
    | _ => return .denied
  | .error .denied => return .denied
  | .error _ => return .missing

/-- Looks a program up in a list of directories. -/
def searchPath (name : String) : List String → Bool → Sh Found
  | [], denied => return if denied then .denied else .missing
  | d :: ds, denied => do
    let d := if d.isEmpty then "." else d
    match ← programAt (d ++ "/" ++ name) with
    | .program path => return .program path
    | .denied => searchPath name ds true
    | _ => searchPath name ds denied

def defaultPath : String := "/usr/local/sbin:/usr/local/bin:/usr/sbin:/usr/bin:/sbin:/bin"

def findProgram (name : String) : Sh Found := do
  if name.toList.contains '/' then programAt name
  else
    let path := (← Sh.value? "PATH").getD ""
    searchPath name ((path.toList.splitOn ':').map String.ofList) false

/-- Looks a name up, functions only if asked to. -/
def find (functions : Bool) (name : String) : Sh Found := do
  if specialUtilities.contains name then return .special
  let p ← Sh.process
  match (p.functions.find? (·.1 == name)).filter fun _ => functions with
  | some (_, body) => return .function body
  | none => if plainUtilities.contains name then return .utility else findProgram name

/-- Describes a name, in words if asked to; the status says whether it means anything. -/
def describe (words : Bool) (name : String) : Sh Nat := do
  let say (long short : String) : Sh Nat := do
    Sh.print 1 ((if words then name ++ long else short) ++ "\n")
    return 0
  if keywords.contains name then say " is a shell keyword" name
  else
    match (← Sh.process).aliases.find? (·.1 == name) with
    | some (_, text) =>
      say s!" is an alias for {text}" ("alias " ++ name ++ "=" ++ singleQuoted text)
    | none =>
      match ← find true name with
      | .special => say " is a special shell builtin" name
      | .function _ => say " is a shell function" name
      | .utility => say " is a shell builtin" name
      | .program path => say s!" is {path}" path
      | _ =>
        if words then Sh.print 1 s!"{name}: not found\n"
        return 127

end RabinReward.Shell
