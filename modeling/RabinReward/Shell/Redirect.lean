import RabinReward.Shell.Expand

/-!
# Redirections

Redirections are expanded before any of them takes effect, and take effect from left to right. What
a descriptor was before is kept, so that it can be restored when the command has run.
-/

namespace RabinReward.Shell

/-- A redirection whose operands are expanded. -/
inductive Redirect where
  | file (fd : Nat) (mode : OpenMode) (path : String)
  | duplicate (fd source : Nat)
  | close (fd : Nat)
  | text (fd : Nat) (s : String)
  deriving DecidableEq, Repr

def Redirect.target : Redirect → Nat
  | .file fd _ _ | .duplicate fd _ | .close fd | .text fd _ => fd

namespace Redirect

/-- Complains where the reading of the script stands that a word names no descriptor. -/
def badNumber {α : Type} : Sh α := do
  Sh.modifyProcess fun p => { p with line := p.readLine }
  Sh.fail "Syntax error: Bad fd number"

def expand (capture : Capture) : Redirection → Sh Redirect
  | .file fd mode name => return .file fd mode (← Expand.text capture name)
  | .duplicate fd source => return .duplicate fd source
  | .close fd => return .close fd
  | .duplicateWord fd w => do
    let s ← Expand.text capture w
    match s.toList with
    | ['-'] => return .close fd
    | [c] =>
      match digitIn? 10 c with
      | some source => return .duplicate fd source
      | none => badNumber
    | _ => badNumber
  | .here fd n => do
    match (← Sh.process).documents[n]? with
    | some d =>
      if d.expand then return .text fd (← Expand.document capture d.body)
      else return .text fd (Expand.cellText (d.body.filterMap fun
        | .char c => some (.byte c false .fixed)
        | _ => none))
    | none => return .text fd ""

/-- The descriptor that a path like `/dev/fd/1` stands for. -/
def pathDescriptor? (path : String) : Option Nat :=
  match path with
  | "/dev/stdin" => some 0
  | "/dev/stdout" => some 1
  | "/dev/stderr" => some 2
  | _ =>
    match Files.pathParts path with
    | ["dev", "fd", n] | ["proc", "self", "fd", n] => decimal? n
    | _ => none

def writes (mode : OpenMode) : Bool :=
  match mode with
  | .read => false
  | _ => true

/-- Opens a file for a channel. -/
def openFile (mode : OpenMode) (protect : Bool) (path : String) :
    Sh (Except FileError Nat) := do
  let m ← get
  let absolute := Files.absolute m.process.directory path
  match pathDescriptor? absolute with
  | some fd =>
    match ← Sh.descriptor? fd with
    | some c => return .ok c
    | none => return .error .missing
  | none =>
    let f := m.files
    let channel (i : Nat) : Channel :=
      { node := i, position := 0, append := mode == .append,
        readable := mode == .read || mode == .readWrite, writable := writes mode }
    match f.locate m.process.directory path with
    | .ok i =>
      let n := f.node i
      if absolute = "/dev/tty" then return .error .noDevice
      else if writes mode && n.kind == .directory then return .error .isDirectory
      else if protect && n.kind == .regular then return .error .exists
      else
        let truncates := (mode == .write || mode == .clobber) && n.kind == .regular
        let f := if truncates then f.modifyNode i fun n => { n with content := "" } else f
        let (f, c) := f.openNode (channel i)
        Sh.setFiles f
        return .ok c
    | .error .missing =>
      if !writes mode || path.isEmpty then return .error .missing
      else if path.endsWith "/" then return .error .isDirectory
      else if (f.parentError? absolute).isSome then return .error .missing
      else
        let mode := 0o666 &&& (0o777 ^^^ m.process.umask)
        let (f, i) := f.create absolute ⟨.regular, "", mode⟩
        let (f, c) := f.openNode (channel i)
        Sh.setFiles f
        return .ok c
    | .error e => return .error e

/-- What a message says about a file that cannot be opened. -/
def openMessage (mode : OpenMode) (path : String) (e : FileError) : String :=
  if writes mode then
    let reason := match e with
      | .missing | .notDirectory => "Directory nonexistent"
      | e => e.text
    s!"cannot create {path}: {reason}"
  else
    let reason := match e with
      | .missing | .notDirectory => "No such file"
      | e => e.text
    s!"cannot open {path}: {reason}"

/-- Puts one redirection into effect. -/
def activate (r : Redirect) : Sh Unit := do
  match r with
  | .file fd mode path =>
    let protect := mode == .write && (← Sh.optionSet "noclobber")
    match ← openFile mode protect path with
    | .ok c => Sh.setDescriptor fd (some c)
    | .error e => Sh.fail (openMessage mode path e)
  | .duplicate fd source =>
    if fd != source then
      match ← Sh.descriptor? source with
      | some c => Sh.setDescriptor fd (some c)
      | none => Sh.fail s!"{source}: Bad file descriptor"
  | .close fd => Sh.setDescriptor fd none
  | .text fd s => do
    let (f, c) := (← Sh.files).openText s
    Sh.setFiles f
    Sh.setDescriptor fd (some c)

/-- What descriptors were before they were redirected, the last one first. -/
abbrev Saved := List (Nat × Option Nat)

def restore (saved : Saved) : Sh Unit := saved.forM fun (fd, c) => Sh.setDescriptor fd c

/-- Puts redirections into effect. Those before one that fails stay in effect. -/
def activateAll : List Redirect → Saved → Sh (Saved × Bool)
  | [], saved => return (saved, true)
  | r :: rs, saved => do
    let saved := (r.target, ← Sh.descriptor? r.target) :: saved
    let failed ← tryCatch (do activate r; pure false) fun
      | .error => pure true
      | e => throw e
    if failed then return (saved, false) else activateAll rs saved

end Redirect

end RabinReward.Shell
