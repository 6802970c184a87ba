import RabinReward.Shell.Bytes

/-!
# Files and open channels

Nodes are numbered, and a path names a node. A path is kept in its absolute form, without `.` and
`..` and without doubled slashes. An open channel has a position of its own, which all duplicates of
it share. What is written to a stream is appended; a stream that was opened for reading gives what
is behind the position, so that a pipe is a stream with two channels.
-/

namespace RabinReward.Shell

inductive NodeKind where
  | regular
  | directory
  /-- Keeps what is written to it, in order. -/
  | stream
  /-- Swallows what is written and is always at its end. -/
  | null
  /-- Gives zero bytes without end. -/
  | zero
  /-- Refuses whatever is written. -/
  | full
  /-- A program of the system. -/
  | program (name : String)
  | link (target : String)
  deriving DecidableEq, Repr, Inhabited

structure Node where
  kind : NodeKind
  content : String
  /-- Permission bits. -/
  mode : Nat
  deriving Repr, Inhabited

structure Channel where
  node : Nat
  position : Nat
  append : Bool
  readable : Bool
  writable : Bool
  deriving Repr, Inhabited

/-- Why a file cannot be used. -/
inductive FileError where
  | missing
  | notDirectory
  | isDirectory
  | exists
  | denied
  | badDescriptor
  | nameTooLong
  | notEmpty
  | noDevice
  | noSpace
  | invalid
  deriving DecidableEq, Repr, Inhabited

def FileError.text : FileError → String
  | .missing => "No such file or directory"
  | .notDirectory => "Not a directory"
  | .isDirectory => "Is a directory"
  | .exists => "File exists"
  | .denied => "Permission denied"
  | .badDescriptor => "Bad file descriptor"
  | .nameTooLong => "File name too long"
  | .notEmpty => "Directory not empty"
  | .noDevice => "No such device or address"
  | .noSpace => "No space left on device"
  | .invalid => "Invalid argument"

structure Files where
  paths : List (String × Nat)
  nodes : Array Node
  channels : Array Channel
  deriving Repr, Inhabited

namespace Files

/-! ## Paths -/

/-- The parts of a path between slashes. -/
def pathParts (p : String) : List String :=
  ((p.toList.splitOn '/').map String.ofList).filter (· != "")

/-- Resolves `.` and `..` in the parts of a path, which come last first. -/
def resolveDots (acc : List String) : List String → List String
  | [] => acc.reverse
  | "." :: ps => resolveDots acc ps
  | ".." :: ps => resolveDots acc.tail ps
  | p :: ps => resolveDots (p :: acc) ps

def ofParts (ps : List String) : String := "/" ++ joinWith "/" ps

/-- The absolute form of a path. -/
def absolute (directory path : String) : String :=
  let ps := if path.startsWith "/" then pathParts path
    else pathParts directory ++ pathParts path
  ofParts (resolveDots [] ps)

/-- The directory that a path is in. -/
def parent (path : String) : String := ofParts (pathParts path).dropLast

def baseName (path : String) : String := (pathParts path).getLastD "/"

/-! ## Nodes -/

def find? (f : Files) (path : String) : Option Nat :=
  (f.paths.find? (·.1 == path)).map (·.2)

/-- The node that an absolute path names once links are followed. -/
def follow? (f : Files) : Nat → String → Option Nat
  | 0, _ => none
  | n + 1, path =>
    match f.find? path with
    | none => none
    | some i =>
      match (f.nodes[i]?.getD default).kind with
      | .link target => f.follow? n (absolute (parent path) target)
      | _ => some i

def node (f : Files) (i : Nat) : Node := f.nodes[i]?.getD default

def isDirectory (f : Files) (path : String) : Bool :=
  match f.follow? 8 path with
  | some i => (f.node i).kind == .directory
  | none => false

/-- What is wrong with the parts of a path, the first of which are in front of the others and fine.
The last part may be missing. -/
def partsError? (f : Files) (front : List String) : List String → Option FileError
  | [] => none
  | [p] => if p.length > 255 then some .nameTooLong else none
  | p :: ps =>
    if p.length > 255 then some .nameTooLong
    else
      match f.follow? 8 (ofParts (front ++ [p])) with
      | none => some .missing
      | some i =>
        if (f.node i).kind == .directory then f.partsError? (front ++ [p]) ps
        else some .notDirectory

def parentError? (f : Files) (path : String) : Option FileError :=
  f.partsError? [] (pathParts path)

/-- The node that a path names, or why it names none. -/
def locate (f : Files) (directory path : String) : Except FileError Nat :=
  if path.isEmpty then .error .missing
  else if path.length ≥ 4096 then .error .nameTooLong
  else
    let p := absolute directory path
    match f.parentError? p with
    | some e => .error e
    | none =>
      match f.follow? 8 p with
      | none => .error .missing
      | some i =>
        if path.endsWith "/" && (f.node i).kind != .directory then .error .notDirectory else .ok i

def addNode (f : Files) (n : Node) : Files × Nat :=
  ({ f with nodes := f.nodes.push n }, f.nodes.size)

/-- Makes a new node with a name. -/
def create (f : Files) (path : String) (n : Node) : Files × Nat :=
  let (f, i) := f.addNode n
  ({ f with paths := f.paths ++ [(path, i)] }, i)

def unlink (f : Files) (path : String) : Files :=
  { f with paths := f.paths.filter (·.1 != path) }

/-- The names in a directory, in order. -/
def entries (f : Files) (path : String) : List String :=
  let here := pathParts path
  let names := f.paths.filterMap fun (p, _) =>
    let ps := pathParts p
    if !ps.isEmpty && ps.dropLast = here then ps.getLast? else none
  names.mergeSort (fun a b => !(b < a))

/-! ## Channels -/

def channel (f : Files) (c : Nat) : Channel := f.channels[c]?.getD default

def openNode (f : Files) (c : Channel) : Files × Nat :=
  ({ f with channels := f.channels.push c }, f.channels.size)

def modifyNode (f : Files) (i : Nat) (g : Node → Node) : Files :=
  { f with nodes := f.nodes.modify i g }

def modifyChannel (f : Files) (c : Nat) (g : Channel → Channel) : Files :=
  { f with channels := f.channels.modify c g }

/-- Replaces the bytes of a text from a position on. -/
def overwrite (content : String) (position : Nat) (s : String) : String :=
  if position = content.length then content ++ s
  else
    let cs := content.toList
    let gap := List.replicate (position - cs.length) '\x00'
    String.ofList (cs.take position ++ gap ++ s.toList ++ cs.drop (position + s.length))

/-- Writes to a channel. -/
def write (f : Files) (c : Nat) (s : String) : Except FileError Files :=
  let ch := f.channel c
  if !ch.writable then .error .badDescriptor
  else if s.isEmpty then .ok f
  else
    match (f.node ch.node).kind with
    | .stream => .ok (f.modifyNode ch.node fun n => { n with content := n.content ++ s })
    | .null | .zero => .ok f
    | .full => .error .noSpace
    | .directory => .error .isDirectory
    | .link _ | .program _ => .error .invalid
    | .regular =>
      let position := if ch.append then (f.node ch.node).content.length else ch.position
      let f := f.modifyNode ch.node fun n => { n with content := overwrite n.content position s }
      .ok (f.modifyChannel c fun ch => { ch with position := position + s.length })

/-- What a channel has left to read. -/
def pending (f : Files) (c : Nat) : List Char :=
  let ch := f.channel c
  match (f.node ch.node).kind with
  | .regular | .stream => (f.node ch.node).content.toList.drop ch.position
  | _ => []

def advance (f : Files) (c n : Nat) : Files :=
  f.modifyChannel c fun ch => { ch with position := ch.position + n }

/-- Reads all that is left of a channel. -/
def readAll (f : Files) (c : Nat) : Except FileError (String × Files) :=
  let ch := f.channel c
  if !ch.readable then .error .badDescriptor
  else if (f.node ch.node).kind = .directory then .error .isDirectory
  else
    let cs := f.pending c
    .ok (String.ofList cs, f.advance c cs.length)

/-- Opens a channel that writes to a new stream. -/
def openStream (f : Files) : Files × Nat :=
  let (f, i) := f.addNode ⟨.stream, "", 0o600⟩
  f.openNode ⟨i, 0, false, false, true⟩

/-- Opens a channel that reads the given text. -/
def openText (f : Files) (s : String) : Files × Nat :=
  let (f, i) := f.addNode ⟨.stream, s, 0o600⟩
  f.openNode ⟨i, 0, false, true, false⟩

/-- Opens a channel that reads what was written to another one. -/
def openBehind (f : Files) (c : Nat) : Files × Nat :=
  f.openNode ⟨(f.channel c).node, 0, false, true, false⟩

/-- What was written to a channel. -/
def written (f : Files) (c : Nat) : String := (f.node (f.channel c).node).content

end Files

end RabinReward.Shell
