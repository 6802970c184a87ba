import RabinReward.Shell.Redirect
import RabinReward.Shell.Utility.Test

/-!
# Facts about files

What tests ask about files, answered by the files and descriptors of the current process. Its user
may do anything, and no descriptor is a terminal.
-/

namespace RabinReward.Shell.Test

/-- What files answer to `test`. -/
def facts : Sh Facts := do
  let m ← get
  let node? (path : String) : Option Nat :=
    (m.files.locate m.process.directory path).toOption
  let file (op : Char) (path : String) : Bool :=
    match Redirect.pathDescriptor? path, node? path with
    | some fd, _ =>
      let isOpen := m.process.descriptors.any (·.1 == fd)
      isOpen && (op == 'e' || op == 'r' || op == 'w' || op == 'p' || op == 'O' || op == 'G')
    | none, none =>
      (op == 'h' || op == 'L') && (m.files.find? (Files.absolute m.process.directory path)).isSome
    | none, some i =>
      let n := m.files.node i
      match op with
      | 'e' | 'r' | 'w' | 'O' | 'G' => true
      | 'f' => match n.kind with
        | .regular | .program _ => true
        | _ => false
      | 'd' => n.kind == .directory
      | 'x' => n.mode &&& 0o111 != 0
      | 's' => n.kind == .directory || !n.content.isEmpty || (match n.kind with
        | .program _ => true
        | _ => false)
      | 'c' => n.kind == .null || n.kind == .zero || n.kind == .full
      | 'p' => n.kind == .stream
      | 'u' => n.mode &&& 0o4000 != 0
      | 'g' => n.mode &&& 0o2000 != 0
      | 'k' => n.mode &&& 0o1000 != 0
      | _ => false
  let same (a b : String) : Bool :=
    match node? a, node? b with
    | some i, some j => i == j
    | _, _ => false
  let newer (a b : String) : Bool :=
    match node? a, node? b with
    | some i, some j => i > j
    | some _, none => true
    | _, _ => false
  return { file, terminal := fun _ => false, sameFile := same, newer }

end RabinReward.Shell.Test
