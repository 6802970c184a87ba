import RabinReward.Shell.Bytes

/-!
# Permissions

Permissions are nine bits, three each for the owner, the group and all others. They are written as
octal digits or as letters, which also say how to change them.
-/

namespace RabinReward.Shell

/-- The octal digits of a mode. -/
def octal4 (n : Nat) : String :=
  let ds := Nat.toDigits 8 n
  String.ofList (List.replicate (4 - ds.length) '0' ++ ds)

/-- The permissions that a mask leaves, by letters. -/
def symbolicMask (mask : Nat) : String :=
  let part (shift : Nat) : String :=
    let bits := 7 - (mask >>> shift) % 8
    String.ofList ((if bits / 4 = 1 then ['r'] else []) ++
      (if bits / 2 % 2 = 1 then ['w'] else []) ++ (if bits % 2 = 1 then ['x'] else []))
  s!"u={part 6},g={part 3},o={part 0}"

/-- The permission bits that a mode in octal digits or in letters gives, from those before. -/
def changedMode? (s : String) (before : Nat) : Option Nat :=
  let cs := s.toList
  if !cs.isEmpty && cs.all fun c => (digitIn? 8 c).isSome then
    (takeNumber 8 none cs).1
  else
    let clause (before : Option Nat) (l : List Char) : Option Nat := do
      let before ← before
      let who := l.takeWhile fun c => c == 'u' || c == 'g' || c == 'o' || c == 'a'
      let mask := (if who.isEmpty || who.contains 'a' then ['u', 'g', 'o'] else who).foldl
        (fun n c => n ||| (if c == 'u' then 0o700 else if c == 'g' then 0o070 else 0o007)) 0
      match l.drop who.length with
      | op :: perms =>
        let bits ← perms.foldlM (fun n c =>
          match c with
          | 'r' => some (n ||| 0o444)
          | 'w' => some (n ||| 0o222)
          | 'x' | 'X' => some (n ||| 0o111)
          | 's' | 't' => some n
          | _ => none) 0
        let bits := bits &&& mask
        match op with
        | '+' => some (before ||| bits)
        | '-' => some (before &&& (0o7777 ^^^ bits))
        | '=' => some ((before &&& (0o7777 ^^^ mask)) ||| bits)
        | _ => none
      | [] => none
    (cs.splitOn ',').foldl clause (some before)

end RabinReward.Shell
