import RabinReward.Shell.Print.Escape
import RabinReward.Shell.Tool.Options
import RabinReward.Shell.Utility.Lookup

/-!
# Tools that work on their arguments

They print words, make numbers, or start other programs with them.
-/

namespace RabinReward.Shell.Tool

def succeed : Tool := fun _ _ _ => return 0

def fail : Tool := fun _ _ _ => return 1

/-! ## Words -/

/-- Replaces escapes for `echo -e`; the flag says whether all output ends. -/
def echoEscapes : Nat → List Char → List Char × Bool
  | 0, cs => (cs, false)
  | _, [] => ([], false)
  | n + 1, '\\' :: c :: cs =>
    let more (b : List Char) (rest : List Char) : List Char × Bool :=
      let (r, ended) := echoEscapes n rest
      (b ++ r, ended)
    match c with
    | 'c' => ([], true)
    | '0' =>
      let (v, rest) := takeOctal 0 3 cs
      more [byteOf v] rest
    | 'x' =>
      let (v, rest) := takeHex 0 2 cs
      if rest.length = cs.length then more ['\\', 'x'] cs else more [byteOf v] rest
    | c =>
      match escapeLetter? c with
      | some b => more [b] cs
      | none =>
        if (octalDigit? c).isSome then
          let (v, rest) := takeOctal 0 3 (c :: cs)
          more [byteOf v] rest
        else more ['\\', c] cs
  | n + 1, c :: cs =>
    let (r, ended) := echoEscapes n cs
    (c :: r, ended)

/-- `echo`: words with spaces between them. -/
def echo : Tool := fun _ name args => do
  let isOption (a : String) : Bool :=
    match a.toList with
    | '-' :: c :: cs => (c :: cs).all fun c => c == 'n' || c == 'e' || c == 'E'
    | _ => false
  let options := (args.takeWhile isOption).flatMap fun a => a.toList.drop 1
  let words := args.dropWhile isOption
  let escapes := options.foldl
    (fun on c => if c == 'e' then true else if c == 'E' then false else on) false
  let s := joinWith " " words
  let (cs, ended) := if escapes then echoEscapes (s.length + 1) s.toList else (s.toList, false)
  let tail := if ended || options.contains 'n' then "" else "\n"
  finish name (String.ofList cs ++ tail) 0

/-- `yes`: the same line again and again, more often than anybody reads it. -/
def yes : Tool := fun _ name args => do
  let line := (if args.isEmpty then "y" else joinWith " " args) ++ "\n"
  finish name (String.join (List.replicate 8192 line)) 1

/-- `basename`: the last part of a path, without a suffix. -/
def basename : Tool := fun _ name args => do
  let table : OptionTable :=
    { short := "as:z", first := true
      long := [("multiple", 'a', .nothing), ("suffix", 's', .argument), ("zero", 'z', .nothing)] }
  withOptions name 1 table args fun os operands => do
    let base (suffix path : String) : String :=
      if path.isEmpty then ""
      else
        let b := Files.baseName path
        if b != suffix && b.endsWith suffix then
          String.ofList (b.toList.take (b.length - suffix.length))
        else b
    let tail := if has os 'z' then "\x00" else "\n"
    match operands with
    | [] => tryHelp name "missing operand" 1
    | first :: more =>
      if has os 'a' || has os 's' then
        let suffix := (argument? os 's').getD ""
        finish name (String.join (operands.map fun p => base suffix p ++ tail)) 0
      else
        match more with
        | _ :: extra :: _ => tryHelp name s!"extra operand {quoted extra}" 1
        | more => finish name (base (more.headD "") first ++ tail) 0

/-- The directory part of a path. -/
def directoryName (path : String) : String :=
  let trim (cs : List Char) : List Char := cs.dropWhile (· == '/')
  let front := (trim path.toList.reverse).dropWhile (· != '/')
  let kept := (trim front).reverse
  if kept.isEmpty then (if path.startsWith "/" then "/" else ".") else String.ofList kept

def dirname : Tool := fun _ name args => do
  let table : OptionTable := { short := "z", first := true, long := [("zero", 'z', .nothing)] }
  withOptions name 1 table args fun os operands => do
    if operands.isEmpty then tryHelp name "missing operand" 1
    else
      let tail := if has os 'z' then "\x00" else "\n"
      finish name (String.join (operands.map fun p => directoryName p ++ tail)) 0

def pwd : Tool := fun _ name args => do
  withOptions name 1 { short := "LP", first := false, long := [] } args fun _ operands => do
    if !operands.isEmpty then warn name "ignoring non-option arguments"
    finish name ((← Sh.process).directory ++ "\n") 0

/-! ## Numbers -/

/-- A decimal number, and how many digits are behind its point. -/
def decimalNumber? (s : String) : Option (Rat × Nat) :=
  let (negative, cs) := match s.toList.dropWhile isSpace with
    | '-' :: r => (true, r)
    | '+' :: r => (false, r)
    | r => (false, r)
  let whole := cs.takeWhile isDigit
  let (fraction, rest) := match cs.drop whole.length with
    | '.' :: r => (r.takeWhile isDigit, r.dropWhile isDigit)
    | r => ([], r)
  let exponent : Option Int := match rest with
    | [] => some 0
    | e :: r =>
      if e == 'e' || e == 'E' then
        match r with
        | '-' :: ds => (decimal? (String.ofList ds)).map fun n => -(n : Int)
        | '+' :: ds | ds => (decimal? (String.ofList ds)).map fun n => (n : Int)
      else none
  match (takeNumber 10 none (whole ++ fraction)).1, exponent with
  | some n, some e =>
    let q := (n : Rat) * (10 : Rat) ^ (e - fraction.length)
    some (if negative then -q else q, (fraction.length - e).toNat)
  | _, _ => none

/-- A number with digits behind the point, of which nothing is lost. -/
def decimalText (places : Nat) (q : Rat) : String :=
  let n := (q * 10 ^ places).floor
  let ds := Nat.toDigits 10 n.natAbs
  let ds := List.replicate (places + 1 - ds.length) '0' ++ ds
  let whole := ds.take (ds.length - places)
  let body := if places = 0 then whole else whole ++ '.' :: ds.drop (ds.length - places)
  String.ofList (if n < 0 then '-' :: body else body)

def isNegativeNumber (a : String) : Bool :=
  match a.toList with
  | '-' :: c :: _ => isDigit c || c == '.'
  | _ => false

/-- `seq`: numbers at equal steps. -/
def seq : Tool := fun _ name args => do
  let table : OptionTable :=
    { short := "s:w", first := true
      long := [("separator", 's', .argument), ("equal-width", 'w', .nothing)] }
  let options := args.takeWhile fun a => !isNegativeNumber a
  withOptions name 1 table options fun os rest => do
    let operands := rest ++ args.drop options.length
    match operands with
    | [] => tryHelp name "missing operand" 1
    | _ :: _ :: _ :: extra :: _ => tryHelp name s!"extra operand {quoted extra}" 1
    | operands =>
      match operands.find? fun a => (decimalNumber? a).isNone with
      | some a => tryHelp name s!"invalid floating point argument: {quoted a}" 1
      | none =>
        let numbers := operands.map fun a => (decimalNumber? a).getD (0, 0)
        let (first, step, last) := match numbers with
          | [l] => ((1, 0), (1, 0), l)
          | [f, l] => (f, (1, 0), l)
          | f :: s :: l :: _ => (f, s, l)
          | [] => ((0, 0), (1, 0), (0, 0))
        if step.1 = 0 then
          let shown := quoted (operands[1]?.getD "")
          tryHelp name s!"invalid Zero increment value: {shown}" 1
        else
          let places := max first.2 step.2
          let count := ((last.1 - first.1) / step.1).floor
          let n := if count < 0 then 0 else count.toNat + 1
          let values :=
            (List.range n).map fun i => decimalText places (first.1 + step.1 * (i : Nat))
          let ends := [first.1, last.1].map fun q => (decimalText places q).length
          let width := ends.foldl max 0
          let shown := if has os 'w' then
              values.map fun v =>
                let zeros := String.ofList (List.replicate (width - v.length) '0')
                if v.startsWith "-" then "-" ++ zeros ++ String.ofList (v.toList.drop 1)
                else zeros ++ v
            else values
          if n = 0 then return 0
          else finish name (joinWith ((argument? os 's').getD "\n") shown ++ "\n") 0

/-- `sleep`: lets time pass. -/
def sleep : Tool := fun host name args => do
  let isInterval (a : String) : Bool :=
    let cs := a.toList
    let units := ['s', 'm', 'h', 'd']
    let body := if (cs.getLast?).any units.contains then cs.dropLast else cs
    (decimalNumber? (String.ofList body)).any fun (q, _) => 0 ≤ q
  withOptions name 1 { short := "", first := true, long := [] } args fun _ operands => do
    match operands, (operands.filter fun a => !isInterval a).reverse with
    | [], _ => tryHelp name "missing operand" 1
    | _, a :: before =>
      before.reverse.forM fun a => warn name s!"invalid time interval {quoted a}"
      tryHelp name s!"invalid time interval {quoted a}" 1
    | _, [] =>
      host.pass
      return 0

/-! ## The environment -/

/-- Complains that a program cannot be started. -/
def cannotStart (name : String) (program : String) (e : Found) : Sh Nat :=
  match e with
  | .denied => failure name s!"{program}: Permission denied" 126
  | _ => failure name s!"{program}: No such file or directory" 127

def setEnvironment (x v : String) : Sh Unit := Sh.putVariable x ⟨some v, true, false⟩

/-- `env`: changes the environment and starts a program in it, or shows it. -/
def env : Tool := fun host name args => do
  let table : OptionTable :=
    { short := "i0u:C:", first := true
      long := [("ignore-environment", 'i', .nothing), ("unset", 'u', .argument),
        ("chdir", 'C', .argument), ("null", '0', .nothing)] }
  withOptions name 125 table args fun os operands => do
    let clears := has os 'i' || operands.head? == some "-"
    let operands := if operands.head? == some "-" then operands.tail else operands
    if clears then
      Sh.modifyProcess fun p =>
        { p with vars := p.vars.map fun (x, v) => (x, { v with exported := false }) }
    let removed := (os.filter (·.1 == 'u')).map (·.2)
    Sh.modifyProcess fun p =>
      { p with vars := p.vars.filter fun (x, _) => !removed.contains x }
    let split (a : String) : Option (String × String) :=
      let front := a.toList.takeWhile (· != '=')
      match a.toList.drop front.length with
      | _ :: v => some (String.ofList front, String.ofList v)
      | [] => none
    let assignments := operands.takeWhile fun a => (split a).isSome
    assignments.forM fun a =>
      match split a with
      | some (x, v) => setEnvironment x v
      | none => pure ()
    match operands.drop assignments.length with
    | [] =>
      let l ← Sh.environment
      let tail := if has os '0' then "\x00" else "\n"
      finish name (String.join (l.map fun (x, v) => x ++ "=" ++ v ++ tail)) 0
    | program :: words =>
      match ← findProgram program with
      | .program _ => host.become (program :: words)
      | e =>
        let status ← cannotStart name (quoted program) (if program.isEmpty then .missing else e)
        if program.toList.any isSpace then warn name "use -[v]S to pass options in shebang lines"
        return status

def printenv : Tool := fun _ name args => do
  let table : OptionTable := { short := "0", first := true, long := [("null", '0', .nothing)] }
  withOptions name 2 table args fun os operands => do
    let tail := if has os '0' then "\x00" else "\n"
    let l ← Sh.environment
    if operands.isEmpty then
      finish name (String.join (l.map fun (x, v) => x ++ "=" ++ v ++ tail)) 0
    else
      let found := operands.map fun a => (l.find? (·.1 == a)).map (·.2)
      let out := String.join (found.map fun v => (v.map (· ++ tail)).getD "")
      finish name out (if found.all (·.isSome) then 0 else 1)

/-! ## Arguments from the input -/

/-- Splits a text into words at blanks; quotes and backslashes protect them. -/
def quotedWords : Option Char → Option (List Char) → List Char → Except Char (List String)
  | none, acc, [] => .ok ((acc.map fun cs => [String.ofList cs.reverse]).getD [])
  | some q, _, [] => .error q
  | some q, acc, c :: cs =>
    if c == q then quotedWords none (some (acc.getD [])) cs
    else if c == '\n' then .error q
    else quotedWords (some q) (some (c :: acc.getD [])) cs
  | none, acc, '\\' :: c :: cs => quotedWords none (some (c :: acc.getD [])) cs
  | none, acc, c :: cs =>
    if c == ' ' || c == '\t' || c == '\n' then
      (quotedWords none none cs).map fun l =>
        (acc.map fun w => [String.ofList w.reverse]).getD [] ++ l
    else if c == '\'' || c == '"' then quotedWords (some c) (some (acc.getD [])) cs
    else quotedWords none (some (c :: acc.getD [])) cs

/-- Replaces a mark in a word. -/
def replaceMark (mark s word : String) : String :=
  if mark.isEmpty then word else s.intercalate (word.splitOn mark)

/-- Groups of at most `n` words; the first number bounds them. -/
def groups (n : Nat) : Nat → List String → List (List String)
  | 0, _ | _, [] => []
  | k + 1, l => l.take n :: groups n k (l.drop n)

/-- `xargs`: starts a program with words from the input behind its own. -/
def xargs : Tool := fun host name args => do
  let table : OptionTable :=
    { short := "0d:I:n:L:rtx", first := true
      long := [("null", '0', .nothing), ("delimiter", 'd', .argument), ("max-args", 'n', .argument),
        ("max-lines", 'L', .argument), ("no-run-if-empty", 'r', .nothing)] }
  withOptions name 1 table args fun os operands => do
    let command := if operands.isEmpty then ["echo"] else operands
    let text := match ← Sh.readAll 0 with
      | .ok s => s
      | .error _ => ""
    let separator : Option Char :=
      if has os '0' then some '\x00'
      else (argument? os 'd').map fun d => if d == "\\n" then '\n' else (d.toList.headD '\n')
    let read : Except Char (List String) :=
      match separator, has os 'I' || has os 'L' with
      | some c, _ =>
        let l := (text.toList.splitOn c).map String.ofList
        .ok (if l.getLast? == some "" then l.dropLast else l)
      | none, true =>
        .ok (((lines text).1.map fun l => String.ofList (l.toList.dropWhile isBlankByte)).filter
          (· != ""))
      | none, false => quotedWords none none text.toList
    match read with
    | .error q =>
      let kind := if q == '"' then "double" else "single"
      failure name (s!"unmatched {kind} quote; by default quotes are special to xargs " ++
        "unless you use the -0 option") 1
    | .ok words =>
      if let some (c, s) := os.find? fun (c, s) =>
          (c == 'n' || c == 'L') && ((decimal? s).all (· == 0)) then
        return ← tryHelp name s!"invalid number \"{s}\" for -{c} option" 1
      let size := ((argument? os 'n').bind decimal?).getD
        (((argument? os 'L').bind decimal?).getD (words.length + 1))
      let calls := match argument? os 'I' with
        | some mark => words.map fun w => command.map (replaceMark mark w)
        | none =>
          if words.isEmpty && !has os 'r' then [command]
          else (groups (max size 1) words.length words).map (command ++ ·)
      let mut status := 0
      for call in calls do
        match ← findProgram (call.headD "") with
        | .program _ =>
          let n ← host.call call
          if n != 0 then status := if n < 126 then 123 else n
        | e => return ← cannotStart name (call.headD "") e
      return status

end RabinReward.Shell.Tool
