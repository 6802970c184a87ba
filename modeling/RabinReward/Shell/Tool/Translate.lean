import RabinReward.Shell.Pattern
import RabinReward.Shell.Tool.Options

/-!
# The program `tr`

It replaces, deletes or squeezes bytes. Its operands list bytes: escapes, ranges such as `a-z`,
classes such as `[:digit:]` and repetitions such as `[x*3]`. The bytes of the first list become
those of the second one, the last of which stands for all that are left over.
-/

namespace RabinReward.Shell.Tool.Translate

/-- A part of a list of bytes. -/
inductive Item where
  | byte (c : Char)
  | range (low high : Char)
  | cls (name : String)
  | repeated (c : Char) (times : Nat)
  deriving DecidableEq, Repr

/-- A byte of an operand, and whether it was escaped. -/
abbrev Mark := Char × Bool

def octal? (c : Char) : Option Nat := digitIn? 8 c

/-- Replaces the escapes of an operand. -/
def marks : List Char → List Mark
  | [] => []
  | '\\' :: a :: cs =>
    match octal? a, cs with
    | some x, b :: c :: rest =>
      match octal? b, octal? c with
      | some y, some z =>
        if x * 64 + y * 8 + z < 256 then (Char.ofNat (x * 64 + y * 8 + z), true) :: marks rest
        else (Char.ofNat (x * 8 + y), true) :: marks (c :: rest)
      | some y, none => (Char.ofNat (x * 8 + y), true) :: marks (c :: rest)
      | none, _ => (Char.ofNat x, true) :: marks (b :: c :: rest)
    | some x, [b] =>
      match octal? b with
      | some y => [(Char.ofNat (x * 8 + y), true)]
      | none => (Char.ofNat x, true) :: marks [b]
    | some x, [] => [(Char.ofNat x, true)]
    | none, cs =>
      let b := match a with
        | 'a' => '\x07'
        | 'b' => '\x08'
        | 'f' => '\x0c'
        | 'n' => '\n'
        | 'r' => '\r'
        | 't' => '\t'
        | 'v' => '\x0b'
        | a => a
      (b, true) :: marks cs
  | c :: cs => (c, false) :: marks cs
  termination_by cs => cs.length

def textOf (ms : List Mark) : String := String.ofList (ms.map (·.1))

/-- The marks up to a closing bracket behind the byte `d`, and those behind it. -/
def upTo? (d : Char) : List Mark → List Mark → Option (List Mark × List Mark)
  | acc, (a, false) :: (']', false) :: rest =>
    if a == d then some (acc.reverse, rest)
    else upTo? d ((a, false) :: acc) ((']', false) :: rest)
  | acc, m :: rest => upTo? d (m :: acc) rest
  | _, [] => none

/-- The count behind the star of a repetition; nothing if it is none. -/
def repetition? (ms : List Mark) : Option (Nat × List Mark) :=
  let digits := ms.takeWhile (·.1 != ']')
  match ms.drop digits.length with
  | (']', false) :: rest =>
    let cs := digits.map (·.1)
    if cs.isEmpty then some (0, rest)
    else
      let base := if cs.head? == some '0' then 8 else 10
      match takeNumber base none cs with
      | (some n, []) => some (n, rest)
      | _ => none
  | _ => none

/-- Reads the parts of a list. The number bounds them. -/
def items : Nat → List Mark → Except String (List Item)
  | 0, _ | _, [] => .ok []
  | n + 1, ms => do
    let plain (ms : List Mark) : Except String (List Item) := do
      match ms with
      | (a, _) :: ('-', false) :: (b, _) :: rest =>
        if a ≤ b then return .range a b :: (← items n rest)
        else
          let shown := String.ofList [a, '-', b]
          throw s!"range-endpoints of {quoted shown} are in reverse collating sequence order"
      | (a, _) :: rest => return .byte a :: (← items n rest)
      | [] => return []
    match ms with
    | ('[', false) :: (':', false) :: rest =>
      match upTo? ':' [] rest with
      | some (name, more) =>
        if name.isEmpty then throw "missing character class name '[::]'"
        else if (byteClass? (textOf name)).isSome then
          return .cls (textOf name) :: (← items n more)
        else throw s!"invalid character class {quoted (textOf name)}"
      | none => plain ms
    | ('[', false) :: ('=', false) :: rest =>
      match upTo? '=' [] rest with
      | some ([(c, _)], more) => return .byte c :: (← items n more)
      | some ([], _) => throw "missing equivalence class character '[==]'"
      | some (name, _) =>
        throw s!"{textOf name}: equivalence class operand must be a single character"
      | none => plain ms
    | ('[', false) :: (c, _) :: ('*', false) :: rest =>
      match repetition? rest with
      | some (k, more) => return .repeated c k :: (← items n more)
      | none =>
        let digits := textOf (rest.takeWhile (·.1 != ']'))
        if (rest.any (·.1 == ']')) then
          throw s!"invalid repeat count {quoted digits} in [c*n] construct"
        else plain ms
    | ms => plain ms

/-- All bytes in order. -/
def allBytes : List Char := (List.range 256).map Char.ofNat

/-- The bytes that a part stands for; a repetition without end fills up to the given length. -/
def Item.bytes (fill : Nat) : Item → List Char
  | .byte c => [c]
  | .range a b => allBytes.filter fun c => a ≤ c && c ≤ b
  | .cls name => allBytes.filter fun c => (byteClass? name).any (· c)
  | .repeated c 0 => List.replicate fill c
  | .repeated c n => List.replicate n c

def bytes (fill : Nat) (l : List Item) : List Char := l.flatMap (Item.bytes fill)

def isCase (i : Item) : Bool := i == .cls "lower" || i == .cls "upper"

/-- Classes of cases that face each other stand for letters in step. -/
def expandCases : List Item → List Item → List Char × List Char
  | l, [] => (bytes 0 l, [])
  | [], r => ([], bytes 0 r)
  | i :: l, j :: r =>
    if isCase i && isCase j then
      let (a, b) := expandCases l r
      (Item.bytes 0 i ++ a, Item.bytes 0 j ++ b)
    else (bytes 0 (i :: l), bytes 0 (j :: r))

/-- Checks and completes the lists of a translation; pairs of bytes in order, of which later ones
win. -/
def pairs (complement truncate : Bool) (l r : List Item) : Except String (List (Char × Char)) := do
  if l.any fun i => match i with | .repeated _ 0 => true | _ => false then
    throw "the [c*] repeat construct may not appear in string1"
  let fillers := r.filter fun i => match i with | .repeated _ 0 => true | _ => false
  if fillers.length > 1 then throw "only one [c*] repeat construct may appear in string2"
  let first := bytes 0 l
  let source := if complement then allBytes.filter (!first.contains ·) else first
  if r.any fun i => match i with | .cls _ => !isCase i | _ => false then
    throw ("when translating, the only character classes that may appear in\n" ++
      "string2 are 'upper' and 'lower'")
  let fixed := (bytes 0 r).length
  let target := bytes (source.length - fixed) r
  if r.any isCase && !complement then
    -- Classes of the second list need one in the first list at the same place.
    let place (l : List Item) : List (Nat × Bool) :=
      (l.foldl (fun (acc, n) i => ((n, isCase i) :: acc, n + (if isCase i then 1 else
        (Item.bytes 0 i).length))) ([], 0)).1.reverse
    let stands (l : List (Nat × Bool)) (n : Nat) : Bool := l.any fun (k, b) => b && k == n
    if (place r).any fun (n, b) => b && !stands (place l) n then
      throw "misaligned [:upper:] and/or [:lower:] construct"
  if complement && l.any (fun i => match i with | .cls _ => true | _ => false) &&
      (target.eraseDups).length > 1 && !truncate then
    throw ("when translating with complemented character classes,\n" ++
      "string2 must map all characters in the domain to one")
  if target.isEmpty && !source.isEmpty && !truncate then
    throw "when not truncating set1, string2 must be non-empty"
  let (source, target) :=
    if complement || !r.any isCase then (source, target) else expandCases l r
  let last := target.getLastD '\x00'
  if !truncate && source.length > target.length && (r.getLast?.any isCase) then
    throw ("when translating with string1 longer than string2,\n" ++
      "the latter string must not end with a character class")
  let target := if truncate then target
    else target ++ List.replicate (source.length - target.length) last
  return source.zip target

/-- A table of all bytes. -/
def table (f : Char → Char) : Array Char := (allBytes.map f).toArray

/-- Drops a byte that repeats the one before it and is in the list. -/
def squeeze (isIn : Char → Bool) : Option Char → List Char → List Char
  | _, [] => []
  | before, c :: cs =>
    if before == some c && isIn c then squeeze isIn before cs else c :: squeeze isIn (some c) cs

structure Mode where
  complement : Bool
  delete : Bool
  squeeze : Bool
  truncate : Bool

/-- What becomes of a text. -/
def Mode.filter (m : Mode) (first : String) (second : Option String) :
    Except String (List Char → List Char) := do
  let read (s : String) : Except String (List Item) := items (s.length + 1) (marks s.toList)
  let l ← read first
  let bs := bytes 0 l
  let member := (allBytes.map fun c => bs.contains c != m.complement).toArray
  let isFirst (c : Char) : Bool := member[c.toNat]?.getD false
  let isSecond (r : List Item) : Char → Bool :=
    let bs := bytes 0 r
    let member := (allBytes.map bs.contains).toArray
    fun c => member[c.toNat]?.getD false
  match second with
  | none =>
    if m.delete then return fun cs => cs.filter (!isFirst ·)
    else return fun cs => Translate.squeeze isFirst none cs
  | some s =>
    let r ← read s
    if m.delete then
      return fun cs => Translate.squeeze (isSecond r) none (cs.filter (!isFirst ·))
    else
      let ps := (← pairs m.complement m.truncate l r).reverse
      let t := table fun c => ((ps.find? (·.1 == c)).map (·.2)).getD c
      let translate (cs : List Char) : List Char := cs.map fun c => t[c.toNat]?.getD c
      if m.squeeze then
        let targets := ps.map (·.2)
        let isIn (c : Char) : Bool := isSecond r c || targets.contains c
        return fun cs => Translate.squeeze isIn none (translate cs)
      else return translate

def options : OptionTable :=
  { short := "AcCdst", first := true
    long := [("complement", 'c', .nothing), ("delete", 'd', .nothing),
      ("squeeze-repeats", 's', .nothing), ("truncate-set1", 't', .nothing)] }

def run : Tool := fun _ name args => do
  withOptions name 1 options args fun os operands => do
    let m : Mode := ⟨has os 'c' || has os 'C', has os 'd', has os 's', has os 't'⟩
    let least := if m.delete == m.squeeze then 2 else 1
    let most := if m.delete && !m.squeeze then 1 else 2
    let usage (text note : String) : Sh Nat := do
      warn name text
      if note != "" then Sh.print 2 (note ++ "\n")
      Sh.print 2 s!"Try '{name} --help' for more information.\n"
      return 1
    if operands.isEmpty then usage "missing operand" ""
    else if operands.length < least then
      let last := quoted (operands.getLastD "")
      usage s!"missing operand after {last}"
        (if m.squeeze then
          "Two strings must be given when both deleting and squeezing repeats."
        else "Two strings must be given when translating.")
    else if operands.length > most then
      let extra := operands[most]?.getD ""
      usage s!"extra operand {quoted extra}"
        (if operands.length = 2 then
          "Only one string may be given when deleting without squeezing repeats."
        else "")
    else
      let first := operands.headD ""
      if first.endsWith "\\" && !first.endsWith "\\\\" then
        warn name "warning: an unescaped backslash at end of string is not portable"
      match m.filter first operands[1]? with
      | .error e => failure name e 1
      | .ok f =>
        match ← Sh.readAll 0 with
        | .ok s => finish name (String.ofList (f s.toList)) 0
        | .error e => failure name s!"read error: {e.text}" 1

end RabinReward.Shell.Tool.Translate
