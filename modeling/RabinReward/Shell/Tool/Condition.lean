import RabinReward.Shell.Number
import RabinReward.Shell.Tool.Basic
import RabinReward.Shell.Utility.Facts

/-!
# The programs `test` and `[`

Up to four arguments are understood by their number. More than that are an expression with `-a`,
`-o`, `!` and parentheses.
-/

namespace RabinReward.Shell.Tool.Condition

structure State where
  args : Array String
  position : Nat

abbrev M := StateT State (Except String)

def isBinary (s : String) : Bool :=
  ["=", "==", "!=", "-eq", "-ne", "-lt", "-le", "-gt", "-ge", "-nt", "-ot",
    "-ef"].contains s

/-- The letter of a unary operator. -/
def letter? (s : String) : Option Char :=
  match s.toList with
  | ['-', c] => some c
  | _ => none

def isUnary (c : Char) : Bool := "bcdefghknoprstuwxzGLNOS".toList.contains c

def arg? (k : Nat) : M (Option String) := do
  let s ← get
  return s.args[s.position + k]?

def advance (n : Nat) : M Unit := modify fun s => { s with position := s.position + n }

/-- Complains that the arguments end too early. -/
def beyond {α : Type} : M α := do
  let last := quoted ((← get).args.back?.getD "")
  throw s!"missing argument after {last}"

/-- Takes the next argument. -/
def next : M String := do
  match ← arg? 0 with
  | some s =>
    advance 1
    return s
  | none => beyond

def integer (s : String) : M Int := do
  match integer64? 10 s with
  | some n => return n
  | none => throw s!"invalid integer {quoted s}"

def binary (facts : Test.Facts) : M Bool := do
  let a ← next
  let o ← next
  let b ← next
  match o with
  | "!=" => return a != b
  | "-nt" => return facts.newer a b
  | "-ot" => return facts.newer b a
  | "-ef" => return facts.sameFile a b
  | "=" | "==" => return a == b
  | o =>
    let x ← integer a
    let y ← integer b
    match o with
    | "-eq" => return x == y
    | "-ne" => return x != y
    | "-lt" => return x < y
    | "-le" => return x ≤ y
    | "-gt" => return x > y
    | _ => return x ≥ y

def unary (facts : Test.Facts) (c : Char) : M Bool := do
  let o ← next
  if !isUnary c then throw s!"{quoted o}: unary operator expected"
  let s ← next
  match c with
  | 'n' => return !s.isEmpty
  | 'z' => return s.isEmpty
  | 't' => return facts.terminal (← integer s).toNat
  | 'o' => return false
  | c => return facts.file c s

def one : M Bool := return !(← next).isEmpty

def two (facts : Test.Facts) : M Bool := do
  match ← arg? 0 with
  | some "!" =>
    advance 1
    return !(← one)
  | some s =>
    match letter? s with
    | some c => unary facts c
    | none => beyond
  | none => beyond

/-- An expression of at most four arguments, given how to read a longer one. -/
def short (facts : Test.Facts) (whole : M Bool) : Nat → M Bool
  | 0 => beyond
  | 1 => one
  | 2 => two facts
  | 3 => do
    let a := (← arg? 0).getD ""
    let o := (← arg? 1).getD ""
    if isBinary o then binary facts
    else if a == "!" then
      advance 1
      return !(← two facts)
    else if a == "(" && (← arg? 2) == some ")" then
      advance 1
      let b ← one
      advance 1
      return b
    else if o == "-a" || o == "-o" then whole
    else throw s!"{quoted o}: binary operator expected"
  | 4 => do
    let a := (← arg? 0).getD ""
    if a == "!" then
      advance 1
      return !(← short facts whole 3)
    else if a == "(" && (← arg? 3) == some ")" then
      advance 1
      let b ← two facts
      advance 1
      return b
    else whole
  | _ => whole

/-- The number of arguments up to a closing parenthesis; all of them if it is far away. -/
def inner (args : List String) : Nat :=
  let n := ((args.drop 1).takeWhile (· != ")")).length + 1
  if n ≥ 4 then args.length else n

/-- A term, given how to read an expression. -/
def term (facts : Test.Facts) (whole : M Bool) : Nat → M Bool
  | 0 => beyond
  | n + 1 => do
    match ← arg? 0 with
    | none => beyond
    | some "!" =>
      advance 1
      return !(← term facts whole n)
    | some "(" =>
      advance 1
      let s ← get
      let rest := s.args.toList.drop s.position
      let b ← short facts whole (inner rest)
      match ← arg? 0 with
      | some ")" =>
        advance 1
        return b
      | some x => throw s!"')' expected, found {quoted x}"
      | none => throw "')' expected"
    | some a =>
      if (← arg? 2).isSome && isBinary ((← arg? 1).getD "") then binary facts
      else
        match letter? a with
        | some c => unary facts c
        | none => one

/-- Terms with one of the connectives between them. -/
def chain (one : M Bool) (op : String) (join : Bool → Bool → Bool) : Nat → Bool → M Bool
  | 0, b => return b
  | n + 1, b => do
    if (← arg? 0) == some op then
      advance 1
      chain one op join n (join b (← one))
    else return b

def expression (facts : Test.Facts) (size : Nat) : Nat → M Bool
  | 0 => beyond
  | n + 1 => do
    let terms := term facts (expression facts size n) size
    let both : M Bool := do chain terms "-a" (· && ·) size (← terms)
    chain both "-o" (· || ·) size (← both)

/-- Evaluates arguments. -/
def evaluate (facts : Test.Facts) (args : List String) : Except String Bool := do
  if args.isEmpty then return false
  else
    let n := args.length + 1
    let (b, s) ← (short facts (expression facts n n) args.length).run ⟨args.toArray, 0⟩
    match s.args[s.position]? with
    | some x => throw s!"extra argument {quoted x}"
    | none => return b

def run : Tool := fun _ name args => do
  let bracket := name == "[" || name.endsWith "/["
  if bracket && args.getLast? != some "]" then failure name "missing ']'" 2
  else
    match evaluate (← Test.facts) (if bracket then args.dropLast else args) with
    | .ok b => return if b then 0 else 1
    | .error e => failure name e 2

end RabinReward.Shell.Tool.Condition
