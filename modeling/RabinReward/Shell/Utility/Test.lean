import RabinReward.Shell.Files
import RabinReward.Shell.Number

/-!
# Conditional expressions

The expressions of `test`: operators on texts, integers and files, combined by `!`, `-a`, `-o` and
parentheses. Which words are operators depends on how many there are: with three words an operator
in the middle wins over all else. An expression is read by its position in the list of words, and
what is left over at the end is an error.
-/

namespace RabinReward.Shell.Test

inductive Op where
  | file (c : Char)
  | terminal
  | empty
  | nonEmpty
  | textEq | textNe | textLt | textGt
  | intEq | intNe | intGe | intGt | intLe | intLt
  | newer | older | sameFile
  | not
  | and
  | or
  | opening
  | closing
  deriving DecidableEq, Repr

inductive OpKind where
  | unary
  | binary
  | other
  deriving DecidableEq, Repr

def Op.kind : Op → OpKind
  | .file _ | .terminal | .empty | .nonEmpty => .unary
  | .not | .and | .or | .opening | .closing => .other
  | _ => .binary

def op? (s : String) : Option Op :=
  match s with
  | "-t" => some .terminal
  | "-z" => some .empty
  | "-n" => some .nonEmpty
  | "=" => some .textEq
  | "!=" => some .textNe
  | "<" => some .textLt
  | ">" => some .textGt
  | "-eq" => some .intEq
  | "-ne" => some .intNe
  | "-ge" => some .intGe
  | "-gt" => some .intGt
  | "-le" => some .intLe
  | "-lt" => some .intLt
  | "-nt" => some .newer
  | "-ot" => some .older
  | "-ef" => some .sameFile
  | "!" => some .not
  | "-a" => some .and
  | "-o" => some .or
  | "(" => some .opening
  | ")" => some .closing
  | _ =>
    match s.toList with
    | ['-', c] => if "rwxefdcbpugkshOGLS".toList.contains c then some (.file c) else none
    | _ => none

/-- What files answer. -/
structure Facts where
  file : Char → String → Bool
  terminal : Nat → Bool
  sameFile : String → String → Bool
  newer : String → String → Bool

/-- The words, and the position of the current one. -/
structure Reading where
  words : Array String
  position : Nat

abbrev M := StateT Reading (Except String)

def word? (offset : Nat) : M (Option String) := do
  let r ← get
  return r.words[r.position + offset]?

def move (n : Nat) : M Unit := modify fun r => { r with position := r.position + n }

/-- Whether an operator at some distance is meant as an operand. -/
def isOperand (offset : Nat) : M Bool := do
  match ← word? (offset + 1), ← word? (offset + 2) with
  | none, _ => return true
  | some _, none => return false
  | some s, some _ => return (op? s).any (·.kind == .binary)

/-- The operator at some distance; `ok none` is an operand, and there is nothing at the end. -/
def token (offset : Nat) : M (Option (Option Op)) := do
  match ← word? offset with
  | none => return none
  | some s =>
    match op? s with
    | none => return some none
    | some o =>
      if o.kind == .unary && (← isOperand offset) then return some none
      else if o == .opening && (← word? (offset + 1)).isNone then return some none
      else return some (some o)

def integer (s : String) : M Int :=
  match integer64? 10 s with
  | some n => return n
  | none => throw s!"Illegal number: {s}"

def wrong {α : Type} (s text : String) : M α :=
  throw (if s.isEmpty then text else s!"{s}: {text}")

def binary (facts : Facts) (o : Op) : M Bool := do
  let a := (← word? 0).getD ""
  let name := (← word? 1).getD ""
  move 2
  match ← word? 0 with
  | none => wrong name "argument expected"
  | some b =>
    match o with
    | .textNe => return a != b
    | .textLt => return a < b
    | .textGt => return b < a
    | .intEq => return (← integer a) == (← integer b)
    | .intNe => return (← integer a) != (← integer b)
    | .intGe => return (← integer a) ≥ (← integer b)
    | .intGt => return (← integer a) > (← integer b)
    | .intLe => return (← integer a) ≤ (← integer b)
    | .intLt => return (← integer a) < (← integer b)
    | .newer => return facts.newer a b
    | .older => return facts.newer b a
    | .sameFile => return facts.sameFile a b
    | _ => return a == b

def unary (facts : Facts) (o : Op) (s : String) : M Bool := do
  match o with
  | .empty => return s.isEmpty
  | .nonEmpty => return !s.isEmpty
  | .terminal => return facts.terminal (← integer s).toNat
  | .file c => return facts.file c s
  | _ => return false

/-- An expression without connectives, given its first token. `self` reads a whole expression. -/
def primary (facts : Facts) (self : Option (Option Op) → M Bool) (t : Option (Option Op)) :
    M Bool := do
  match t with
  | none => return false
  | some (some .opening) =>
    move 1
    let t ← token 0
    if t = some (some .closing) then return false
    else
      let b ← self t
      move 1
      if (← token 0) = some (some .closing) then return b
      else wrong "" "closing paren expected"
  | some o =>
    match o.filter (·.kind == .unary) with
    | some o =>
      let name := (← word? 0).getD ""
      move 1
      match ← word? 0 with
      | none => wrong name "argument expected"
      | some s => unary facts o s
    | none =>
      match ← token 1 with
      | some (some o) =>
        if o.kind == .binary then binary facts o else return (← word? 0).any (!·.isEmpty)
      | _ => return (← word? 0).any (!·.isEmpty)

def negation (facts : Facts) (self : Option (Option Op) → M Bool) :
    Nat → Option (Option Op) → M Bool
  | 0, _ => return false
  | n + 1, t => do
    if t = some (some .not) then
      let t ← token 1
      if t.isSome then move 1
      return !(← negation facts self n t)
    else primary facts self t

def conjunction (facts : Facts) (self : Option (Option Op) → M Bool) :
    Nat → Option (Option Op) → M Bool
  | 0, _ => return false
  | n + 1, t => do
    let a ← negation facts self (n + 1) t
    if (← token 1) = some (some .and) then
      move 2
      let b ← conjunction facts self n (← token 0)
      return a && b
    else return a

def disjunction (facts : Facts) (self : Option (Option Op) → M Bool) :
    Nat → Option (Option Op) → M Bool
  | 0, _ => return false
  | n + 1, t => do
    let a ← conjunction facts self (n + 1) t
    if (← token 1) = some (some .or) then
      move 2
      let b ← disjunction facts self n (← token 0)
      return a || b
    else return a

def expression (facts : Facts) : Nat → Option (Option Op) → M Bool
  | 0, _ => return false
  | n + 1, t => disjunction facts (expression facts n) (n + 1) t

/-- Reads words as an expression, after which no two words may be left. -/
def whole (facts : Facts) (direct : Bool) : M Bool := do
  let n := (← get).words.size + 1
  let t ← if direct then pure (some none) else token 0
  let b ← expression facts n t
  match ← word? 0, ← word? 1 with
  | some s, some _ => wrong s "unexpected operator"
  | _, _ => return b

/-- Evaluates words; `expected` is false behind a negation that was taken off the front. -/
def evaluate (facts : Facts) : Nat → Bool → List String → Except String Bool
  | 0, expected, _ => .ok !expected
  | _, expected, [] => .ok !expected
  | n + 1, expected, ws =>
    let run (direct : Bool) (ws : List String) : Except String Bool :=
      ((whole facts direct).run ⟨ws.toArray, 0⟩).map fun (b, _) => b == expected
    match ws with
    | [_, o, _] =>
      if (op? o).any (·.kind == .binary) then run true ws
      else if ws.head? = some "(" && ws.getLast? = some ")" then run false [o]
      else if ws.head? = some "!" then evaluate facts n false ws.tail
      else run false ws
    | [a, b, c, d] =>
      if a = "(" && d = ")" then run false [b, c]
      else if a = "!" then evaluate facts n false ws.tail
      else run false ws
    | ws => run false ws

/-- The status of `test` or `[` with its arguments. -/
def status (facts : Facts) (name : String) (args : List String) : Except String Nat :=
  let run (ws : List String) : Except String Nat :=
    (evaluate facts (ws.length + 1) true ws).map fun b => if b then 0 else 1
  if name = "[" then
    if args.getLast?.any (·.startsWith "]") then run args.dropLast else .error "missing ]"
  else run args

end RabinReward.Shell.Test
