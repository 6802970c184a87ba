import RabinReward.Shell.Regex.Reader
import RabinReward.Shell.Tool.Options

/-!
# The program `expr`

Its arguments are the operands and operators of an expression on integers of any size and on texts.
A text that is an integer counts as one where an operator needs it. The result is printed; an empty
text and zero count as false.
-/

namespace RabinReward.Shell.Tool.Expression

structure State where
  /-- The argument before the next one. -/
  before : String
  rest : List String
  /-- Whether values count here; where they do not, they are never wrong. -/
  live : Bool

abbrev M := StateT State (Except String)

def integer? (s : String) : Option Int :=
  match s.toList with
  | '-' :: c :: cs => (decimal? (String.ofList (c :: cs))).map fun n => -(n : Int)
  | _ => (decimal? s).map fun n => (n : Int)

/-- Empty texts and zeros with any number of digits are false. -/
def isFalse (s : String) : Bool :=
  s.isEmpty ||
    (match s.toList with
      | '-' :: c :: cs => (c :: cs).all (· == '0')
      | cs => cs.all (· == '0'))

def peek? : M (Option String) := return (← get).rest.head?

/-- Takes the next argument, which must be there. -/
def next : M String := do
  let s ← get
  match s.rest with
  | a :: as =>
    set { s with before := a, rest := as }
    return a
  | [] => throw s!"syntax error: missing argument after {quoted s.before}"

/-- Takes the next argument if it is one of some operators. -/
def accept? (ops : List String) : M (Option String) := do
  match ← peek? with
  | some o => if ops.contains o then return some (← next) else return none
  | none => return none

def number (s : String) : M Int := do
  match integer? s with
  | some n => return n
  | none => throw "non-integer argument"

/-- Matches a pattern at the start of a text: what its first group holds, or the length. -/
def matched (s pattern : String) : M String := do
  if !(← get).live then return ""
  match Regex.ofText? ⟨false, false⟩ pattern.toList with
  | .error e => throw e.text
  | .ok (r, groups) =>
    let bytes := s.toList.toArray
    match r.matchAt? ⟨bytes, false, false⟩ 0 with
    | some m =>
      if groups > 0 then
        match (m.groups.find? (·.1 == 1)).map (·.2) with
        | some (a, b) => return String.ofList (bytes.extract a b).toList
        | none => return ""
      else return toString m.stop
    | none => return if groups > 0 then "" else "0"

/-- A piece of a text by position and length, which are numbers or count for nothing. -/
def piece (s position length : String) : String :=
  match integer? position, integer? length with
  | some p, some n =>
    if p ≤ 0 || n ≤ 0 then "" else String.ofList ((s.toList.drop (p.toNat - 1)).take n.toNat)
  | _, _ => ""

/-- An operand, given how to read a whole expression. -/
def operand (whole : M String) (self : M String) : M String := do
  match ← next with
  | "(" =>
    let v ← whole
    match ← peek? with
    | some ")" =>
      discard next
      return v
    | some a => throw s!"syntax error: expecting ')' instead of {quoted a}"
    | none => throw s!"syntax error: expecting ')' after {quoted (← get).before}"
  | ")" => throw "syntax error: unexpected ')'"
  | "+" => next
  | "length" => return toString (← self).length
  | "match" =>
    let s ← self
    matched s (← self)
  | "index" =>
    let s ← self
    let set ← self
    return toString (((s.toList.findIdx? set.toList.contains).map (· + 1)).getD 0)
  | "substr" =>
    let s ← self
    let p ← self
    return piece s p (← self)
  | a => return a

/-- Chains operands from the left, given how to read one and how to apply an operator. -/
def chain (one : M String) (ops : List String) (apply : String → String → String → M String) :
    Nat → String → M String
  | 0, v => return v
  | n + 1, v => do
    match ← accept? ops with
    | some o => chain one ops apply n (← apply o v (← one))
    | none => return v

/-- Chains operands of which the later ones count only if the value so far asks for them. -/
def chainLazily (one : M String) (op : String) (wants : String → Bool)
    (apply : String → String → String) : Nat → String → M String
  | 0, v => return v
  | n + 1, v => do
    match ← accept? [op] with
    | some _ =>
      let live := (← get).live
      modify fun s => { s with live := live && wants v }
      let w ← one
      modify fun s => { s with live }
      chainLazily one op wants apply n (apply v w)
    | none => return v

def arithmetic (o a b : String) : M String := do
  if !(← get).live then return "0"
  let x ← number a
  let y ← number b
  match o with
  | "+" => return toString (x + y)
  | "-" => return toString (x - y)
  | "*" => return toString (x * y)
  | o =>
    if y = 0 then throw "division by zero"
    return toString (if o = "/" then Int.tdiv x y else Int.tmod x y)

def comparison (o a b : String) : M String := do
  let less := match integer? a, integer? b with
    | some x, some y => (decide (x < y), decide (y < x))
    | _, _ => (decide (a < b), decide (b < a))
  let holds := match o with
    | "<" => less.1
    | "<=" => !less.2
    | "=" | "==" => !less.1 && !less.2
    | "!=" => less.1 || less.2
    | ">=" => !less.1
    | _ => less.2
  return if holds then "1" else "0"

/-- An expression at a depth of parentheses; `size` bounds the operators in a row. -/
def expression (size : Nat) : Nat → M String
  | 0 => throw "syntax error"
  | n + 1 => do
    let rec nested : Nat → M String
      | 0 => throw "syntax error"
      | k + 1 => operand (expression size n) (nested k)
    let level (one : M String) (ops : List String)
        (apply : String → String → String → M String) : M String := do
      chain one ops apply size (← one)
    let texts := level (nested size) [":"] fun _ a b => matched a b
    let products := level texts ["*", "/", "%"] arithmetic
    let sums := level products ["+", "-"] arithmetic
    let comparisons := level sums ["<", "<=", "=", "==", "!=", ">=", ">"] comparison
    let both : M String := do
      chainLazily comparisons "&" (!isFalse ·) (fun a b =>
        if isFalse a || isFalse b then "0" else a) size (← comparisons)
    chainLazily both "|" isFalse (fun a b =>
      if !isFalse a then a else if isFalse b then "0" else b) size (← both)

def expr : Tool := fun _ name args => do
  let args := match args with
    | "--" :: rest => rest
    | args => args
  if args.isEmpty then tryHelp name "missing operand" 2
  else
    let n := args.length + 1
    match (expression n n).run ⟨"", args, true⟩ with
    | .error e => failure name e 2
    | .ok (v, s) =>
      match s.rest with
      | a :: _ => failure name s!"syntax error: unexpected argument {quoted a}" 2
      | [] => finish name (v ++ "\n") (if isFalse v then 1 else 0)

end RabinReward.Shell.Tool.Expression
