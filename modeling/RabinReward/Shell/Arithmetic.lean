import RabinReward.Shell.Number

/-!
# Arithmetic expressions

Integers of 64 bits that wrap, the operators of C except increments, and assignments to variables. A
variable stands for the integer that is its text. Evaluation goes along with reading, so that a
division by zero is found before an error behind it; operands that do not count, such as the right
one of `0 && x`, are read without their effects.
-/

namespace RabinReward.Shell

inductive ArithOp where
  | mul | div | rem | add | sub | shl | shr | lt | le | gt | ge | eq | ne | bitAnd | bitXor | bitOr
  deriving DecidableEq, Repr, Inhabited

inductive ArithToken where
  | number (n : Int)
  | name (x : String)
  | op (o : ArithOp)
  /-- Assignment, after an operation with the old value if there is one. -/
  | assign (o : Option ArithOp)
  | and
  | or
  | not
  | bitNot
  | question
  | colon
  | opening
  | closing
  | bad
  deriving DecidableEq, Repr, Inhabited

namespace ArithOp

/-- Operators of a lower rank bind more tightly. -/
def rank : ArithOp → Nat
  | .mul | .div | .rem => 0
  | .add | .sub => 1
  | .shl | .shr => 2
  | .lt | .le | .gt | .ge => 3
  | .eq | .ne => 4
  | .bitAnd => 5
  | .bitXor => 6
  | .bitOr => 7

def ofBool (b : Bool) : Int := if b then 1 else 0

/-- The 64 bits of an integer. -/
def bits (n : Int) : BitVec 64 := BitVec.ofInt 64 n

/-- Applies an operator; nothing is returned for a division by zero. -/
def result? (o : ArithOp) (a b : Int) : Option Int :=
  match o with
  | .mul => some (wrap64 (a * b))
  | .div => if b = 0 then none else some (wrap64 (a.tdiv b))
  | .rem => if b = 0 then none else some (a.tmod b)
  | .add => some (wrap64 (a + b))
  | .sub => some (wrap64 (a - b))
  | .shl => some (bits a <<< (b % 64).toNat).toInt
  | .shr => some ((bits a).sshiftRight (b % 64).toNat).toInt
  | .lt => some (ofBool (a < b))
  | .le => some (ofBool (a ≤ b))
  | .gt => some (ofBool (a > b))
  | .ge => some (ofBool (a ≥ b))
  | .eq => some (ofBool (a = b))
  | .ne => some (ofBool (a ≠ b))
  | .bitAnd => some (bits a &&& bits b).toInt
  | .bitXor => some (bits a ^^^ bits b).toInt
  | .bitOr => some (bits a ||| bits b).toInt

end ArithOp

/-! ## Tokens -/

/-- An operator that forms an assignment with an equals sign behind it. -/
def arithAssignable (o : ArithOp) (cs : List Char) : ArithToken × List Char :=
  match cs with
  | '=' :: r => (.assign (some o), r)
  | r => (.op o, r)

/-- The token at the front of a text without blanks, and the rest. -/
def arithToken (c : Char) (cs : List Char) : ArithToken × List Char :=
  match c, cs with
  | '=', '=' :: r => (.op .eq, r)
  | '=', r => (.assign none, r)
  | '>', '=' :: r => (.op .ge, r)
  | '>', '>' :: r => arithAssignable .shr r
  | '>', r => (.op .gt, r)
  | '<', '=' :: r => (.op .le, r)
  | '<', '<' :: r => arithAssignable .shl r
  | '<', r => (.op .lt, r)
  | '|', '|' :: r => (.or, r)
  | '|', r => arithAssignable .bitOr r
  | '&', '&' :: r => (.and, r)
  | '&', r => arithAssignable .bitAnd r
  | '!', '=' :: r => (.op .ne, r)
  | '!', r => (.not, r)
  | '(', r => (.opening, r)
  | ')', r => (.closing, r)
  | '*', r => arithAssignable .mul r
  | '/', r => arithAssignable .div r
  | '%', r => arithAssignable .rem r
  | '+', r => arithAssignable .add r
  | '-', r => arithAssignable .sub r
  | '~', r => (.bitNot, r)
  | '^', r => arithAssignable .bitXor r
  | '?', r => (.question, r)
  | ':', r => (.colon, r)
  | _, r => (.bad, r)

/-- The tokens of an expression, up to the first byte that belongs to none. -/
def arithTokens : Nat → List Char → List ArithToken
  | 0, _ => []
  | _ + 1, [] => []
  | n + 1, c :: cs =>
    if c == ' ' || c == '\t' || c == '\n' then arithTokens n cs
    else if isDigit c then
      let r := readInteger 0 (c :: cs)
      .number (clamp64 r.value) :: arithTokens n r.rest
    else if isNameStart c then
      let name := String.ofList ((c :: cs).takeWhile isNameByte)
      .name name :: arithTokens n ((c :: cs).dropWhile isNameByte)
    else
      match arithToken c cs with
      | (.bad, _) => [.bad]
      | (t, r) => t :: arithTokens n r

/-! ## Evaluation -/

inductive ArithError where
  /-- The expression is wrong, with the reason. -/
  | expression (reason : String)
  /-- The text of a variable is no number. -/
  | number (text : String)
  deriving DecidableEq, Repr

structure ArithState where
  tokens : List ArithToken
  /-- The token behind the operand that was read last; nothing at the end. -/
  last : Option ArithToken
  /-- Values assigned so far, the last one first. -/
  assigned : List (String × Int)

abbrev Arith := StateT ArithState (Except ArithError)

namespace Arith

/-- Where variables come from. -/
abbrev Lookup := String → Option String

def next : Arith (Option ArithToken) := modifyGet fun s =>
  match s.tokens with
  | [] => (none, s)
  | t :: ts => (some t, { s with tokens := ts })

def setLast (t : Option ArithToken) : Arith Unit := modify fun s => { s with last := t }

def last : Arith (Option ArithToken) := return (← get).last

def fail {α : Type} (reason : String) : Arith α := throw (.expression reason)

/-- The value of a variable. -/
def variableValue (look : Lookup) (x : String) : Arith Int := do
  match (← get).assigned.find? (·.1 == x) with
  | some (_, n) => return n
  | none =>
    let text := (look x).getD ""
    match integer64? 0 text with
    | some n => return n
    | none => throw (.number text)

def compute (o : ArithOp) (a b : Int) : Arith Int :=
  match o.result? a b with
  | some n => return n
  | none => fail "division by zero"

/-- What the parts of an expression need from each other. `skip` reads without effects. -/
structure Parts where
  /-- Reads an assignment or anything less, given its first token. -/
  assignment : Option ArithToken → Bool → Arith Int

/-- Reads an operand, given its first token and the one behind it. -/
def primary (look : Lookup) (self : Parts) (skip : Bool) :
    Nat → Option ArithToken → Option ArithToken → Arith Int
  | 0, _, _ => fail "expecting primary"
  | n + 1, t, ahead => do
    match t with
    | some .opening =>
      let v ← self.assignment ahead skip
      if (← last) ≠ some .closing then fail "expecting ')'"
      setLast (← next)
      return v
    | some (.number k) =>
      setLast ahead
      return k
    | some (.name x) =>
      setLast ahead
      if skip then return 0 else variableValue look x
    | some (.op .add) =>
      let following ← next
      primary look self skip n ahead following
    | some (.op .sub) =>
      let following ← next
      return wrap64 (-(← primary look self skip n ahead following))
    | some .not =>
      let following ← next
      return ArithOp.ofBool ((← primary look self skip n ahead following) == 0)
    | some .bitNot =>
      let following ← next
      return -(← primary look self skip n ahead following) - 1
    | _ => fail "expecting primary"

/-- Reads operands as long as the operators between them rank below a bound. -/
def climb (operand : Option ArithToken → Option ArithToken → Arith Int) (skip : Bool) :
    Nat → Int → ArithOp → Nat → Arith Int
  | 0, a, _, _ => return a
  | n + 1, a, o, bound => do
    let t ← next
    let ahead ← next
    let b ← operand t ahead
    let b ←
      match ← last with
      | some (.op o') => if o'.rank < o.rank then climb operand skip n b o' o.rank else pure b
      | _ => pure b
    let a ← if skip then pure b else compute o a b
    match ← last with
    | some (.op o') => if o'.rank < bound then climb operand skip n a o' bound else return a
    | _ => return a

def limit : Arith Nat := do return (← get).tokens.length + 2

def binary (look : Lookup) (self : Parts) (skip : Bool) (t ahead : Option ArithToken) :
    Arith Int := do
  let n ← limit
  let a ← primary look self skip n t ahead
  match ← last with
  | some (.op o) => climb (primary look self skip n) skip n a o 8
  | _ => return a

def conjunction (look : Lookup) (self : Parts) :
    Nat → Bool → Option ArithToken → Option ArithToken → Arith Int
  | 0, _, _, _ => fail "expecting primary"
  | n + 1, skip, t, ahead => do
    let a ← binary look self skip t ahead
    if (← last) ≠ some .and then return a
    let t ← next
    let ahead ← next
    let b ← conjunction look self n (skip || a == 0) t ahead
    return ArithOp.ofBool (a != 0 && b != 0)

def disjunction (look : Lookup) (self : Parts) :
    Nat → Bool → Option ArithToken → Option ArithToken → Arith Int
  | 0, _, _, _ => fail "expecting primary"
  | n + 1, skip, t, ahead => do
    let a ← conjunction look self (← limit) skip t ahead
    if (← last) ≠ some .or then return a
    let t ← next
    let ahead ← next
    let b ← disjunction look self n (skip || a != 0) t ahead
    return ArithOp.ofBool (a != 0 || b != 0)

def choice (look : Lookup) (self : Parts) :
    Nat → Bool → Option ArithToken → Option ArithToken → Arith Int
  | 0, _, _, _ => fail "expecting primary"
  | n + 1, skip, t, ahead => do
    let a ← disjunction look self (← limit) skip t ahead
    if (← last) ≠ some .question then return a
    let b ← self.assignment (← next) (skip || a == 0)
    if (← last) ≠ some .colon then fail "expecting ':'"
    let t ← next
    let ahead ← next
    let c ← choice look self n (skip || a != 0) t ahead
    return if a != 0 then b else c

/-- Reads an assignment, given its first token. -/
def assignment (look : Lookup) : Nat → Option ArithToken → Bool → Arith Int
  | 0, _, _ => fail "expecting primary"
  | n + 1, t, skip => do
    let ahead ← next
    let self : Parts := ⟨assignment look n⟩
    match t, ahead with
    | some (.name x), some (.assign o) =>
      let v ← assignment look n (← next) skip
      if skip then return v
      let v ←
        match o with
        | none => pure v
        | some o => do compute o (← variableValue look x) v
      modify fun s => { s with assigned := (x, v) :: s.assigned }
      return v
    | t, ahead => choice look self (← limit) skip t ahead

end Arith

/-- The value of an expression, and the variables that it assigns, in order. -/
def evaluate (look : Arith.Lookup) (text : String) :
    Except ArithError (Int × List (String × Int)) :=
  let cs := text.toList
  let tokens := arithTokens (cs.length + 1) cs
  let whole : Arith Int := do
    let v ← Arith.assignment look (tokens.length + 2) (← Arith.next) false
    if (← Arith.last) ≠ none then Arith.fail "expecting EOF"
    return v
  match whole.run ⟨tokens, none, []⟩ with
  | .ok (v, s) => .ok (v, s.assigned.reverse)
  | .error e => .error e

end RabinReward.Shell
