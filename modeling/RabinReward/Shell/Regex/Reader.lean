import RabinReward.Shell.Regex.Basic

/-!
# Reading regular expressions

In the basic syntax groups, bounds and choices are written with a backslash, in the extended one
without. A star with nothing in front of it is a star in the basic syntax. Strict readers refuse
operators that are out of place, the others take them for themselves.
-/

namespace RabinReward.Shell.Regex

/-- How expressions are written. -/
structure Dialect where
  extended : Bool
  strict : Bool
  deriving DecidableEq, Repr

/-- What is wrong with an expression. -/
inductive Fault where
  | trailingBackslash
  | backReference
  | bracket
  | parenthesis
  | closing
  | brace
  | bound
  | range
  | className
  | preceding
  deriving DecidableEq, Repr

def Fault.text : Fault → String
  | .trailingBackslash => "Trailing backslash"
  | .backReference => "Invalid back reference"
  | .bracket => "Unmatched [, [^, [:, [., or [="
  | .parenthesis => "Unmatched ( or \\("
  | .closing => "Unmatched ) or \\)"
  | .brace => "Unmatched \\\x7b"
  | .bound => "Invalid content of \\\x7b\\\x7d"
  | .range => "Invalid range end"
  | .className => "Invalid character class name"
  | .preceding => "Invalid preceding regular expression"

/-- The meaning of what stands next. -/
inductive Token where
  | literal (c : Char)
  | any
  | bracket
  | opening
  | closing
  | choice
  | star
  | plus
  | optional
  | brace
  | caret
  | dollar
  | again (n : Nat)
  | edge (e : Edge)
  /-- One byte of a set. -/
  | set (complement : Bool) (items : List SetItem)
  deriving Repr

/-- The bytes of words. -/
def wordItems : List SetItem := [.cls "alnum", .range '_' '_']

/-- What a byte behind a backslash means. -/
def escapeToken (d : Dialect) (c : Char) : Token :=
  match c with
  | '(' => if d.extended then .literal c else .opening
  | ')' => if d.extended then .literal c else .closing
  | '|' => if d.extended then .literal c else .choice
  | '\x7b' => if d.extended then .literal c else .brace
  | '+' => if d.extended then .literal c else .plus
  | '?' => if d.extended then .literal c else .optional
  | 'w' => .set false wordItems
  | 'W' => .set true wordItems
  | 's' => .set false [.cls "space"]
  | 'S' => .set true [.cls "space"]
  | '<' => .edge .wordStart
  | '>' => .edge .wordEnd
  | 'b' => .edge .border
  | 'B' => .edge .noBorder
  | '\x60' => .edge .textStart
  | '\'' => .edge .textEnd
  | c => if '1' ≤ c && c ≤ '9' then .again (c.toNat - '0'.toNat) else .literal c

/-- The next token and what follows it. -/
def token? (d : Dialect) : List Char → Except Fault (Option (Token × List Char))
  | [] => .ok none
  | ['\\'] => .error .trailingBackslash
  | '\\' :: c :: cs => .ok (some (escapeToken d c, cs))
  | c :: cs =>
    let t : Token := match c with
      | '.' => .any
      | '[' => .bracket
      | '*' => .star
      | '^' => .caret
      | '$' => .dollar
      | '(' => if d.extended then .opening else .literal c
      | ')' => if d.extended then .closing else .literal c
      | '|' => if d.extended then .choice else .literal c
      | '+' => if d.extended then .plus else .literal c
      | '?' => if d.extended then .optional else .literal c
      | '\x7b' => if d.extended then .brace else .literal c
      | c => .literal c
    .ok (some (t, cs))

/-! ## Brackets -/

/-- The name up to the byte `d` and a closing bracket, and what follows. -/
def nameUpTo (d : Char) : List Char → List Char → Option (List Char × List Char)
  | acc, a :: ']' :: rest =>
    if a == d then some (acc.reverse, rest) else nameUpTo d (a :: acc) (']' :: rest)
  | acc, a :: rest => nameUpTo d (a :: acc) rest
  | _, [] => none

/-- A member of a bracket: a byte, or a class. -/
def member (cs : List Char) : Except Fault ((Char ⊕ SetItem) × List Char) :=
  let named (d : Char) (rest : List Char) : Except Fault (List Char × List Char) :=
    match nameUpTo d [] rest with
    | some r => .ok r
    | none => .error .bracket
  match cs with
  | '[' :: ':' :: rest => do
    let (name, more) ← named ':' rest
    if (byteClass? (String.ofList name)).isSome then
      return (.inr (.cls (String.ofList name)), more)
    else throw .className
  | '[' :: d :: rest => do
    if d == '.' || d == '=' then
      match ← named d rest with
      | ([c], more) => return (.inl c, more)
      | _ => throw .className
    else return (.inl '[', d :: rest)
  | c :: rest => .ok (.inl c, rest)
  | [] => .error .bracket

/-- Reads the members of a bracket; `first` is set in front of the first one. -/
def members (first : Bool) : Nat → List Char → Except Fault (List SetItem × List Char)
  | 0, _ | _, [] => .error .bracket
  | n + 1, c :: cs =>
    if c == ']' && !first then .ok ([], cs)
    else do
      let (m, rest) ← member (c :: cs)
      match m, rest with
      | .inr item, rest =>
        let (items, more) ← members false n rest
        return (item :: items, more)
      | .inl a, '-' :: b :: rest =>
        if b == ']' then
          let (items, more) ← members false n ('-' :: b :: rest)
          return (.range a a :: items, more)
        else
          match ← member (b :: rest) with
          | (.inl z, rest) =>
            if z < a then throw .range
            let (items, more) ← members false n rest
            return (.range a z :: items, more)
          | (.inr _, _) => throw .range
      | .inl a, rest =>
        let (items, more) ← members false n rest
        return (.range a a :: items, more)

def bracket (cs : List Char) : Except Fault (Regex × List Char) := do
  let (complement, cs) := match cs with
    | '^' :: r => (true, r)
    | r => (false, r)
  let (items, rest) ← members true (cs.length + 1) cs
  return (.set complement items, rest)

/-! ## Bounds -/

/-- Whether a closing brace comes. -/
def closes (d : Dialect) : List Char → Bool
  | '\\' :: c :: cs => (c == '\x7d' && !d.extended) || closes d cs
  | c :: cs => (c == '\x7d' && d.extended) || closes d cs
  | [] => false

/-- Reads `2`, `2,`, `,3` or `2,3` up to the closing brace; nothing if it is something else. -/
def bounds? (d : Dialect) (cs : List Char) :
    Except Fault (Option (Nat × Option Nat × List Char)) :=
  let close (rest : List Char) : Option (List Char) :=
    match d.extended, rest with
    | true, '\x7d' :: r | false, '\\' :: '\x7d' :: r => some r
    | _, _ => none
  let wrong : Except Fault (Option (Nat × Option Nat × List Char)) :=
    if d.extended && !d.strict then .ok none
    else if closes d cs then .error .bound
    else .error .brace
  let (low, rest) := takeNumber 10 none cs
  let ranged (low : Nat) (high : Option Nat) (rest : List Char) :
      Except Fault (Option (Nat × Option Nat × List Char)) :=
    match close rest with
    | some r => if high.any (· < low) then .error .bound else .ok (some (low, high, r))
    | none => wrong
  match low, rest with
  | some n, ',' :: r =>
    let (high, r) := takeNumber 10 none r
    ranged n high r
  | some n, r => ranged n (some n) r
  | none, ',' :: r =>
    let (high, r) := takeNumber 10 none r
    ranged 0 high r
  | none, _ => wrong

/-! ## Expressions -/

/-- Where the reading stands: the number of groups opened and closed so far, and the depth. -/
structure State where
  rest : List Char
  opened : Nat
  closed : List Nat
  depth : Nat

abbrev M := StateT State (Except Fault)

def peek (d : Dialect) : M (Option (Token × List Char)) := do
  match token? d (← get).rest with
  | .ok t => return t
  | .error e => throw e

def skipTo (rest : List Char) : M Unit := modify fun s => { s with rest }

/-- Whether a caret or a star in the basic syntax stands where it is special, behind the start. -/
def isEndOfBranch (d : Dialect) (rest : List Char) : Bool :=
  match d.extended, rest with
  | _, [] => true
  | true, ')' :: _ | true, '|' :: _ => true
  | false, '\\' :: ')' :: _ | false, '\\' :: '|' :: _ => true
  | _, _ => false

/-- Reads the repetitions behind a piece. Strict readers of the basic syntax take no star or bound
behind another repetition. -/
def repeats (d : Dialect) : Nat → Bool → Regex → M Regex
  | 0, _, r => return r
  | n + 1, isRepeated, r => do
    let refused := isRepeated && d.strict && !d.extended
    match ← peek d with
    | some (.star, rest) =>
      if refused then throw .preceding
      skipTo rest
      repeats d n true (.many r 0 none)
    | some (.plus, rest) =>
      skipTo rest
      repeats d n true (.many r 1 none)
    | some (.optional, rest) =>
      skipTo rest
      repeats d n true (.many r 0 (some 1))
    | some (.brace, rest) =>
      if refused then throw .preceding
      match bounds? d rest with
      | .error e => throw e
      | .ok none => return r
      | .ok (some (low, high, rest)) =>
        skipTo rest
        repeats d n true (.many r low high)
    | _ => return r

/-- A piece without what repeats it, given how to read a whole expression. -/
def piece (d : Dialect) (whole : M Regex) (first : Bool) (t : Token) (rest : List Char) :
    M Regex := do
  let before := (← get).rest
  skipTo rest
  match t with
  | .literal c => return .byte c
  | .any => return .any
  | .set complement items => return .set complement items
  | .edge e => return .edge e
  | .bracket =>
    match bracket rest with
    | .error e => throw e
    | .ok (r, rest) =>
      skipTo rest
      return r
  | .again n =>
    if (← get).closed.contains n then return .again n else throw .backReference
  | .opening =>
    let n := (← get).opened + 1
    modify fun s => { s with opened := n, depth := s.depth + 1 }
    let r ← whole
    match ← peek d with
    | some (.closing, rest) =>
      modify fun s => { s with rest, depth := s.depth - 1, closed := n :: s.closed }
      return .group n r
    | _ => throw .parenthesis
  | .caret => return if d.extended || first then .edge .lineStart else .byte '^'
  | .dollar => return if d.extended || isEndOfBranch d rest then .edge .lineEnd else .byte '$'
  | .star => return .byte '*'
  | .brace =>
    if d.extended && !d.strict then
      match bounds? d rest with
      | .ok none => return .byte '\x7b'
      | _ => throw .preceding
    else throw .preceding
  | .closing | .choice | .plus | .optional => return .byte (before.headD '+')

/-- A sequence of pieces, given how to read a whole expression. -/
def branch (d : Dialect) (whole : M Regex) : Nat → Bool → Option Regex → M Regex
  | 0, _, acc => return acc.getD .empty
  | n + 1, first, acc => do
    match ← peek d with
    | none | some (.choice, _) => return acc.getD .empty
    | some (.closing, rest) =>
      if (← get).depth > 0 then return acc.getD .empty
      else if d.extended && !d.strict then
        skipTo rest
        let r ← repeats d n false (.byte ')')
        branch d whole n false (some (acc.elim r fun a => .seq a r))
      else throw .closing
    | some (t, rest) =>
      if first && d.extended then
        match t with
        | .star | .plus | .optional =>
          if d.strict then throw .preceding
          -- Nothing is repeated, which is the same as nothing.
          skipTo rest
          branch d whole n first acc
        | _ => next first acc t rest n
      else if first then
        match t with
        | .plus | .optional => do
          let c := if let .plus := t then '+' else '?'
          skipTo rest
          let r ← repeats d n false (.byte c)
          branch d whole n false (some (acc.elim r fun a => .seq a r))
        | _ => next first acc t rest n
      else next first acc t rest n
where
  next (first : Bool) (acc : Option Regex) (t : Token) (rest : List Char) (n : Nat) :
      M Regex := do
    let p ← piece d whole first t rest
    let isStart := match t with
      | .caret => first
      | _ => false
    let p ← if isStart && !d.extended then pure p else repeats d n false p
    branch d whole n (isStart && !d.extended) (some (acc.elim p fun a => .seq a p))

/-- Branches with bars between them. -/
def choices (d : Dialect) (whole : M Regex) : Nat → M Regex
  | 0 => return .empty
  | n + 1 => do
    let size := (← get).rest.length + 1
    let a ← branch d whole size true none
    match ← peek d with
    | some (.choice, rest) =>
      skipTo rest
      let b ← choices d whole n
      return .alt a b
    | _ => return a

/-- An expression at a depth of groups. -/
def expression (d : Dialect) : Nat → M Regex
  | 0 => throw .parenthesis
  | n + 1 => choices d (expression d n) (n + 1)

/-- An expression and the number of its groups. -/
def ofText? (d : Dialect) (cs : List Char) : Except Fault (Regex × Nat) := do
  let (r, s) ← (expression d (cs.length + 1)).run ⟨cs, 0, [], 0⟩
  return (r, s.opened)

/-- The bytes of a text, each for itself. -/
def ofLiteral (cs : List Char) : Regex :=
  match cs with
  | [] => .empty
  | [c] => .byte c
  | c :: cs => .seq (.byte c) (ofLiteral cs)

end RabinReward.Shell.Regex
