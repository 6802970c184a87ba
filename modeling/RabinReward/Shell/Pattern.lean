import RabinReward.Shell.Bytes

/-!
# Patterns

`*` matches any text, `?` any byte and `[…]` one byte of a set, which `!` complements. A byte that
was quoted stands for itself, and so does one behind a backslash. A bracket without its closing
partner is a bracket. Matching goes over the text from left to right and keeps all positions of the
pattern that are possible, so its cost is the product of both lengths.
-/

namespace RabinReward.Shell

/-- A byte of a pattern, and whether quotes protect it. -/
structure PatternByte where
  byte : Char
  quoted : Bool
  deriving DecidableEq, Repr

/-- Bytes that a set contains. -/
inductive SetItem where
  | range (low high : Char)
  | cls (name : String)
  deriving DecidableEq, Repr

inductive PatternItem where
  | byte (c : Char)
  | any
  | many
  | set (complement : Bool) (items : List SetItem)
  deriving DecidableEq, Repr

abbrev Pattern := List PatternItem

/-- The named classes of bytes. -/
def byteClass? (name : String) : Option (Char → Bool) :=
  match name with
  | "alnum" => some isAlnum
  | "alpha" => some isAlpha
  | "blank" => some isBlankByte
  | "cntrl" => some isControl
  | "digit" => some isDigit
  | "graph" => some isGraph
  | "lower" => some isLower
  | "print" => some isPrint
  | "punct" => some isPunct
  | "space" => some isSpace
  | "upper" => some isUpper
  | "xdigit" => some isHexDigit
  | _ => none

def SetItem.contains (c : Char) : SetItem → Bool
  | .range low high => low ≤ c && c ≤ high
  | .cls name => (byteClass? name).any (· c)

/-! ## Reading patterns -/

def PatternByte.is (p : PatternByte) (c : Char) : Bool := !p.quoted && p.byte == c

/-- The name of a class behind its opening `[:`, and what follows the closing `:]`. -/
def className? : List PatternByte → List Char → Option (String × List PatternByte)
  | a :: b :: rest, acc =>
    if a.is ':' && b.is ']' then
      let name := String.ofList acc.reverse
      if (byteClass? name).isSome then some (name, rest) else none
    else if isAlpha a.byte && !a.quoted then className? (b :: rest) (a.byte :: acc)
    else none
  | _, _ => none

/-- Drops the backslash in front of a byte of a set. -/
def dropBackslash : List PatternByte → List PatternByte
  | a :: b :: rest => if a.is '\\' then ⟨b.byte, true⟩ :: rest else a :: b :: rest
  | l => l

/-- The items of a set up to its closing bracket; the first byte is always an item. -/
def setItems? : Nat → Bool → List PatternByte → Option (List SetItem × List PatternByte)
  | 0, _, _ => none
  | _, _, [] => none
  | n + 1, first, a :: rest =>
    if !first && a.is ']' then some ([], rest)
    else
      let cls := match rest with
        | b :: more => if a.is '[' && b.is ':' then className? more [] else none
        | [] => none
      match cls with
      | some (name, rest) => do
        let (is, r) ← setItems? n false rest
        return (.cls name :: is, r)
      | none =>
        match dropBackslash (a :: rest) with
        | [] => none
        | a :: rest =>
          match rest with
          | dash :: high :: more =>
            if dash.is '-' && !high.is ']' then
              match dropBackslash (high :: more) with
              | [] => none
              | high :: more => do
                let (is, r) ← setItems? n false more
                return (.range a.byte high.byte :: is, r)
            else do
              let (is, r) ← setItems? n false rest
              return (.range a.byte a.byte :: is, r)
          | rest => do
            let (is, r) ← setItems? n false rest
            return (.range a.byte a.byte :: is, r)

/-- The set behind an opening bracket. -/
def set? (cs : List PatternByte) : Option (PatternItem × List PatternByte) :=
  match cs with
  | a :: rest =>
    if a.is '!' then do
      let (is, r) ← setItems? (rest.length + 1) true rest
      return (.set true is, r)
    else do
      let (is, r) ← setItems? (cs.length + 1) true cs
      return (.set false is, r)
  | [] => none

/-- Reads a pattern. -/
def patternOf : Nat → List PatternByte → Pattern
  | 0, _ => []
  | _, [] => []
  | n + 1, a :: rest =>
    if a.is '*' then .many :: patternOf n rest
    else if a.is '?' then .any :: patternOf n rest
    else if a.is '[' then
      match set? rest with
      | some (i, r) => i :: patternOf n r
      | none => .byte '[' :: patternOf n rest
    else if a.is '\\' then
      match rest with
      | b :: r => .byte b.byte :: patternOf n r
      | [] => [.byte '\\']
    else .byte a.byte :: patternOf n rest

def Pattern.ofBytes (l : List PatternByte) : Pattern := patternOf (l.length + 1) l

/-! ## Matching -/

def PatternItem.accepts (c : Char) : PatternItem → Bool
  | .byte d => c == d
  | .any => true
  | .many => true
  | .set complement items => (items.any (·.contains c)) != complement

/-- Whether a pattern matches the empty text. -/
def Pattern.acceptsEmpty (p : Pattern) : Bool := p.all fun | .many => true | _ => false

/-- What may be left of a pattern after none of its leading stars matched anything. -/
def Pattern.tails : Pattern → List Pattern
  | .many :: p => (.many :: p) :: Pattern.tails p
  | p => [p]

/-- What may be left of a pattern after it matched one byte. -/
def Pattern.step (c : Char) (p : Pattern) : List Pattern :=
  (p.tails.flatMap fun
    | .many :: q => [.many :: q]
    | i :: q => if i.accepts c then [q] else []
    | [] => [])

/-- Drops patterns that are the same number of items long as one before them. -/
def distinctTails (l : List Pattern) : List Pattern :=
  l.foldl (fun acc p => if acc.any (·.length == p.length) then acc else acc ++ [p]) []

/-- Whether one of the tails of a pattern matches a whole text. -/
def matchTails : List Pattern → List Char → Bool
  | ps, [] => ps.any Pattern.acceptsEmpty
  | ps, c :: cs => matchTails (distinctTails (ps.flatMap (Pattern.step c))) cs

/-- Whether a pattern matches a whole text. -/
def Pattern.matches (p : Pattern) (cs : List Char) : Bool := matchTails [p] cs

/-- The lengths of the prefixes of a text that a pattern matches, the shortest first. -/
def Pattern.matchingLengths (p : Pattern) (cs : List Char) : List Nat :=
  (List.range (cs.length + 1)).filter fun n => p.matches (cs.take n)

/-- Cuts what a pattern matches off one end of a text. -/
def Pattern.trim (p : Pattern) (back longest : Bool) (cs : List Char) : List Char :=
  if back then
    let ns := (List.range (cs.length + 1)).filter fun n => p.matches (cs.drop n)
    match if longest then ns.head? else ns.getLast? with
    | some n => cs.take n
    | none => cs
  else
    let ns := p.matchingLengths cs
    match if longest then ns.getLast? else ns.head? with
    | some n => cs.drop n
    | none => cs

end RabinReward.Shell
