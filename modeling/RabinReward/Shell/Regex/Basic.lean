import RabinReward.Shell.Pattern

/-!
# Regular expressions

An expression says which stretches of a text it matches and what its groups hold then. `ways` lists
the places where a match can end, given where it begins, the preferred one first; it keeps one way
for each place, so that its cost stays a power of the text's length. `search` takes the match that
begins first, and of those the longest.
-/

namespace RabinReward.Shell

/-- Conditions on the place between two bytes. -/
inductive Edge where
  | lineStart
  | lineEnd
  | textStart
  | textEnd
  | wordStart
  | wordEnd
  /-- The start or the end of a word. -/
  | border
  | noBorder
  deriving DecidableEq, Repr

inductive Regex where
  | empty
  | byte (c : Char)
  | any
  | set (complement : Bool) (items : List SetItem)
  | seq (a b : Regex)
  | alt (a b : Regex)
  | many (r : Regex) (least : Nat) (most : Option Nat)
  | group (n : Nat) (r : Regex)
  /-- What a group holds once more. -/
  | again (n : Nat)
  | edge (e : Edge)
  deriving Repr, Inhabited

namespace Regex

/-- A text in which matches are looked for. -/
structure Subject where
  bytes : Array Char
  ignoreCase : Bool
  /-- Whether lines inside the text have a start and an end of their own. -/
  multiline : Bool

/-- Where a match has come to: a position, and what groups hold as positions. -/
structure Place where
  position : Nat
  groups : List (Nat × Nat × Nat)
  deriving DecidableEq, Repr, Inhabited

def Place.group? (p : Place) (n : Nat) : Option (Nat × Nat) :=
  (p.groups.find? (·.1 == n)).map (·.2)

def isWord (c : Char) : Bool := isAlnum c || c == '_'

def edgeHolds (s : Subject) (i : Nat) (e : Edge) : Bool :=
  let before := if i = 0 then none else s.bytes[i - 1]?
  let behind := s.bytes[i]?
  let left := before.any isWord
  let right := behind.any isWord
  match e with
  | .lineStart => i = 0 || (s.multiline && before == some '\n')
  | .lineEnd => i = s.bytes.size || (s.multiline && behind == some '\n')
  | .textStart => i = 0
  | .textEnd => i = s.bytes.size
  | .wordStart => !left && right
  | .wordEnd => left && !right
  | .border => left != right
  | .noBorder => left == right

def Subject.same (s : Subject) (a b : Char) : Bool :=
  a == b || (s.ignoreCase && toLower a == toLower b)

def Subject.inSet (s : Subject) (complement : Bool) (items : List SetItem) (c : Char) : Bool :=
  let has (c : Char) : Bool := items.any (SetItem.contains c)
  (has c || (s.ignoreCase && (has (toLower c) || has (toUpper c)))) != complement

/-- The first way for each position. -/
def firstWays (ps : List Place) : List Place :=
  (ps.foldl (fun acc p => if acc.any (·.position == p.position) then acc else p :: acc) []).reverse

/-- Ways that end later come first. -/
def longestFirst (ps : List Place) : List Place :=
  ps.mergeSort fun a b => a.position ≥ b.position

/-- One byte that satisfies a condition. -/
def one (s : Subject) (test : Char → Bool) (p : Place) : List Place :=
  if s.bytes[p.position]?.any test then [{ p with position := p.position + 1 }] else []

/-- Repeats a step exactly `n` times. -/
def times (step : Place → List Place) : Nat → List Place → List Place
  | 0, ps => ps
  | n + 1, ps => times step n (firstWays (ps.flatMap step))

/-- Repeats a step up to `n` times, without coming back to where it has been. -/
def upTo (step : Place → List Place) : Nat → List Place → List Place → List Place
  | 0, _, found => found
  | n + 1, ps, found =>
    let fresh := (firstWays (ps.flatMap step)).filter fun p =>
      !found.any (·.position == p.position)
    if fresh.isEmpty then found else upTo step n fresh (found ++ fresh)

/-- Whether a text stands at a position. -/
def standsAt (s : Subject) (i : Nat) : List Char → Bool
  | [] => true
  | c :: cs => s.bytes[i]?.any (s.same c) && standsAt s (i + 1) cs

def ways (s : Subject) : Regex → Place → List Place
  | .empty, p => [p]
  | .byte c, p => one s (s.same c) p
  | .any, p => one s (fun _ => true) p
  | .set complement items, p => one s (s.inSet complement items) p
  | .seq a b, p => firstWays ((ways s a p).flatMap (ways s b))
  | .alt a b, p => firstWays (longestFirst (ways s a p ++ ways s b p))
  | .many r least most, p =>
    let step := ways s r
    let front := times step least [p]
    let more := match most with
      | some m => m - least
      | none => s.bytes.size + 1
    longestFirst (upTo step more front front)
  | .group n r, p =>
    (ways s r p).map fun q =>
      { q with groups := (n, p.position, q.position) :: q.groups.filter (·.1 != n) }
  | .again n, p =>
    match p.group? n with
    | some (a, b) =>
      if standsAt s p.position (s.bytes.extract a b).toList then
        [{ p with position := p.position + (b - a) }]
      else []
    | none => []
  | .edge e, p => if edgeHolds s p.position e then [p] else []

/-- A match: from where to where, and what its groups hold. -/
structure Match where
  start : Nat
  stop : Nat
  groups : List (Nat × Nat × Nat)
  deriving Repr, Inhabited

/-- The longest match that begins at a position. -/
def matchAt? (r : Regex) (s : Subject) (i : Nat) : Option Match :=
  (longestFirst (r.ways s ⟨i, []⟩)).head?.map fun p => ⟨i, p.position, p.groups⟩

/-- The first match that begins at one of the next `n` positions. -/
def searchFrom? (r : Regex) (s : Subject) : Nat → Nat → Option Match
  | 0, _ => none
  | n + 1, i =>
    match r.matchAt? s i with
    | some m => some m
    | none => r.searchFrom? s n (i + 1)

/-- The first match that does not begin before a position. -/
def search? (r : Regex) (s : Subject) (i : Nat) : Option Match :=
  r.searchFrom? s (s.bytes.size + 1 - i) i

end Regex

end RabinReward.Shell
