import RabinReward.Text.Blank
import RabinReward.Text.Numeral

/-!
# Lines of an automaton's text

The Hanoi format is read line by line, each line trimmed. This module takes single lines apart: the
counting headers, the acceptance condition, state lines and transition lines. Numbers have at most
64 bits; between the parts of a line stand spaces and tabs.
-/

namespace RabinReward.Hanoi

/-- Numbers stay below this bound. -/
def wordBound : Nat := UInt64.size

def number? (cs : List Char) : Option (Nat × List Char) := Text.numeral? wordBound cs

def isSpace (c : Char) : Bool := c == ' ' || c == '\t'

def skipSpaces (cs : List Char) : List Char := cs.dropWhile isSpace

/-- At least one space. -/
def spaces? : List Char → Option (List Char)
  | [] => none
  | c :: cs => if isSpace c then some (skipSpaces cs) else none

/-- What follows a fixed text. -/
def after? (text : String) (cs : List Char) : Option (List Char) := text.toList.isPrefixOf? cs

/-- What stands in front of the next closing character, and what follows it. -/
def upTo? (closing : Char) : List Char → Option (List Char × List Char)
  | [] => none
  | c :: cs =>
    if c = closing then some ([], cs) else (upTo? closing cs).map fun (x, r) => (c :: x, r)

/-- A header line of a name and one number. -/
def count? (name : String) (cs : List Char) : Option Nat := do
  let r ← after? name cs
  let (n, r) ← number? (skipSpaces r)
  if r.isEmpty then some n else none

/-- A number between an opening text and a closing parenthesis. -/
def numberIn? (opening : String) (cs : List Char) : Option (Nat × List Char) := do
  let r ← after? opening cs
  let (n, r) ← number? r
  let r ← after? ")" r
  return (n, r)

/-- A conjunction `Fin(i)&Inf(j)` in front, and what follows it. -/
def rabinPair? (cs : List Char) : Option ((Nat × Nat) × List Char) := do
  let (i, r) ← numberIn? "Fin(" cs
  let r ← after? "&" (skipSpaces r)
  let (j, r) ← numberIn? "Inf(" (skipSpaces r)
  return ((i, j), r)

/-- The conjunctions that a scan finds behind the next `skip` characters. It tries wherever it meets
`Fin(` and goes on behind the conjunction that it reads there, or behind `Fin(` if it reads none. -/
def scanPairs : Nat → List Char → List (Nat × Nat)
  | _, [] => []
  | skip + 1, _ :: cs => scanPairs skip cs
  | 0, c :: cs =>
    if (after? "Fin(" (c :: cs)).isSome then
      match rabinPair? (c :: cs) with
      | some (pair, r) => pair :: scanPairs (cs.length - r.length) cs
      | none => scanPairs 3 cs
    else scanPairs 0 cs

/-- The conjunctions `Fin(i)&Inf(j)` of an acceptance condition, in order. -/
def rabinPairs (cs : List Char) : List (Nat × Nat) := scanPairs 0 cs

/-- The number of acceptance sets and the pairs of an acceptance line. -/
def acceptance? (cs : List Char) : Option (Nat × List (Nat × Nat)) := do
  let r ← after? "Acceptance:" cs
  let (sets, condition) ← number? (skipSpaces r)
  return (sets, rabinPairs condition)

/-- The end of a state line: nothing, or a label in quotes. -/
def label? (cs : List Char) : Option (List Char) :=
  if cs.isEmpty then some []
  else do
    let r ← spaces? cs
    let r ← after? "\"" r
    let (label, r) ← upTo? '"' r
    if r.isEmpty then some label else none

/-- The index and the label of a state line. -/
def state? (cs : List Char) : Option (Nat × List Char) := do
  let r ← after? "State:" cs
  let (index, r) ← number? (skipSpaces r)
  let label ← label? r
  return (index, label)

/-- The end of a transition line: nothing, or acceptance tokens in braces. -/
def tokens? (cs : List Char) : Option (List Char) :=
  if cs.isEmpty then some []
  else do
    let r ← after? "\x7b" (skipSpaces cs)
    let (tokens, r) ← upTo? '}' r
    if r.isEmpty then some tokens else none

/-- The guard, the destination and the tokens of a transition line. -/
def transition? (cs : List Char) : Option (List Char × Nat × List Char) := do
  let r ← after? "[" cs
  let (guard, r) ← upTo? ']' r
  let r ← spaces? r
  let (destination, r) ← number? r
  let tokens ← tokens? r
  return (guard, destination, tokens)

/-- What a header line says. -/
inductive HeaderLine where
  | body
  | states (count : Nat)
  | start (index : Nat)
  | acceptance (content : Option (Nat × List (Nat × Nat)))
  | malformed
  | other
  deriving DecidableEq, Repr

def headerLine (cs : List Char) : HeaderLine :=
  if cs = "--BODY--".toList then .body
  else
    match count? "States:" cs, count? "Start:" cs with
    | some n, _ => .states n
    | none, some i => .start i
    | none, none =>
      if (after? "Acceptance:" cs).isSome then .acceptance (acceptance? cs)
      else if (after? "States:" cs).isSome || (after? "Start:" cs).isSome then .malformed
      else .other

/-- What a line of the body says. -/
inductive BodyLine where
  | blank
  | ending
  | state (index : Nat) (label : List Char)
  | transition (guard : List Char) (destination : Nat) (tokens : List Char)
  | malformed
  deriving DecidableEq, Repr

def bodyLine (cs : List Char) : BodyLine :=
  if cs.isEmpty then .blank
  else if cs = "--END--".toList then .ending
  else
    match state? cs, transition? cs with
    | some (i, label), _ => .state i label
    | none, some (g, d, ts) => .transition g d ts
    | none, none => .malformed

end RabinReward.Hanoi
