import RabinReward.Automaton.Basic
import RabinReward.Automaton.Hanoi.Line
import RabinReward.Guard.Parser

/-!
# Reading automata

The header collects the number of states, the initial state and the acceptance condition; a later
line overrides an earlier one. The body declares every state once, in any order, each followed by
its transitions. Lines are read in order and the first that is wrong ends the reading; what is
missing is reported when its part of the text ends.
-/

namespace RabinReward.Hanoi

/-- The parts that a text must have. -/
inductive Part where
  | states
  | acceptance
  | body
  | ending
  deriving DecidableEq, Repr

def Part.name : Part → String
  | .states => "States"
  | .acceptance => "Acceptance"
  | .body => "--BODY--"
  | .ending => "--END--"

inductive ParseError where
  | missing (part : Part)
  | acceptanceBeforeStates (line : Nat)
  | acceptanceMismatch (line sets pairs : Nat)
  | initialStateOutOfRange (line index count : Nat)
  | stateOutOfRange (line index count : Nat)
  | duplicateState (line index : Nat)
  | incompleteStates (declared found : Nat)
  | transitionBeforeState (line : Nat)
  | destinationOutOfRange (line destination count : Nat)
  | guard (line : Nat) (source : Guard.ParseError)
  | malformed (line : Nat) (content : String)
  deriving DecidableEq, Repr

def ParseError.message : ParseError → String
  | .missing p => s!"Missing \"{p.name}\" section"
  | .acceptanceBeforeStates l =>
    s!"Line {l}: \"{Part.acceptance.name}\" must come after the \"{Part.states.name}\" header"
  | .acceptanceMismatch l sets pairs =>
    s!"Line {l}: {sets} acceptance sets declared but {pairs} Fin/Inf pairs found"
  | .initialStateOutOfRange l i n =>
    s!"Line {l}: initial state {i} is out of range for {n} states"
  | .stateOutOfRange l i n => s!"Line {l}: state {i} is out of range for {n} states"
  | .duplicateState l i => s!"Line {l}: state {i} is declared twice"
  | .incompleteStates declared found => s!"{declared} states declared but only {found} defined"
  | .transitionBeforeState l => s!"Line {l}: transition before the first state"
  | .destinationOutOfRange l d n =>
    s!"Line {l}: transition to state {d}, only {n} states exist"
  | .guard l source => s!"Line {l}: invalid guard: {source.message}"
  | .malformed l content => s!"Line {l}: malformed line \"{content}\""

/-! ## Header -/

/-- What the header has said so far; `start` keeps the line that said it. -/
structure Header where
  states : Option Nat
  start : Option (Nat × Nat)
  acceptance : Option (List RabinPair)
  deriving DecidableEq

def Header.empty : Header := ⟨none, none, none⟩

/-- The pair of two acceptance sets, whose tokens are their numerals. -/
def pairOfSets (p : Nat × Nat) : RabinPair := ⟨.ofList [Nat.repr p.1], .ofList [Nat.repr p.2]⟩

/-- Reads one header line other than the one that opens the body. -/
def Header.step (h : Header) (line : Nat) (cs : List Char) : Except ParseError Header :=
  match headerLine cs with
  | .states n => .ok { h with states := some n }
  | .start i => .ok { h with start := some (line, i) }
  | .acceptance content =>
    if h.states.isNone then .error (.acceptanceBeforeStates line)
    else
      match content with
      | none => .error (.malformed line (String.ofList cs))
      | some (sets, pairs) =>
        if pairs.length * 2 = sets then .ok { h with acceptance := some (pairs.map pairOfSets) }
        else .error (.acceptanceMismatch line sets pairs.length)
  | .malformed => .error (.malformed line (String.ofList cs))
  | .body | .other => .ok h

/-- Reads the header, and gives the lines of the body with the number of their first one. -/
def readHeader (h : Header) (line : Nat) :
    List (List Char) → Except ParseError (Header × Option (Nat × List (List Char)))
  | [] => .ok (h, none)
  | cs :: rest =>
    if headerLine cs = .body then .ok (h, some (line + 1, rest))
    else
      match h.step line cs with
      | .ok h => readHeader h (line + 1) rest
      | .error e => .error e

/-! ## Body -/

/-- The states declared so far, the latest one first. -/
abbrev Body := List (Nat × State Guard)

def Body.addState (b : Body) (count line index : Nat) (label : List Char) :
    Except ParseError Body :=
  if count ≤ index then .error (.stateOutOfRange line index count)
  else if (b.lookup index).isSome then .error (.duplicateState line index)
  else .ok ((index, ⟨String.ofList label, []⟩) :: b)

/-- A transition belongs to the latest state. -/
def Body.addTransition (b : Body) (count line : Nat) (guard : List Char) (destination : Nat)
    (tokens : List Char) : Except ParseError Body :=
  match b with
  | [] => .error (.transitionBeforeState line)
  | (i, s) :: b =>
    if count ≤ destination then .error (.destinationOutOfRange line destination count)
    else
      match Guard.parseChars guard with
      | .error e => .error (.guard line e)
      | .ok g =>
        let t : Transition Guard :=
          ⟨g, destination, .ofList ((Text.words tokens).map String.ofList)⟩
        .ok ((i, { s with transitions := s.transitions ++ [t] }) :: b)

/-- Reads the body up to its last line. -/
def readBody (count : Nat) (b : Body) (line : Nat) : List (List Char) → Except ParseError Body
  | [] => .error (.missing .ending)
  | cs :: rest =>
    match bodyLine cs with
    | .blank => readBody count b (line + 1) rest
    | .ending => .ok b
    | .state index label =>
      match b.addState count line index label with
      | .ok b => readBody count b (line + 1) rest
      | .error e => .error e
    | .transition guard destination tokens =>
      match b.addTransition count line guard destination tokens with
      | .ok b => readBody count b (line + 1) rest
      | .error e => .error e
    | .malformed => .error (.malformed line (String.ofList cs))

/-- The declared states in the order of their indices. -/
def Body.states (b : Body) (count : Nat) : List (State Guard) :=
  (List.range count).filterMap fun i => b.lookup i

/-! ## Text -/

/-- The initial state, the first one if the header names none. -/
def Header.initial (h : Header) (count : Nat) : Except ParseError Nat :=
  match h.start with
  | none => .ok 0
  | some (line, i) => if count ≤ i then .error (.initialStateOutOfRange line i count) else .ok i

/-- Reads an automaton from trimmed lines. -/
def parseLines (lines : List (List Char)) : Except ParseError Description := do
  let (h, body) ← readHeader .empty 1 lines
  let some count := h.states | throw (.missing .states)
  let some pairs := h.acceptance | throw (.missing .acceptance)
  let some (line, rest) := body | throw (.missing .body)
  let initial ← h.initial count
  let b ← readBody count [] line rest
  if b.length = count then return ⟨initial, pairs, b.states count⟩
  else throw (.incompleteStates count b.length)

/-- Reads an automaton. -/
def parse (text : String) : Except ParseError Description :=
  parseLines ((Text.lines text.toList).map Text.trim)

end RabinReward.Hanoi
