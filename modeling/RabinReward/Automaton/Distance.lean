import RabinReward.Automaton.Basic

/-!
# Distances to acceptance

The distance of a state is the least number of transitions to an accepting state. All distances are
computed together by relaxation: a round gives every state that does not accept one more than the
least distance among its successors, as they were the round before. Rounds are repeated until
nothing changes, at most as often as there are states.
-/

namespace RabinReward

/-- A number of transitions, or no way at all. -/
inductive Distance where
  | finite (hops : Nat)
  | infinite
  deriving DecidableEq, Repr, Inhabited

namespace Distance

/-- `infinite` is above every finite distance. -/
def lt : Distance → Distance → Bool
  | .finite a, .finite b => a < b
  | .finite _, .infinite => true
  | .infinite, _ => false

instance : LT Distance := ⟨fun a b => a.lt b = true⟩

instance : DecidableLT Distance := fun a b => inferInstanceAs (Decidable (a.lt b = true))

theorem lt_def {a b : Distance} : a < b ↔ a.lt b = true := Iff.rfl

@[simp] theorem finite_lt_finite {a b : Nat} : finite a < finite b ↔ a < b := by simp [lt_def, lt]

@[simp] theorem finite_lt_infinite {a : Nat} : finite a < infinite := by simp [lt_def, lt]

@[simp] theorem not_infinite_lt {a : Distance} : ¬infinite < a := by simp [lt_def, lt]

def compare (a b : Distance) : Ordering := if a < b then .lt else if b < a then .gt else .eq

def finite? : Distance → Option Nat
  | .finite n => some n
  | .infinite => none

def isFinite (d : Distance) : Bool := d.finite?.isSome

def print : Distance → String
  | .finite n => Nat.repr n
  | .infinite => "inf"

def min (a b : Distance) : Distance := if b < a then b else a

/-- One transition further. -/
def succ : Distance → Distance
  | .finite n => .finite (n + 1)
  | .infinite => .infinite

variable {γ : Type}

/-- The distance of a state if its successors have the given ones. -/
def ofSuccessors (pairs : List RabinPair) (d : Array Distance) (s : State γ) : Distance :=
  if s.accepting pairs then .finite 0
  else s.transitions.foldr (fun t n => (d[t.destination]?.getD .infinite).succ.min n) .infinite

/-- One round: every state from the distances of its successors. -/
def relax (pairs : List RabinPair) (states : List (State γ)) (d : Array Distance) :
    Array Distance :=
  (states.map (ofSuccessors pairs d)).toArray

/-- Rounds until nothing changes, at most the given number. -/
def settle (pairs : List RabinPair) (states : List (State γ)) :
    Nat → Array Distance → Array Distance
  | 0, d => d
  | n + 1, d =>
    let d' := relax pairs states d
    if d' = d then d else settle pairs states n d'

/-- The distance of every state. -/
def toGoal (pairs : List RabinPair) (states : List (State γ)) : Array Distance :=
  settle pairs states states.length (Array.replicate states.length .infinite)

/-- The largest finite distance, zero if there is none. -/
def largest (d : Array Distance) : Nat := d.toList.foldr (fun x n => (x.finite?.getD 0).max n) 0

end Distance

end RabinReward
