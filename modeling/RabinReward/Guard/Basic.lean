import RabinReward.SortedSet

/-!
# Guards

A guard is a Boolean combination of atomic propositions, each named by its index in the list of
propositions that the formula of the behavior was compiled with. Guards print in a fully
parenthesised form that the reader accepts.
-/

namespace RabinReward

/-- Boolean conditions over indexed propositions. -/
inductive Guard where
  | literal (b : Bool)
  | prop (index : UInt32)
  | not (g : Guard)
  | and (l r : Guard)
  | or (l r : Guard)
  deriving DecidableEq, Repr, Inhabited

namespace Guard

def print : Guard → String
  | .literal true => "t"
  | .literal false => "f"
  | .prop i => Nat.repr i.toNat
  | .not g => "!" ++ g.print
  | .and l r => "(" ++ l.print ++ "&" ++ r.print ++ ")"
  | .or l r => "(" ++ l.print ++ "|" ++ r.print ++ ")"

/-- The indices at the leaves, from left to right. -/
def leaves : Guard → List UInt32
  | .literal _ => []
  | .prop i => [i]
  | .not g => g.leaves
  | .and l r | .or l r => l.leaves ++ r.leaves

/-- The propositions that a guard mentions. -/
def propositions (g : Guard) : SortedSet UInt32 := .ofList g.leaves

theorem mem_propositions {g : Guard} {i : UInt32} : i ∈ g.propositions ↔ i ∈ g.leaves :=
  SortedSet.mem_ofList

/-- The truth of a guard under a valuation of the propositions. -/
def holds (v : UInt32 → Bool) : Guard → Bool
  | .literal b => b
  | .prop i => v i
  | .not g => !g.holds v
  | .and l r => l.holds v && r.holds v
  | .or l r => l.holds v || r.holds v

end Guard

end RabinReward
