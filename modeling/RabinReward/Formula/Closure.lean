import RabinReward.Formula.Basic

/-!
# Closure, untils and powersets

The closure of a formula holds the formula and, recursively, the operands of every operator but `G`
and `F`, each printed form once and in pre-order. `untils` walks the same way and keeps every `U`
node. `subsets` lists all sublists of a list, a list before its extensions.
-/

namespace RabinReward

namespace Formula

/-- Appends a formula unless one that prints alike is already listed. -/
def addNew (acc : List Formula) (f : Formula) : List Formula :=
  if acc.any f.sameText then acc else acc ++ [f]

/-- Adds the closure of a formula to a list, in pre-order. -/
def closureFrom (acc : List Formula) : Formula → List Formula
  | .not f => f.closureFrom (addNew acc (.not f))
  | .next f => f.closureFrom (addNew acc (.next f))
  | .and l r => r.closureFrom (l.closureFrom (addNew acc (.and l r)))
  | .or l r => r.closureFrom (l.closureFrom (addNew acc (.or l r)))
  | .until l r => r.closureFrom (l.closureFrom (addNew acc (.until l r)))
  | .release l r => r.closureFrom (l.closureFrom (addNew acc (.release l r)))
  | f => addNew acc f

/-- The closure of a formula, which it begins with itself. -/
def closure (f : Formula) : List Formula := f.closureFrom []

/-- The `U` subformulas of a formula outside `G` and `F`, outermost first. -/
def untils : Formula → List Formula
  | .not f | .next f => f.untils
  | .and l r | .or l r | .release l r => l.untils ++ r.untils
  | .until l r => .until l r :: (l.untils ++ r.untils)
  | .atom _ | .tt | .ff | .globally _ | .eventually _ => []

end Formula

/-- The choices that extend `chosen` with members of a list. Each member in turn is taken, and
everything that can follow it is listed before the next one is. -/
def extensions {α : Type} (chosen : List α) : List α → List (List α)
  | [] => []
  | a :: l => (chosen ++ [a]) :: extensions (chosen ++ [a]) l ++ extensions chosen l

/-- All sublists of a list, a sublist before its extensions. -/
def subsets {α : Type} (l : List α) : List (List α) := [] :: extensions [] l

end RabinReward
