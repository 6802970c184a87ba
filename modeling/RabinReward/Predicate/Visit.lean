import RabinReward.Predicate.Basic

/-!
# Visiting predicates

`visit` walks the predicates below a list of roots in pre-order, keeping what is still to do in a
list. A handle is visited once however many paths lead to it; a predicate without identity is
visited along every path. A reset visits the same way and reaches each sensor in turn.
-/

namespace RabinReward

namespace Predicate

/-- Visits a work list, skipping handles that have been seen. -/
def visitFrom (seen : List Identity) : List Predicate → List Predicate
  | [] => []
  | p :: rest =>
    match p.identity with
    | none => p :: visitFrom seen (p.children ++ rest)
    | some id =>
      if id ∈ seen then visitFrom seen rest else p :: visitFrom (id :: seen) (p.children ++ rest)
termination_by todo => totalSize todo
decreasing_by
  all_goals
    have := totalSize_children p
    simp only [totalSize_append, totalSize]
    omega

/-- The predicates below the roots in the order in which they are visited. -/
def visit (roots : List Predicate) : List Predicate := visitFrom [] roots

/-- Number of predicates below the roots, each handle counted once. -/
def reachable (roots : List Predicate) : Nat := (visit roots).length

end Predicate

/-- A leaf of the host with a value that it sets and a count of the resets that reached it. -/
structure Sensor where
  value : Robustness
  resets : Nat
  deriving DecidableEq, Repr

namespace Sensor

def setValue (x : Robustness) (s : Sensor) : Sensor := { s with value := x }

def reset (s : Sensor) : Sensor := { s with resets := s.resets + 1 }

end Sensor

/-- Resets each of the given predicates, one after the other. -/
def resetAll (sensors : Array Sensor) (visited : List Predicate) : Array Sensor :=
  (visited.filterMap Predicate.resetTarget).foldl (fun a s => a.modify s Sensor.reset) sensors

end RabinReward
