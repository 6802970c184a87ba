import RabinReward.Blackboard.Value

/-!
# Predicates

A predicate yields a robustness whenever it is asked. Its leaves read what the host provides: a
sensor's value or a blackboard entry. Predicates are shared: `shared id p` is the handle `id` to
the predicate `p`, and every occurrence of a handle carries the same contents. A handle measures
and lists exactly what its contents do; only its identity differs.
-/

namespace RabinReward

/-- The name of a shared handle. -/
abbrev Identity := Nat

/-- The index of a sensor of the host. -/
abbrev SensorId := Nat

inductive Predicate where
  /-- Holds with robustness one. -/
  | always
  | sensor (s : SensorId)
  /-- Holds while the entry is the Boolean `true`. -/
  | flag (e : EntryId)
  /-- Holds while `a` is below `b`, by as much as `b` exceeds `a`. -/
  | lessThan (a b : EntryId)
  | not (p : Predicate)
  | and (l r : Predicate)
  | or (l r : Predicate)
  | implies (l r : Predicate)
  | shared (id : Identity) (p : Predicate)
  deriving DecidableEq, Repr, Inhabited

/-- What the host shows at one moment. -/
structure Readings where
  sensor : SensorId → Robustness
  entry : EntryId → Option Value

/-- The number that an entry shows, `nan` if it shows none. -/
def Readings.number (r : Readings) (ρ : Rounding) (e : EntryId) : Robustness :=
  ((r.entry e).bind (·.asFloat ρ)).getD .nan

namespace Predicate

/-- How clearly a predicate holds. -/
def robustness (ρ : Rounding) (r : Readings) : Predicate → Robustness
  | .always => 1
  | .sensor s => r.sensor s
  | .flag e => if (r.entry e).bind (·.asBool) = some true then 1 else -1
  | .lessThan a b => ρ.sub (r.number ρ b) (r.number ρ a)
  | .not p => -p.robustness ρ r
  | .and l r' => (l.robustness ρ r).min (r'.robustness ρ r)
  | .or l r' => (l.robustness ρ r).max (r'.robustness ρ r)
  | .implies l r' => (-l.robustness ρ r).max (r'.robustness ρ r)
  | .shared _ p => p.robustness ρ r

/-- The predicates that a predicate is composed of. -/
def children : Predicate → List Predicate
  | .always | .sensor _ | .flag _ | .lessThan _ _ => []
  | .not p => [p]
  | .and l r | .or l r | .implies l r => [l, r]
  | .shared _ p => p.children

def identity : Predicate → Option Identity
  | .shared id _ => some id
  | _ => none

/-- What a handle points at. -/
def contents : Predicate → Predicate
  | .shared _ p => p
  | p => p

/-- The sensor that a reset of the predicate itself, not of its operands, reaches. -/
def resetTarget : Predicate → Option SensorId
  | .sensor s => some s
  | .shared _ p => p.resetTarget
  | _ => none

/-- Number of nodes, counted along every path. -/
def size : Predicate → Nat
  | .always | .sensor _ | .flag _ | .lessThan _ _ => 1
  | .not p => p.size + 1
  | .and l r | .or l r | .implies l r => l.size + r.size + 1
  | .shared _ p => p.size + 1

/-- Number of nodes of all predicates of a list. -/
def totalSize : List Predicate → Nat
  | [] => 0
  | p :: ps => p.size + totalSize ps

theorem totalSize_append (ps qs : List Predicate) :
    totalSize (ps ++ qs) = totalSize ps + totalSize qs := by
  induction ps with
  | nil => exact (Nat.zero_add _).symm
  | cons p ps ih => rw [List.cons_append, totalSize, totalSize, ih, Nat.add_assoc]

theorem totalSize_children (p : Predicate) : totalSize p.children < p.size := by
  induction p with
  | shared _ p ih => simp only [children, size]; omega
  | always | sensor _ | flag _ | lessThan _ _ => exact Nat.one_pos
  | not p =>
    simp only [children, size, totalSize]
    omega
  | and l r | or l r | implies l r =>
    simp only [children, size, totalSize]
    omega

end Predicate

end RabinReward
