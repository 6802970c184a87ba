import RabinReward.Robustness.Rounding

/-!
# Blackboard values

The typed values that a host shares with predicates. Integers have 64 bits and widen to robustness
values where a number is asked for.
-/

namespace RabinReward

/-- The index of a blackboard entry, in order of creation. -/
abbrev EntryId := Nat

inductive ValueKind where
  | bool
  | int
  | float
  | text
  deriving DecidableEq, Repr

def ValueKind.name : ValueKind → String
  | .bool => "bool"
  | .int => "int"
  | .float => "float"
  | .text => "text"

inductive Value where
  | bool (b : Bool)
  | int (i : Int64)
  | float (x : Robustness)
  | text (s : String)
  deriving DecidableEq, Repr

namespace Value

def kind : Value → ValueKind
  | .bool _ => .bool
  | .int _ => .int
  | .float _ => .float
  | .text _ => .text

def asBool : Value → Option Bool
  | .bool b => some b
  | _ => none

/-- The numeric reading of a value. -/
def asFloat (ρ : Rounding) : Value → Option Robustness
  | .int i => some (ρ.round i.toInt)
  | .float x => some x
  | _ => none

end Value

end RabinReward
