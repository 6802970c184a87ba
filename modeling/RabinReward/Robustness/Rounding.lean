import RabinReward.Robustness.Basic

/-!
# Rounded arithmetic

Every operation that can leave the representable values computes the exact rational first and
rounds it once. A `Rounding` is that last step, so one definition of the arithmetic serves both a
floating-point format and the exact reading (`Rounding.exact`). The operations on infinities and
`nan` do not depend on it.
-/

namespace RabinReward

/-- What becomes of the exact result of an operation. -/
structure Rounding where
  round : Rat → Robustness

namespace Rounding

/-- Arithmetic without rounding. -/
def exact : Rounding := ⟨.finite⟩

def add (ρ : Rounding) : Robustness → Robustness → Robustness
  | .nan, _ | _, .nan => .nan
  | .negInf, .posInf | .posInf, .negInf => .nan
  | .negInf, _ | _, .negInf => .negInf
  | .posInf, _ | _, .posInf => .posInf
  | .finite a, .finite b => ρ.round (a + b)

def sub (ρ : Rounding) (a b : Robustness) : Robustness := ρ.add a (-b)

/-- A quotient by zero is infinite with the dividend's sign. -/
def div (ρ : Rounding) : Robustness → Robustness → Robustness
  | .nan, _ | _, .nan => .nan
  | .negInf, .negInf | .negInf, .posInf | .posInf, .negInf | .posInf, .posInf => .nan
  | .finite _, .negInf | .finite _, .posInf => 0
  | .negInf, .finite b => if b < 0 then .posInf else .negInf
  | .posInf, .finite b => if b < 0 then .negInf else .posInf
  | .finite a, .finite b =>
    if b = 0 then if a = 0 then .nan else if a < 0 then .negInf else .posInf
    else ρ.round (a / b)

end Rounding

end RabinReward
