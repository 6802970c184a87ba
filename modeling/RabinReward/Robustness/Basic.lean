/-!
# Robustness values

A robustness measures how clearly a condition holds: positive when it does, negative when it does
not. Values are the rationals extended with both infinities and `nan`, the value of a measurement
that failed. `nan` is not comparable to anything; `min` and `max` prefer an operand that is not
`nan`. There is one zero.
-/

namespace RabinReward

/-- Extended rationals with an undefined value. -/
inductive Robustness where
  | nan
  | negInf
  | finite (q : Rat)
  | posInf
  deriving DecidableEq, Repr, Inhabited

namespace Robustness

instance : OfNat Robustness n := ⟨.finite n⟩

def isNan : Robustness → Bool
  | .nan => true
  | _ => false

def neg : Robustness → Robustness
  | .nan => .nan
  | .negInf => .posInf
  | .finite q => .finite (-q)
  | .posInf => .negInf

instance : Neg Robustness := ⟨neg⟩

/-- The order, under which `nan` is comparable to nothing. -/
def le : Robustness → Robustness → Bool
  | .nan, _ | _, .nan => false
  | .negInf, _ | _, .posInf => true
  | .finite a, .finite b => a ≤ b
  | .posInf, _ | _, .negInf => false

/-- The strict order, under which `nan` is comparable to nothing. -/
def lt : Robustness → Robustness → Bool
  | .nan, _ | _, .nan => false
  | .negInf, .negInf | .posInf, _ => false
  | .negInf, _ => true
  | .finite a, .finite b => a < b
  | .finite _, .negInf => false
  | .finite _, .posInf => true

instance : LE Robustness := ⟨fun a b => a.le b = true⟩

instance : LT Robustness := ⟨fun a b => a.lt b = true⟩

instance : DecidableLE Robustness := fun a b => inferInstanceAs (Decidable (a.le b = true))

instance : DecidableLT Robustness := fun a b => inferInstanceAs (Decidable (a.lt b = true))

/-- The smaller of two values, or the one that is not `nan`. -/
def min (a b : Robustness) : Robustness :=
  if a.isNan then b else if b.isNan then a else if b < a then b else a

/-- The larger of two values, or the one that is not `nan`. -/
def max (a b : Robustness) : Robustness :=
  if a.isNan then b else if b.isNan then a else if a < b then b else a

/-- The nearest value between two bounds; `nan` stays. -/
def clamp (a lo hi : Robustness) : Robustness := if a < lo then lo else if hi < a then hi else a

theorem le_def {a b : Robustness} : a ≤ b ↔ a.le b = true := Iff.rfl

theorem lt_def {a b : Robustness} : a < b ↔ a.lt b = true := Iff.rfl

theorem finite_le_finite {p q : Rat} : finite p ≤ finite q ↔ p ≤ q := decide_eq_true_iff

theorem finite_lt_finite {p q : Rat} : finite p < finite q ↔ p < q := decide_eq_true_iff

theorem le_refl {a : Robustness} (h : a ≠ .nan) : a ≤ a := by
  cases a with
  | nan => exact absurd rfl h
  | finite q => exact finite_le_finite.2 Rat.le_refl
  | negInf | posInf => rfl

theorem le_trans {a b c : Robustness} (h₁ : a ≤ b) (h₂ : b ≤ c) : a ≤ c := by
  cases a <;> cases b <;> cases c
  case finite.finite.finite p q r =>
    exact finite_le_finite.2 (Rat.le_trans (finite_le_finite.1 h₁) (finite_le_finite.1 h₂))
  all_goals simp_all [le_def, le]

theorem not_le {a b : Robustness} (ha : a ≠ .nan) (hb : b ≠ .nan) : ¬a ≤ b ↔ b < a := by
  cases a <;> cases b
  case finite.finite p q => rw [finite_le_finite, finite_lt_finite, Rat.not_le]
  all_goals simp_all [le_def, lt_def, le, lt]

end Robustness

end RabinReward
