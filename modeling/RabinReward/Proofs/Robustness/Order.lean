import RabinReward.Robustness.Basic

/-!
# The order of robustness values

Away from `nan` the order is linear and `min`, `max` and negation behave as usual. The lemmas about
`min` and `max` say how the result compares with a third value, so that no later proof asks which
operand was chosen.
-/

namespace RabinReward.Robustness

variable {a b c : Robustness}

/-! ## Comparisons -/

theorem finite_ne_nan (q : Rat) : finite q ≠ .nan := nofun

theorem ne_nan_of_le (h : a ≤ b) : a ≠ .nan ∧ b ≠ .nan := by
  constructor
  · rintro rfl
    cases h
  · rintro rfl
    cases a <;> cases h

theorem ne_nan_of_lt (h : a < b) : a ≠ .nan ∧ b ≠ .nan := by
  constructor
  · rintro rfl
    cases h
  · rintro rfl
    cases a <;> cases h

theorem not_lt (ha : a ≠ .nan) (hb : b ≠ .nan) : ¬a < b ↔ b ≤ a := by
  rw [← not_le hb ha, Classical.not_not]

theorem le_antisymm (h₁ : a ≤ b) (h₂ : b ≤ a) : a = b := by
  cases a <;> cases b
  case finite.finite p q =>
    rw [Rat.le_antisymm (finite_le_finite.1 h₁) (finite_le_finite.1 h₂)]
  all_goals simp_all [le_def, le]

theorem le_of_lt (h : a < b) : a ≤ b := by
  cases a <;> cases b
  case finite.finite p q => exact finite_le_finite.2 (Rat.le_of_lt (finite_lt_finite.1 h))
  all_goals simp_all [le_def, lt_def, le, lt]

theorem lt_of_le_of_lt (h₁ : a ≤ b) (h₂ : b < c) : a < c := by
  have hc := (ne_nan_of_lt h₂).2
  have hab := ne_nan_of_le h₁
  refine (not_le hc hab.1).1 fun hca => ?_
  exact (not_le hc hab.2).2 h₂ (le_trans hca h₁)

theorem lt_of_lt_of_le (h₁ : a < b) (h₂ : b ≤ c) : a < c := by
  have ha := (ne_nan_of_lt h₁).1
  have hbc := ne_nan_of_le h₂
  refine (not_le hbc.2 ha).1 fun hca => ?_
  exact (not_le hbc.1 ha).2 h₁ (le_trans h₂ hca)

theorem lt_trans (h₁ : a < b) (h₂ : b < c) : a < c := lt_of_le_of_lt (le_of_lt h₁) h₂

theorem pos_or_neg (ha : a ≠ .nan) (h0 : a ≠ 0) : 0 < a ∨ a < 0 := by
  cases a with
  | nan => exact absurd rfl ha
  | negInf => exact .inr rfl
  | posInf => exact .inl rfl
  | finite q =>
    have hq : q ≠ 0 := fun h => h0 (congrArg finite h)
    rcases Rat.le_total (a := 0) (b := q) with h | h
    · exact .inl (finite_lt_finite.2 (Rat.lt_of_le_of_ne h hq.symm))
    · exact .inr (finite_lt_finite.2 (Rat.lt_of_le_of_ne h hq))

theorem not_neg_of_pos (h : 0 < a) : ¬a < 0 := by
  intro h'
  exact (not_le (ne_nan_of_lt h).1 (ne_nan_of_lt h).2).2 h' (le_of_lt h)

/-! ## Negation -/

theorem neg_neg (a : Robustness) : -(-a) = a := by
  cases a with
  | finite q => exact congrArg finite (Rat.neg_neg q)
  | nan | negInf | posInf => rfl

theorem neg_ne_nan (h : a ≠ .nan) : -a ≠ .nan := by
  cases a with
  | nan => exact absurd rfl h
  | negInf | finite q | posInf => nofun

theorem neg_lt_neg_iff : -a < -b ↔ b < a := by
  cases a <;> cases b
  case finite.finite p q =>
    exact finite_lt_finite.trans (Rat.neg_lt_neg_iff.trans finite_lt_finite.symm)
  all_goals exact Iff.rfl

theorem neg_zero : -(0 : Robustness) = 0 := rfl

theorem neg_ne_zero (h : a ≠ 0) : -a ≠ 0 := fun h0 => h (by rw [← neg_neg a, h0, neg_zero])

theorem zero_lt_neg : 0 < -a ↔ a < 0 := by
  rw [← neg_lt_neg_iff (a := 0), neg_zero]

theorem neg_lt_zero : -a < 0 ↔ 0 < a := by
  rw [← neg_lt_neg_iff (b := 0), neg_zero]

/-! ## Minimum and maximum -/

theorem isNan_eq_false (h : a ≠ .nan) : a.isNan = false := by
  cases a with
  | nan => exact absurd rfl h
  | negInf | finite q | posInf => rfl

theorem min_eq_ite (ha : a ≠ .nan) (hb : b ≠ .nan) : a.min b = if b < a then b else a := by
  simp only [min, isNan_eq_false ha, isNan_eq_false hb, Bool.false_eq_true, ↓reduceIte]

theorem max_eq_ite (ha : a ≠ .nan) (hb : b ≠ .nan) : a.max b = if a < b then b else a := by
  simp only [max, isNan_eq_false ha, isNan_eq_false hb, Bool.false_eq_true, ↓reduceIte]

theorem lt_min_iff (ha : a ≠ .nan) (hb : b ≠ .nan) : c < a.min b ↔ c < a ∧ c < b := by
  rw [min_eq_ite ha hb]
  split
  · rename_i h
    exact ⟨fun hc => ⟨lt_trans hc h, hc⟩, And.right⟩
  · rename_i h
    exact ⟨fun hc => ⟨hc, lt_of_lt_of_le hc ((not_lt hb ha).1 h)⟩, And.left⟩

theorem min_lt_iff (ha : a ≠ .nan) (hb : b ≠ .nan) : a.min b < c ↔ a < c ∨ b < c := by
  rw [min_eq_ite ha hb]
  split
  · rename_i h
    exact ⟨.inr, fun hc => hc.elim (lt_trans h) id⟩
  · rename_i h
    exact ⟨.inl, fun hc => hc.elim id (lt_of_le_of_lt ((not_lt hb ha).1 h))⟩

theorem lt_max_iff (ha : a ≠ .nan) (hb : b ≠ .nan) : c < a.max b ↔ c < a ∨ c < b := by
  rw [max_eq_ite ha hb]
  split
  · rename_i h
    exact ⟨.inr, fun hc => hc.elim (lt_trans · h) id⟩
  · rename_i h
    exact ⟨.inl, fun hc => hc.elim id (lt_of_lt_of_le · ((not_lt ha hb).1 h))⟩

theorem max_lt_iff (ha : a ≠ .nan) (hb : b ≠ .nan) : a.max b < c ↔ a < c ∧ b < c := by
  rw [max_eq_ite ha hb]
  split
  · rename_i h
    exact ⟨fun hc => ⟨lt_trans h hc, hc⟩, And.right⟩
  · rename_i h
    exact ⟨fun hc => ⟨hc, lt_of_le_of_lt ((not_lt ha hb).1 h) hc⟩, And.left⟩

theorem le_max_left (ha : a ≠ .nan) (hb : b ≠ .nan) : a ≤ a.max b := by
  rw [max_eq_ite ha hb]
  split
  · rename_i h
    exact le_of_lt h
  · exact le_refl ha

theorem le_max_right (ha : a ≠ .nan) (hb : b ≠ .nan) : b ≤ a.max b := by
  rw [max_eq_ite ha hb]
  split
  · exact le_refl hb
  · rename_i h
    exact (not_lt ha hb).1 h

theorem min_eq_or (a b : Robustness) : a.min b = a ∨ a.min b = b := by
  unfold min
  repeat' split
  all_goals simp

theorem max_eq_or (a b : Robustness) : a.max b = a ∨ a.max b = b := by
  unfold max
  repeat' split
  all_goals simp

end RabinReward.Robustness
