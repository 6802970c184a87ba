import RabinReward.Predicate.Resolution
import RabinReward.Proofs.Robustness.Order

/-!
# The robustness of a guard

`Guard.value` is the min/max/negation reading of a guard over robustness values of its propositions.
The predicate that a guard becomes measures it (`robustness_toPredicate`). Its sign is sound for
truth: `sign_sound` compares it with every valuation that agrees with the signs of the propositions.
Where no proposition is undefined or zero there is exactly one such valuation and the guard is true
when its value is positive (`value_pos_iff`).
-/

namespace RabinReward

theorem bind_eq_ok {ε α β : Type} {x : Except ε α} {f : α → Except ε β} {b : β} :
    (x >>= f) = .ok b ↔ ∃ a, x = .ok a ∧ f a = .ok b := by
  cases x <;> simp [bind, Except.bind]

namespace Guard

def value (v : UInt32 → Robustness) : Guard → Robustness
  | .literal true => 1
  | .literal false => -1
  | .prop i => v i
  | .not g => -g.value v
  | .and l r => (l.value v).min (r.value v)
  | .or l r => (l.value v).max (r.value v)

variable {v : UInt32 → Robustness} {b : UInt32 → Bool} {g : Guard}

theorem value_eq_or (v : UInt32 → Robustness) (g : Guard) :
    g.value v = 1 ∨ g.value v = -1 ∨ ∃ i ∈ g.leaves, g.value v = v i ∨ g.value v = -v i := by
  induction g with
  | literal c =>
    cases c
    · exact .inr (.inl rfl)
    · exact .inl rfl
  | prop i => exact .inr (.inr ⟨i, List.mem_singleton_self i, .inl rfl⟩)
  | not g ih =>
    rw [value, leaves]
    rcases ih with h | h | ⟨i, hi, h | h⟩
    · exact .inr (.inl (by rw [h]))
    · exact .inl (by rw [h, Robustness.neg_neg])
    · exact .inr (.inr ⟨i, hi, .inr (by rw [h])⟩)
    · exact .inr (.inr ⟨i, hi, .inl (by rw [h, Robustness.neg_neg])⟩)
  | and l r ihl ihr =>
    rw [value, leaves]
    rcases Robustness.min_eq_or (l.value v) (r.value v) with hm | hm <;> rw [hm]
    · exact ihl.imp_right (.imp_right fun ⟨i, hi, h⟩ => ⟨i, List.mem_append_left _ hi, h⟩)
    · exact ihr.imp_right (.imp_right fun ⟨i, hi, h⟩ => ⟨i, List.mem_append_right _ hi, h⟩)
  | or l r ihl ihr =>
    rw [value, leaves]
    rcases Robustness.max_eq_or (l.value v) (r.value v) with hm | hm <;> rw [hm]
    · exact ihl.imp_right (.imp_right fun ⟨i, hi, h⟩ => ⟨i, List.mem_append_left _ hi, h⟩)
    · exact ihr.imp_right (.imp_right fun ⟨i, hi, h⟩ => ⟨i, List.mem_append_right _ hi, h⟩)

theorem value_ne_nan (h : ∀ i ∈ g.leaves, v i ≠ .nan) : g.value v ≠ .nan := by
  rcases value_eq_or v g with hg | hg | ⟨i, hi, hg | hg⟩ <;> rw [hg]
  · nofun
  · nofun
  · exact h i hi
  · exact Robustness.neg_ne_nan (h i hi)

theorem value_ne_zero (h : ∀ i ∈ g.leaves, v i ≠ 0) : g.value v ≠ 0 := by
  rcases value_eq_or v g with hg | hg | ⟨i, hi, hg | hg⟩ <;> rw [hg]
  · decide
  · decide
  · exact h i hi
  · exact Robustness.neg_ne_zero (h i hi)

/-- A positive value makes a guard true and a negative one false, under any valuation that does the
same for the propositions. -/
theorem sign_sound (hv : ∀ i ∈ g.leaves, v i ≠ .nan)
    (hb : ∀ i ∈ g.leaves, (0 < v i → b i = true) ∧ (v i < 0 → b i = false)) :
    (0 < g.value v → g.holds b = true) ∧ (g.value v < 0 → g.holds b = false) := by
  induction g with
  | literal c =>
    cases c
    · exact ⟨nofun, fun _ => rfl⟩
    · exact ⟨fun _ => rfl, nofun⟩
  | prop i => exact hb i (List.mem_singleton_self i)
  | not g ih =>
    simp only [value, holds, Robustness.zero_lt_neg, Robustness.neg_lt_zero, Bool.not_eq_true',
      Bool.not_eq_false']
    exact (ih hv hb).symm
  | and l r ihl ihr =>
    rw [leaves, List.forall_mem_append] at hv hb
    have hl := ihl hv.1 hb.1
    have hr := ihr hv.2 hb.2
    simp only [value, holds, Robustness.lt_min_iff (value_ne_nan hv.1) (value_ne_nan hv.2),
      Robustness.min_lt_iff (value_ne_nan hv.1) (value_ne_nan hv.2), Bool.and_eq_true,
      Bool.and_eq_false_iff]
    exact ⟨And.imp hl.1 hr.1, Or.imp hl.2 hr.2⟩
  | or l r ihl ihr =>
    rw [leaves, List.forall_mem_append] at hv hb
    have hl := ihl hv.1 hb.1
    have hr := ihr hv.2 hb.2
    simp only [value, holds, Robustness.lt_max_iff (value_ne_nan hv.1) (value_ne_nan hv.2),
      Robustness.max_lt_iff (value_ne_nan hv.1) (value_ne_nan hv.2), Bool.or_eq_true,
      Bool.or_eq_false_iff]
    exact ⟨Or.imp hl.1 hr.1, And.imp hl.2 hr.2⟩

/-- Where no proposition is undefined or zero, truth is having a positive value. -/
theorem value_pos_iff (h : ∀ i ∈ g.leaves, v i ≠ .nan ∧ v i ≠ 0) :
    0 < g.value v ↔ g.holds (fun i => decide (0 < v i)) = true := by
  have hnan := value_ne_nan fun i hi => (h i hi).1
  have hzero := value_ne_zero fun i hi => (h i hi).2
  have hsign := sign_sound (b := fun i => decide (0 < v i)) (fun i hi => (h i hi).1) fun i _ =>
    ⟨decide_eq_true, fun hneg => decide_eq_false fun hpos => Robustness.not_neg_of_pos hpos hneg⟩
  refine ⟨hsign.1, fun hg => (Robustness.pos_or_neg hnan hzero).resolve_right fun hneg => ?_⟩
  rw [hsign.2 hneg] at hg
  cases hg

/-! ## Measuring a guard -/

/-- The robustness that the handles for the propositions show. -/
def row (ρ : Rounding) (r : Readings) (props : List Predicate) (i : UInt32) : Robustness :=
  ((props[i.toNat]?).map (·.robustness ρ r)).getD .nan

theorem operands_eq_ok {f : Predicate → Predicate → Predicate} {props : List Predicate}
    {fresh n : Identity} {l r : Guard} {p : Predicate}
    (h : (do
      let (p, n) ← l.toPredicate props fresh
      let (q, n) ← r.toPredicate props n
      return (.shared n (f p q), n + 1)) = Except.ok (p, n)) :
    ∃ p₁ n₁ p₂ n₂, l.toPredicate props fresh = .ok (p₁, n₁) ∧
      r.toPredicate props n₁ = .ok (p₂, n₂) ∧ p = .shared n₂ (f p₁ p₂) ∧ n = n₂ + 1 := by
  obtain ⟨⟨p₁, n₁⟩, hl, h⟩ := bind_eq_ok.1 h
  obtain ⟨⟨p₂, n₂⟩, hr, h⟩ := bind_eq_ok.1 h
  cases h
  exact ⟨p₁, n₁, p₂, n₂, hl, hr, rfl, rfl⟩

/-- The predicate of a guard measures its value, and the handles cover every proposition that the
guard mentions. -/
theorem robustness_toPredicate {props : List Predicate} {fresh n : Identity} {p : Predicate}
    (h : g.toPredicate props fresh = .ok (p, n)) (ρ : Rounding) (r : Readings) :
    p.robustness ρ r = g.value (row ρ r props) ∧ ∀ i ∈ g.leaves, i.toNat < props.length := by
  induction g generalizing fresh p n with
  | literal c => cases c <;> cases h <;> exact ⟨rfl, nofun⟩
  | prop i =>
    simp only [toPredicate] at h
    split at h
    · rename_i q hq
      cases h
      refine ⟨by rw [value, row, hq]; rfl, fun j hj => ?_⟩
      rw [List.mem_singleton.1 hj]
      exact (List.getElem?_eq_some_iff.1 hq).1
    · cases h
  | not g ih =>
    obtain ⟨⟨q, m⟩, hq, h⟩ := bind_eq_ok.1 h
    cases h
    obtain ⟨hval, hrange⟩ := ih hq
    exact ⟨congrArg Neg.neg hval, hrange⟩
  | and l r' ihl ihr =>
    obtain ⟨p₁, n₁, p₂, n₂, hp, hq, rfl, -⟩ := operands_eq_ok h
    obtain ⟨hl, hlrange⟩ := ihl hp
    obtain ⟨hr, hrrange⟩ := ihr hq
    refine ⟨by simp only [Predicate.robustness, value, hl, hr], ?_⟩
    rw [leaves]
    exact List.forall_mem_append.2 ⟨hlrange, hrrange⟩
  | or l r' ihl ihr =>
    obtain ⟨p₁, n₁, p₂, n₂, hp, hq, rfl, -⟩ := operands_eq_ok h
    obtain ⟨hl, hlrange⟩ := ihl hp
    obtain ⟨hr, hrrange⟩ := ihr hq
    refine ⟨by simp only [Predicate.robustness, value, hl, hr], ?_⟩
    rw [leaves]
    exact List.forall_mem_append.2 ⟨hlrange, hrrange⟩

end Guard

end RabinReward
