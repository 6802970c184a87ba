import RabinReward.Robustness.Binary
import Mathlib.Algebra.Order.Field.Power
import Mathlib.Algebra.Order.Field.Rat
import Mathlib.Data.Rat.Cast.Order
import Mathlib.Tactic.Linarith
import Mathlib.Tactic.NormNum
import Mathlib.Tactic.Positivity

/-!
# Rounding stays near

The last place of a positive number is no more than the number itself or one, and a number is moved
by half a place at most when it is rounded. So below the bound of a format rounding is finite
(`Format.round_eq_finite`) and changes the order of magnitude by a factor of two at most. Sums and
quotients of finite operands are then defined in every arithmetic whose rounding is.
-/

namespace RabinReward

namespace Format

variable {f : Format} {q : Rat}

/-- Rounding to an integer moves a number by half at most. -/
theorem nearestEven_bounds (q : Rat) :
    q - 1 / 2 ≤ (nearestEven q : Rat) ∧ (nearestEven q : Rat) ≤ q + 1 / 2 := by
  have hlo : (q.floor : Rat) ≤ q := Rat.floor_le q
  have hhi : q - 1 < (q.floor : Rat) := Rat.lt_floor
  simp only [nearestEven]
  split_ifs with h₁ h₂ h₃
  all_goals
    push_cast
    constructor <;> linarith

theorem two_zpow_leadingExponent_le (hq : 0 < q) : (2 : Rat) ^ leadingExponent q ≤ q := by
  simp only [leadingExponent]
  split_ifs with h
  · exact h
  · have hnum : 0 < q.num := Rat.num_pos.2 hq
    have hn : ((2 ^ q.num.natAbs.log2 : Nat) : Rat) ≤ (q.num.natAbs : Rat) := by
      exact_mod_cast Nat.log2_self_le (by omega)
    have hd : (q.den : Rat) ≤ ((2 ^ (q.den.log2 + 1) : Nat) : Rat) := by
      exact_mod_cast Nat.lt_log2_self.le
    have hexp : (q.num.natAbs.log2 : Int) - q.den.log2 - 1 =
        (q.num.natAbs.log2 : Int) - ((q.den.log2 + 1 : Nat) : Int) := by
      push_cast
      omega
    have hcast : ((q.num.natAbs : Nat) : Rat) = (q.num : Rat) := by
      rw [← Int.cast_natCast, Int.natAbs_of_nonneg hnum.le]
    have hden : (0 : Rat) < q.den := by exact_mod_cast q.den_pos
    calc (2 : Rat) ^ ((q.num.natAbs.log2 : Int) - q.den.log2 - 1)
        = ((2 ^ q.num.natAbs.log2 : Nat) : Rat) / ((2 ^ (q.den.log2 + 1) : Nat) : Rat) := by
          rw [hexp, zpow_sub₀ two_ne_zero, zpow_natCast, zpow_natCast]
          push_cast
          rfl
      _ ≤ (q.num.natAbs : Rat) / (q.den : Rat) := div_le_div₀ (by positivity) hn hden hd
      _ = q := by rw [hcast, Rat.num_div_den]

theorem two_zpow_place_le (hf : f.leastPlace ≤ 0) (hq : 0 < q) :
    (2 : Rat) ^ f.place q ≤ max q 1 := by
  simp only [place]
  split_ifs
  · refine le_max_of_le_right ?_
    exact zpow_le_one_of_nonpos₀ one_le_two hf
  · refine le_max_of_le_left ?_
    refine le_trans (zpow_le_zpow_right₀ one_le_two ?_) (two_zpow_leadingExponent_le hq)
    omega

/-- Below the bound a number is rounded to one that is near. -/
theorem roundMagnitude_eq_some (hf : f.leastPlace ≤ 0) (hq : 0 < q)
    (hbound : 2 * max q 1 < 2 ^ f.bound) :
    ∃ r, f.roundMagnitude q = some r ∧ q - max q 1 / 2 ≤ r ∧ r ≤ q + max q 1 / 2 := by
  have hunit : (0 : Rat) < 2 ^ f.place q := by positivity
  have hplace := two_zpow_place_le hf hq
  obtain ⟨hlo, hhi⟩ := nearestEven_bounds (q / 2 ^ f.place q)
  have hq' : q / 2 ^ f.place q * 2 ^ f.place q = q := div_mul_cancel₀ q hunit.ne'
  have hlo' := mul_le_mul_of_nonneg_right hlo hunit.le
  have hhi' := mul_le_mul_of_nonneg_right hhi hunit.le
  rw [sub_mul, hq'] at hlo'
  rw [add_mul, hq'] at hhi'
  have hmax : q ≤ max q 1 := le_max_left q 1
  refine ⟨nearestEven (q / 2 ^ f.place q) * (2 : Rat) ^ f.place q, ?_, by linarith, by linarith⟩
  simp only [roundMagnitude]
  rw [if_neg hq.ne', if_pos (by linarith)]

theorem round_ne_nan (f : Format) (q : Rat) : f.round q ≠ .nan := by
  unfold round
  split
  · split <;> nofun
  · nofun

theorem round_eq_finite (hf : f.leastPlace ≤ 0) (hq : 0 ≤ q) (hbound : 2 * max q 1 < 2 ^ f.bound) :
    ∃ r, f.round q = .finite r ∧ (1 ≤ q → q / 2 ≤ r ∧ r ≤ 2 * q) := by
  rcases hq.eq_or_lt with rfl | hpos
  · exact ⟨0, rfl, fun h => by linarith⟩
  · obtain ⟨r, hr, hlo, hhi⟩ := roundMagnitude_eq_some hf hpos hbound
    have habs : q.abs = q := Rat.abs_of_nonneg hq
    refine ⟨r, ?_, fun h => ?_⟩
    · simp only [round, habs, hr, if_neg (not_lt.2 hq)]
    · rw [max_eq_left h] at hlo hhi
      constructor <;> linarith

end Format

namespace Rounding

/-! ## Single precision -/

theorem single_round_one : single.round 1 = 1 := by decide +kernel

theorem single_round_finite {q : Rat} (h : 0 ≤ q) (hle : q ≤ 2 ^ 64) :
    ∃ r, single.round q = .finite r ∧ (1 ≤ q → q / 2 ≤ r ∧ r ≤ 2 * q) := by
  refine Format.round_eq_finite (by decide) h ?_
  have hmax : max q 1 ≤ 2 ^ 64 := max_le hle (by norm_num)
  have hbound : (2 : Rat) * 2 ^ 64 < 2 ^ (128 : Int) := by norm_num
  exact lt_of_le_of_lt (by linarith) hbound

/-! ## Defined results -/

variable {ρ : Rounding} {a : Robustness} {p q : Rat}

theorem div_finite (hq : q ≠ 0) : ρ.div (.finite p) (.finite q) = ρ.round (p / q) := by
  rw [div, if_neg hq]

theorem add_ne_nan (hround : ∀ q, ρ.round q ≠ .nan) (ha : a ≠ .nan) :
    ρ.add (.finite p) a ≠ .nan := by
  cases a with
  | nan => exact absurd rfl ha
  | finite q => exact hround (p + q)
  | negInf | posInf => nofun

theorem div_ne_nan (hround : ∀ q, ρ.round q ≠ .nan) (ha : a ≠ .nan) (hq : q ≠ 0) :
    ρ.div a (.finite q) ≠ .nan := by
  cases a with
  | nan => exact absurd rfl ha
  | finite p =>
    rw [div_finite hq]
    exact hround (p / q)
  | negInf | posInf =>
    rw [div]
    split <;> nofun

end Rounding

end RabinReward
