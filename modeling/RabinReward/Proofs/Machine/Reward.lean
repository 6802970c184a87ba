import RabinReward.Proofs.Machine.DeadState
import RabinReward.Proofs.Robustness.Rounding

/-!
# Rewards are defined

A machine is paid in exact arithmetic or in single precision (`Arithmetic`). In both the scale is a
positive rational, progress is a rational, and being where the machine accepts is worth one. What is
added to progress is the robustness of a guard or of a near miss, which may be infinite but not
`nan`, so no reward is `nan` (`Ticks.reward_defined`).
-/

namespace RabinReward

theorem Robustness.clamp_ne_nan {a lo hi : Robustness} (h : a ≠ .nan) (hlo : lo ≠ .nan)
    (hhi : hi ≠ .nan) : a.clamp lo hi ≠ .nan := by
  unfold clamp
  split
  · exact hlo
  · split
    · exact hhi
    · exact h

theorem Robustness.max_ne_nan {a b : Robustness} (ha : a ≠ .nan) (hb : b ≠ .nan) :
    a.max b ≠ .nan := by
  rcases max_eq_or a b with h | h <;> rw [h]
  · exact ha
  · exact hb

namespace Machine

variable {m : Machine} {ρ : Rounding} {s s' : Snapshot} {reward : Robustness}

/-- The arithmetics that a machine is paid in: exact, or in single precision with a scale of 32
bits. -/
inductive Arithmetic (m : Machine) : Rounding → Prop where
  | exact : Arithmetic m .exact
  | single : m.scale < 2 ^ 32 → Arithmetic m .single

theorem Arithmetic.round_ne_nan (hρ : m.Arithmetic ρ) (q : Rat) : ρ.round q ≠ .nan := by
  cases hρ with
  | exact => nofun
  | single => exact Format.round_ne_nan _ q

/-! ## The scale -/

theorem WellFormed.hops_le_scale (hm : m.WellFormed) {i hops : Nat}
    (h : m.distances[i]? = some (.finite hops)) : hops ≤ m.scale := by
  rw [hm.scale_eq]
  exact Distance.le_largest (Array.mem_of_getElem? h)

theorem WellFormed.scale_ne_zero (hm : m.WellFormed) : ((m.scale : Nat) : Rat) ≠ 0 := by
  have := hm.scale_pos
  exact_mod_cast this.ne'

/-- A count of 32 bits stays finite in single precision and keeps half of its size. -/
theorem exists_single_count {n : Nat} (hn : 0 < n) (hbits : n < 2 ^ 32) :
    ∃ r, Rounding.single.round n = .finite r ∧ 1 / 2 ≤ r ∧ r ≤ 2 ^ 33 := by
  have hlo : (1 : Rat) ≤ n := by exact_mod_cast hn
  have hhi : (n : Rat) ≤ 2 ^ 32 := by exact_mod_cast hbits.le
  obtain ⟨r, hr, hnear⟩ := Rounding.single_round_finite (q := n) (by linarith) (by linarith)
  obtain ⟨hlower, hupper⟩ := hnear hlo
  exact ⟨r, hr, by linarith, by linarith⟩

theorem WellFormed.exists_scale (hm : m.WellFormed) (hρ : m.Arithmetic ρ) :
    ∃ r : Rat, ρ.round m.scale = .finite r ∧ 0 < r := by
  cases hρ with
  | exact =>
    have hpos : (0 : Rat) < m.scale := by exact_mod_cast hm.scale_pos
    exact ⟨m.scale, rfl, hpos⟩
  | single hbits =>
    obtain ⟨r, hr, hlo, -⟩ := exists_single_count hm.scale_pos hbits
    exact ⟨r, hr, by linarith⟩

/-! ## Progress -/

theorem WellFormed.exists_progress (hm : m.WellFormed) (hρ : m.Arithmetic ρ) (i : Nat) :
    ∃ q, m.progress ρ i = .finite q := by
  unfold progress
  cases m.distance i with
  | infinite => exact ⟨0, rfl⟩
  | finite hops =>
    cases hρ with
    | exact => exact ⟨_, Rounding.div_finite hm.scale_ne_zero⟩
    | single hbits =>
      obtain ⟨r, hr, hlo, -⟩ := exists_single_count hm.scale_pos hbits
      simp only [hr]
      rcases Nat.eq_zero_or_pos (m.scale - hops) with hzero | hpos
      · rw [hzero, show Rounding.single.round ((0 : Nat) : Rat) = .finite 0 from rfl,
          Rounding.div_finite (by linarith), zero_div]
        exact ⟨0, rfl⟩
      · obtain ⟨p, hp, hplo, hphi⟩ := exists_single_count hpos (by omega)
        rw [hp, Rounding.div_finite (by linarith)]
        have hnonneg : 0 ≤ p / r := div_nonneg (by linarith) (by linarith)
        have hle : p / r ≤ 2 ^ 64 := by
          rw [div_le_iff₀ (by linarith)]
          linarith
        obtain ⟨q, hq, -⟩ := Rounding.single_round_finite hnonneg hle
        exact ⟨q, hq⟩

/-- Being where the machine accepts is worth the whole scale. -/
theorem WellFormed.progress_goal (hm : m.WellFormed) (hρ : m.Arithmetic ρ) {i : Nat}
    (hi : m.distance i = .finite 0) : m.progress ρ i = 1 := by
  obtain ⟨r, hr, hpos⟩ := hm.exists_scale hρ
  simp only [progress, hi, Nat.sub_zero, hr]
  rw [Rounding.div_finite hpos.ne', div_self hpos.ne']
  cases hρ with
  | exact => rfl
  | single => exact Rounding.single_round_one

/-! ## Rewards -/

theorem WellFormed.nearMissReward_ne_nan (hm : m.WellFormed) (hρ : m.Arithmetic ρ)
    {x : Robustness} (hx : x ≠ .nan) : m.nearMissReward ρ x ≠ .nan := by
  obtain ⟨r, hr, hpos⟩ := hm.exists_scale hρ
  unfold nearMissReward
  rw [hr]
  refine Rounding.div_ne_nan hρ.round_ne_nan (Rounding.add_ne_nan hρ.round_ne_nan ?_) hpos.ne'
  split
  · exact Robustness.clamp_ne_nan hx nofun nofun
  · exact hx

theorem Ticks.reward_defined (hm : m.WellFormed) (hρ : m.Arithmetic ρ)
    (h : m.Ticks ρ s reward s') : reward ≠ .nan := by
  obtain ⟨values, h⟩ := h.stepCase
  cases h with
  | halted _ | stuck _ _ | undefined _ _ _ | rejected _ _ _ _ _ => nofun
  | moved _ _ _ | accepted _ _ _ _ _ _ =>
    obtain ⟨q, hq⟩ := hm.exists_progress hρ _
    rw [hq]
    nofun
  | nearMissed _ _ _ hnear =>
    obtain ⟨q, hq⟩ := hm.exists_progress hρ s.active
    rw [hq]
    refine Rounding.add_ne_nan hρ.round_ne_nan ?_
    exact hm.nearMissReward_ne_nan hρ (exists_of_nearMiss_eq_some hnear).1
  | acceptedOn _ hbest _ _ _ _ =>
    obtain ⟨q, hq⟩ := hm.exists_progress hρ s.active
    rw [hq]
    exact Rounding.add_ne_nan hρ.round_ne_nan hbest.ne_nan

end Machine

end RabinReward
