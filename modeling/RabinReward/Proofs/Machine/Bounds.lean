import RabinReward.Proofs.Machine.Specification

/-!
# Bounds of rewards

In exact arithmetic a tick is paid a share of the scale, at least zero and at most one, with two
exceptions (`StepCase.reward_cases`). A near miss pays more than the progress made, and an accepting
loop of a machine that goes on pays its robustness as well. A near miss stays near one all the same:
something leads closer, so at least one step of the scale is still missing.
-/

namespace RabinReward

/-! ## Rational bounds -/

namespace Robustness

variable {x y : Robustness} {lo hi lo' hi' r : Rat}

def Within (lo hi : Rat) (x : Robustness) : Prop :=
  .finite lo ≤ x ∧ x ≤ .finite hi

instance : Decidable (x.Within lo hi) :=
  inferInstanceAs (Decidable (_ ∧ _))

theorem within_finite {q : Rat} : (finite q).Within lo hi ↔ lo ≤ q ∧ q ≤ hi :=
  and_congr finite_le_finite finite_le_finite

theorem within_one : (1 : Robustness).Within 1 1 := within_finite.2 ⟨le_rfl, le_rfl⟩

theorem Within.exists_finite (h : x.Within lo hi) : ∃ q, x = .finite q ∧ lo ≤ q ∧ q ≤ hi := by
  cases x with
  | finite q => exact ⟨q, rfl, within_finite.1 h⟩
  | nan | negInf => cases h.1
  | posInf => cases h.2

theorem Within.mono (h : x.Within lo hi) (hlo : lo' ≤ lo) (hhi : hi ≤ hi') : x.Within lo' hi' := by
  obtain ⟨q, rfl, hloq, hqhi⟩ := h.exists_finite
  exact within_finite.2 ⟨hlo.trans hloq, hqhi.trans hhi⟩

theorem Within.add (h : x.Within lo hi) (h' : y.Within lo' hi') :
    (Rounding.exact.add x y).Within (lo + lo') (hi + hi') := by
  obtain ⟨p, rfl, hlop, hphi⟩ := h.exists_finite
  obtain ⟨q, rfl, hloq, hqhi⟩ := h'.exists_finite
  exact within_finite.2 ⟨add_le_add hlop hloq, add_le_add hphi hqhi⟩

theorem Within.div (h : x.Within lo hi) (hr : 0 < r) :
    (Rounding.exact.div x (.finite r)).Within (lo / r) (hi / r) := by
  obtain ⟨q, rfl, hloq, hqhi⟩ := h.exists_finite
  rw [Rounding.div_finite hr.ne']
  exact within_finite.2
    ⟨div_le_div_of_nonneg_right hloq hr.le, div_le_div_of_nonneg_right hqhi hr.le⟩

theorem within_clamp (hx : x ≠ .nan) (hle : lo ≤ hi) :
    (x.clamp (.finite lo) (.finite hi)).Within lo hi := by
  unfold clamp
  split
  · exact within_finite.2 ⟨le_rfl, hle⟩
  · rename_i hlo
    split
    · exact within_finite.2 ⟨hle, le_rfl⟩
    · rename_i hhi
      exact ⟨(not_lt hx (finite_ne_nan lo)).1 hlo, (not_lt (finite_ne_nan hi) hx).1 hhi⟩

end Robustness

namespace Machine

variable {m : Machine} {values : List Robustness} {s s' : Snapshot} {reward b : Robustness}

/-! ## Shares of the scale -/

theorem WellFormed.one_le_scale (hm : m.WellFormed) : (1 : Rat) ≤ m.scale := by
  exact_mod_cast hm.scale_pos

theorem WellFormed.covered_within (hm : m.WellFormed) {hops k : Nat} (hk : k ≤ hops)
    (hle : hops ≤ m.scale) : (m.covered .exact hops).Within 0 (1 - k / m.scale) := by
  have hscale := hm.one_le_scale
  have hk' : (k : Rat) ≤ hops := by exact_mod_cast hk
  have hle' : (hops : Rat) ≤ m.scale := by exact_mod_cast hle
  rw [hm.covered_exact hle, sub_div, div_self hm.scale_ne_zero]
  have hshare := div_le_div_of_nonneg_right hk' (zero_le_one.trans hscale)
  have hone := (div_le_one (by linarith)).2 hle'
  exact Robustness.within_finite.2 ⟨by linarith, by linarith⟩

theorem WellFormed.progress_within (hm : m.WellFormed) (i : Nat) :
    (m.progress .exact i).Within 0 1 := by
  cases hd : m.distance i with
  | infinite =>
    rw [progress_infinite hd]
    exact Robustness.within_finite.2 ⟨le_rfl, zero_le_one⟩
  | finite hops =>
    have hle := hm.hops_le_scale (getElem?_of_distance hd)
    rw [progress_finite hd]
    exact (hm.covered_within (Nat.zero_le hops) hle).mono le_rfl (by simp)

/-! ## Near misses -/

/-- What staying in the active state pays while what leads closer has robustness `b`. -/
def missed (m : Machine) (s : Snapshot) (b : Robustness) : Robustness :=
  Rounding.exact.add (m.progress .exact s.active) (m.nearMissReward .exact b)

/-- A near miss that counts `hi` at most makes up for one missing step and pays `hi` steps more. -/
theorem WellFormed.missed_within (hm : m.WellFormed) (hb : m.BestCloser values s b) {hi : Rat}
    (h : (if m.config.clampNearMiss then b.clamp (-1) 0 else b).Within (-1) hi) :
    (m.missed s b).Within 0 (1 + hi / m.scale) := by
  obtain ⟨hops, hd⟩ := hm.exists_hops hb
  have hpos : 1 ≤ hops + 1 := Nat.le_add_left 1 hops
  have hle := hm.hops_le_scale (getElem?_of_distance hd)
  have hscale : (0 : Rat) < m.scale := zero_lt_one.trans_le hm.one_le_scale
  have hmiss := (Robustness.within_one.add h).div hscale
  rw [missed, progress_finite hd]
  refine ((hm.covered_within hpos hle).add hmiss).mono (by simp) (le_of_eq ?_)
  rw [Nat.cast_one, add_div]
  linarith

theorem WellFormed.missed_within_of_clamp (hm : m.WellFormed) (hb : m.BestCloser values s b)
    (hclamp : m.config.clampNearMiss = true) : (m.missed s b).Within 0 1 := by
  obtain ⟨j, t, hmeasured, -⟩ := hb.attained
  have hclamped : (if m.config.clampNearMiss then b.clamp (-1) 0 else b).Within (-1) 0 := by
    rw [if_pos hclamp]
    exact Robustness.within_clamp hmeasured.defined (by norm_num)
  exact (hm.missed_within hb hclamped).mono le_rfl (by simp)

theorem WellFormed.missed_within_of_not_clamp (hm : m.WellFormed)
    (hb : m.BestCloser values s b) (hclamp : m.config.clampNearMiss = false)
    (hvalues : ∀ j t x, m.Measured values s j t x → x.Within (-1) 1) :
    (m.missed s b).Within 0 (1 + 1 / m.scale) := by
  obtain ⟨j, t, hmeasured, -⟩ := hb.attained
  refine hm.missed_within hb ?_
  rw [hclamp]
  exact hvalues j t b hmeasured

/-! ## Ticks -/

/-- A tick pays a share of the scale, or for a near miss, or for a loop that it accepts by. -/
theorem StepCase.reward_cases (hm : m.WellFormed) (h : StepCase m .exact values s reward s') :
    reward.Within 0 1 ∨
    (∃ b, m.BestCloser values s b ∧ reward = m.missed s b) ∨
    (m.config.stopOnAcceptance = false ∧
      ∃ j t x, m.Measured values s j t x ∧ reward = Rounding.exact.add 1 x) := by
  cases h with
  | halted _ | stuck _ _ | undefined _ _ _ | rejected _ _ _ _ _ =>
    exact .inl (Robustness.within_finite.2 ⟨le_rfl, zero_le_one⟩)
  | moved _ _ _ | accepted _ _ _ _ _ _ => exact .inl (hm.progress_within _)
  | nearMissed _ _ _ hnear => exact .inr (.inl ⟨_, bestCloser_of_nearMiss hnear, rfl⟩)
  | acceptedOn _ hbest _ _ haccept hstop =>
    have hgoal := hm.distance_of_accepting (mem_transitions_of_firstBest hbest) haccept
    obtain ⟨j, hj⟩ := exists_measured hbest.mem hbest.ne_nan
    rw [hm.progress_goal .exact hgoal]
    exact .inr (.inr ⟨hstop, j, _, _, hj, rfl⟩)

/-- **Rewards are bounded.** In exact arithmetic the reward of a tick is from zero to one if the
machine halts on its verdicts and clamps near misses, whatever the guards show. If the robustness of
the guards is from minus one to one where it is defined, then a machine that halts without clamping
is paid at most one step of the scale more than one, and a machine that goes on at most two. -/
theorem reward_bounds {states : List (State Predicate)} {initial : Nat} {pairs : List RabinPair}
    {config : Config} {m : Machine} (h : ofStates states initial pairs config = .ok m)
    (values : List Robustness) (s : Snapshot) :
    (config.stopOnAcceptance = true → config.clampNearMiss = true →
      (m.step .exact values s).1.Within 0 1) ∧
    ((∀ j t x, m.Measured values s j t x → x.Within (-1) 1) →
      (config.stopOnAcceptance = true → config.clampNearMiss = false →
        (m.step .exact values s).1.Within 0 (1 + 1 / m.scale)) ∧
      (config.stopOnAcceptance = false → (m.step .exact values s).1.Within 0 2)) := by
  obtain ⟨hm, -, -, -, rfl⟩ := ofStates_eq_ok_iff.1 h
  have hscale := hm.one_le_scale
  have hstep : 1 / (m.scale : Rat) ≤ 1 := div_le_one_of_le₀ hscale (by linarith)
  have hnonneg : 0 ≤ 1 / (m.scale : Rat) := by positivity
  have hcase : StepCase m .exact values s (m.step .exact values s).1 (m.step .exact values s).2 :=
    stepCase rfl
  refine ⟨fun hstop hclamp => ?_, fun hvalues => ⟨fun hstop hclamp => ?_, fun hgoes => ?_⟩⟩
  · rcases hcase.reward_cases hm with hshare | ⟨b, hb, hreward⟩ | ⟨hgoes, -⟩
    · exact hshare
    · exact hreward ▸ hm.missed_within_of_clamp hb hclamp
    · exact nomatch hgoes.symm.trans hstop
  · rcases hcase.reward_cases hm with hshare | ⟨b, hb, hreward⟩ | ⟨hgoes, -⟩
    · exact hshare.mono le_rfl (by linarith)
    · exact hreward ▸ hm.missed_within_of_not_clamp hb hclamp hvalues
    · exact nomatch hgoes.symm.trans hstop
  · rcases hcase.reward_cases hm with hshare | ⟨b, hb, hreward⟩ | ⟨-, j, t, x, hmeasured, hreward⟩
    · exact hshare.mono le_rfl one_le_two
    · rw [hreward]
      cases hclamp : m.config.clampNearMiss with
      | true => exact (hm.missed_within_of_clamp hb hclamp).mono le_rfl one_le_two
      | false =>
        exact (hm.missed_within_of_not_clamp hb hclamp hvalues).mono le_rfl (by linarith)
    · rw [hreward]
      exact (Robustness.within_one.add (hvalues j t x hmeasured)).mono (by norm_num) (by norm_num)

def climbWith (config : Config) : Machine := { climb with config }

def onLedge : Snapshot := ⟨1, .running, 1, .finite (1 / 2), .finite (1 / 2)⟩

def onTop : Snapshot := ⟨2, .running, 2, 1, 1⟩

/-- The bounds are attained, by a loop that is taken on a tie and by one that accepts. -/
theorem reward_bounds_climb :
    ((climbWith ⟨true, true⟩).step .exact [.posInf, .posInf] onLedge).1 = 1 ∧
    ((climbWith ⟨true, true⟩).step .exact [.posInf, .posInf] onLedge).1.Within 0 1 ∧
    ((climbWith ⟨true, false⟩).step .exact [1, 1] onLedge).1 = .finite (1 + 1 / 2) ∧
    ((climbWith ⟨true, false⟩).step .exact [1, 1] onLedge).1.Within 0 (1 + 1 / 2) ∧
    ((climbWith ⟨false, false⟩).step .exact [1] onTop).1 = 2 ∧
    ((climbWith ⟨false, false⟩).step .exact [1] onTop).1.Within 0 2 := by
  have hmade : ∀ config, ofStates climb.states 0 climb.pairs config = .ok (climbWith config) :=
    fun _ => rfl
  have hpair : ∀ x ∈ ([1, 1] : List Robustness), x.Within (-1) 1 := by decide +kernel
  have hone : ∀ x ∈ ([1] : List Robustness), x.Within (-1) 1 := by decide +kernel
  obtain ⟨hclamped, -⟩ := reward_bounds (hmade ⟨true, true⟩) [.posInf, .posInf] onLedge
  obtain ⟨-, hbounds⟩ := reward_bounds (hmade ⟨true, false⟩) [1, 1] onLedge
  obtain ⟨hhalting, -⟩ := hbounds fun j t x h => hpair x (List.mem_of_getElem? h.value)
  obtain ⟨-, hbounds⟩ := reward_bounds (hmade ⟨false, false⟩) [1] onTop
  obtain ⟨-, hgoing⟩ := hbounds fun j t x h => hone x (List.mem_of_getElem? h.value)
  exact ⟨by decide +kernel, hclamped rfl rfl, by decide +kernel, hhalting rfl rfl,
    by decide +kernel, hgoing rfl⟩

end Machine

end RabinReward
