import RabinReward.Proofs.Machine.Bounds

/-!
# Near misses

A loop that is taken in place of what leads closer pays at most what that would have paid, if near
misses are clamped. Distances are shortest ones, so what leads closer does so by exactly one
(`WellFormed.closer_by_one`) and taking it pays one step of the scale more than the active state is
worth (`Takes.reward_of_closer`). A near miss pays the share of that step that its clamped
robustness leaves (`WellFormed.missed_of_clamp`): all of it from zero upwards, none of it below
minus one.
-/

namespace RabinReward

/-! ## Clamped values -/

namespace Robustness

variable {a b : Robustness} {lo hi : Rat}

theorem clamp_le_clamp (hle : lo ≤ hi) (h : a ≤ b) :
    a.clamp (.finite lo) (.finite hi) ≤ b.clamp (.finite lo) (.finite hi) := by
  obtain ⟨ha, hb⟩ := ne_nan_of_le h
  have hbounds := within_clamp hb hle
  rw [clamp.eq_def a]
  split
  · exact hbounds.1
  rename_i halo
  split
  · rename_i hahi
    have hbhi := lt_of_lt_of_le hahi h
    have hblo : ¬b < finite lo := (not_lt hb (finite_ne_nan lo)).2
      (le_trans (finite_le_finite.2 hle) (le_of_lt hbhi))
    rw [clamp, if_neg hblo, if_pos hbhi]
    exact finite_le_finite.2 le_rfl
  · rename_i hahi
    have hblo : ¬b < finite lo := (not_lt hb (finite_ne_nan lo)).2
      (le_trans ((not_lt ha (finite_ne_nan lo)).1 halo) h)
    rw [clamp, if_neg hblo]
    split
    · exact (not_lt (finite_ne_nan hi) ha).1 hahi
    · exact h

theorem clamp_eq_upper_iff (hlt : lo < hi) (ha : a ≠ .nan) :
    a.clamp (.finite lo) (.finite hi) = .finite hi ↔ .finite hi ≤ a := by
  unfold clamp
  split
  · rename_i halo
    refine iff_of_false (fun h => hlt.ne (finite.inj h)) fun h => ?_
    exact (not_le (finite_ne_nan hi) ha).2 (lt_trans halo (finite_lt_finite.2 hlt)) h
  · split
    · rename_i hahi
      exact iff_of_true rfl (le_of_lt hahi)
    · rename_i hahi
      refine ⟨fun h => h ▸ le_refl ha, fun h => ?_⟩
      exact le_antisymm ((not_lt (finite_ne_nan hi) ha).1 hahi) h

end Robustness

namespace Machine

variable {m : Machine} {values values' : List Robustness} {s s' : Snapshot}
  {t : Transition Predicate} {b b' : Robustness} {hops : Nat}

/-! ## One step closer -/

/-- The share of the scale that is covered one step on from where `hops` transitions are left. -/
def nextShare (m : Machine) (hops : Nat) : Rat := ((m.scale : Rat) - hops + 1) / m.scale

theorem Takes.reward_of_closer (hm : m.WellFormed) (hs : m.halted s = false)
    (h : m.Takes values s t) (hcloser : m.Closer s t) (hd : m.distance s.active = .finite hops) :
    (m.step .exact values s).1 = .finite (m.nextShare hops) := by
  obtain ⟨x, hbest⟩ := h
  obtain ⟨k, hk, hdest⟩ := hm.closer_by_one (mem_transitions_of_firstBest hbest) hcloser
  obtain rfl : hops = k + 1 := Distance.finite.inj (hd.symm.trans hk)
  have hmove : t.destination ≠ s.active := by
    intro hstays
    rw [hstays, hk] at hdest
    exact absurd (Distance.finite.inj hdest) (Nat.succ_ne_self k)
  have hle := hm.hops_le_scale (getElem?_of_distance hdest)
  obtain ⟨j, hpicks⟩ := exists_picks_of_firstBest hbest
  rw [hpicks.step_moved hs hmove, progress_finite hdest, hm.covered_exact hle, Snapshot.pays,
    nextShare, Nat.cast_succ, sub_add_eq_sub_sub, sub_add_cancel]

/-! ## Loops in place of what leads closer -/

/-- A machine that is not halted takes a loop, and the best of what leads closer has robustness
`b`. -/
structure Misses (m : Machine) (values : List Robustness) (s : Snapshot) (b : Robustness) :
    Prop where
  running : m.halted s = false
  loop : ∃ t, m.Takes values s t ∧ t.destination = s.active
  best : m.BestCloser values s b

theorem takes_of_mostRobust {x : Robustness}
    (h : mostRobust (m.rated values s) = some (t, x)) : m.Takes values s t := by
  rcases mostRobust_spec (m.rated values s) with ⟨hnone, -⟩ | ⟨y, hsome, hbest⟩
  · cases hnone.symm.trans h
  · cases hsome.symm.trans h
    exact ⟨x, hbest⟩

theorem Misses.reward_eq (h : m.Misses values s b) :
    (m.step .exact values s).1 = m.missed s b := by
  obtain ⟨t, ⟨x, hbest⟩, hstays⟩ := h.loop
  obtain ⟨j, hpicks⟩ := exists_picks_of_firstBest hbest
  rw [hpicks.step_missed h.running hstays h.best, Snapshot.pays, missed]

/-- A clamped near miss pays for one step more, less the share by which it falls short. -/
theorem WellFormed.missed_of_clamp (hm : m.WellFormed) (hclamp : m.config.clampNearMiss = true)
    (hd : m.distance s.active = .finite hops) {q : Rat} (hq : b.clamp (-1) 0 = .finite q) :
    m.missed s b = .finite (m.nextShare hops + q / m.scale) := by
  have hle := hm.hops_le_scale (getElem?_of_distance hd)
  have hcounts : Rounding.exact.add 1 (.finite q) = .finite (1 + q) := rfl
  have hmiss : m.nearMissReward .exact b = .finite ((1 + q) / m.scale) := by
    simp only [nearMissReward, hclamp, ↓reduceIte, hq, hcounts]
    exact Rounding.div_finite hm.scale_ne_zero
  rw [missed, progress_finite hd, hm.covered_exact hle, hmiss]
  refine congrArg Robustness.finite ?_
  rw [nextShare, add_div, add_div, add_assoc]

theorem BestCloser.exists_clamp (h : m.BestCloser values s b) :
    ∃ q : Rat, b.clamp (-1) 0 = .finite q ∧ -1 ≤ q ∧ q ≤ 0 := by
  obtain ⟨j, t, hmeasured, -⟩ := h.attained
  exact (Robustness.within_clamp hmeasured.defined (by norm_num)).exists_finite

theorem Misses.reward_within (hm : m.WellFormed) (hclamp : m.config.clampNearMiss = true)
    (h : m.Misses values s b) (hd : m.distance s.active = .finite hops) :
    (m.step .exact values s).1.Within (((m.scale : Rat) - hops) / m.scale) (m.nextShare hops) := by
  obtain ⟨q, hq, hlo, hhi⟩ := h.best.exists_clamp
  have hscale : (0 : Rat) ≤ m.scale := zero_le_one.trans hm.one_le_scale
  have hshare : -1 / (m.scale : Rat) ≤ q / m.scale := div_le_div_of_nonneg_right hlo hscale
  have hnone : q / (m.scale : Rat) ≤ 0 := div_nonpos_of_nonpos_of_nonneg hhi hscale
  rw [h.reward_eq, hm.missed_of_clamp hclamp hd hq]
  refine Robustness.within_finite.2 ⟨?_, by linarith⟩
  rw [nextShare, add_div]
  rw [neg_div] at hshare
  linarith

/-- The whole step is paid when what leads closer was satisfied. -/
theorem Misses.reward_eq_iff (hm : m.WellFormed) (hclamp : m.config.clampNearMiss = true)
    (h : m.Misses values s b) (hd : m.distance s.active = .finite hops) :
    (m.step .exact values s).1 = .finite (m.nextShare hops) ↔ 0 ≤ b := by
  obtain ⟨q, hq, -⟩ := h.best.exists_clamp
  obtain ⟨j, t, hmeasured, -⟩ := h.best.attained
  have hupper : b.clamp (-1) 0 = 0 ↔ 0 ≤ b :=
    Robustness.clamp_eq_upper_iff (by norm_num) hmeasured.defined
  have hzero : Robustness.finite q = 0 ↔ q = 0 :=
    ⟨fun h => Robustness.finite.inj h, fun h => congrArg Robustness.finite h⟩
  rw [h.reward_eq, hm.missed_of_clamp hclamp hd hq, ← hupper, hq, hzero, Robustness.finite.injEq,
    add_eq_left, div_eq_zero_iff, or_iff_left hm.scale_ne_zero]

theorem Misses.reward_le (hm : m.WellFormed) (hclamp : m.config.clampNearMiss = true)
    (h : m.Misses values s b) (h' : m.Misses values' s' b') (hactive : s.active = s'.active)
    (hle : b ≤ b') : (m.step .exact values s).1 ≤ (m.step .exact values' s').1 := by
  obtain ⟨hops, hd⟩ := hm.exists_hops h.best
  obtain ⟨q, hq, -⟩ := h.best.exists_clamp
  obtain ⟨q', hq', -⟩ := h'.best.exists_clamp
  have hclamped : b.clamp (-1) 0 ≤ b'.clamp (-1) 0 :=
    Robustness.clamp_le_clamp (by norm_num) hle
  rw [hq, hq', Robustness.finite_le_finite] at hclamped
  have hscale : (0 : Rat) ≤ m.scale := zero_le_one.trans hm.one_le_scale
  rw [h.reward_eq, h'.reward_eq, hm.missed_of_clamp hclamp hd hq,
    hm.missed_of_clamp hclamp (hactive ▸ hd) hq', Robustness.finite_le_finite]
  linarith [div_le_div_of_nonneg_right hclamped hscale]

/-- **Almost taking a transition never pays more than taking it.** Let something lead closer from a
state `i`, near misses be clamped and arithmetic be exact. A tick in `i` that takes a loop while the
robustness of something closer is measured pays from the share of the scale covered in `i` to one
step more, and it pays the latter exactly when the best robustness of what leads closer is not
negative. A tick that takes what leads closer pays exactly one step more. Of two near misses the one
of the larger robustness pays at least as much. -/
theorem near_miss_at_most_taken {states : List (State Predicate)} {initial : Nat}
    {pairs : List RabinPair} {config : Config} {m : Machine}
    (h : ofStates states initial pairs config = .ok m) (hclamp : config.clampNearMiss = true)
    (i : Nat) (hi : ∃ t ∈ m.transitions i, m.distance t.destination < m.distance i) :
    ∃ hops : Nat, m.distances[i]? = some (Distance.finite hops) ∧
      (∀ values s t, s.active = i → m.halted s = false → m.Takes values s t → t.destination = i →
        (∃ j u x, m.Measured values s j u x ∧ m.Closer s u) →
          ∃ b, m.Misses values s b ∧
            (m.step .exact values s).1.Within (((m.scale : Rat) - hops) / m.scale)
              (((m.scale : Rat) - hops + 1) / m.scale) ∧
            ((m.step .exact values s).1 = .finite (((m.scale : Rat) - hops + 1) / m.scale) ↔
              0 ≤ b)) ∧
      (∀ values s t, s.active = i → m.halted s = false → m.Takes values s t → m.Closer s t →
        (m.step .exact values s).1 = .finite (((m.scale : Rat) - hops + 1) / m.scale)) ∧
      ∀ values values' s s' b b', s.active = i → s'.active = i → m.Misses values s b →
        m.Misses values' s' b' → b ≤ b' →
          (m.step .exact values s).1 ≤ (m.step .exact values' s').1 := by
  obtain ⟨hm, -, -, -, rfl⟩ := ofStates_eq_ok_iff.1 h
  obtain ⟨t, ht, hcloser⟩ := hi
  obtain ⟨k, hd, -⟩ := hm.closer_by_one ht hcloser
  refine ⟨k + 1, getElem?_of_distance hd, ?_, ?_, ?_⟩
  · rintro values s t rfl hs htakes hstays ⟨j, u, x, hmeasured, hu⟩
    rcases m.nothingCloser_or_bestCloser values s with hnothing | ⟨b, hb⟩
    · exact absurd hu (hnothing j u x hmeasured)
    · have hmisses : m.Misses values s b := ⟨hs, ⟨t, htakes, hstays⟩, hb⟩
      exact ⟨b, hmisses, hmisses.reward_within hm hclamp hd, hmisses.reward_eq_iff hm hclamp hd⟩
  · rintro values s t rfl hs htakes hcloser
    exact htakes.reward_of_closer hm hs hcloser hd
  · rintro values values' s s' b b' rfl hs' hmisses hmisses' hle
    exact hmisses.reward_le hm hclamp hmisses' hs'.symm hle

def clampedClimb : Machine := climbWith ⟨true, true⟩

/-- At the foot the step up is missed by half, missed although it is satisfied, and taken. -/
theorem near_miss_at_most_taken_climb :
    ofStates climb.states 0 climb.pairs ⟨true, true⟩ = .ok clampedClimb ∧
    clampedClimb.Misses climbValues climb.start (.finite (-1 / 2)) ∧
    (clampedClimb.step .exact climbValues climb.start).1.Within 0 (1 / 2) ∧
    (clampedClimb.step .exact climbValues climb.start).1 ≠ .finite (1 / 2) ∧
    (clampedClimb.step .exact [2, .nan, 3] climb.start).1 = .finite (1 / 2) ∧
    (clampedClimb.step .exact climbValues climb.start).1 ≤
      (clampedClimb.step .exact [2, .nan, 3] climb.start).1 ∧
    (clampedClimb.step .exact [2, .nan, -1] climb.start).1 = .finite (1 / 2) := by
  have hmade : ofStates climb.states 0 climb.pairs ⟨true, true⟩ = .ok clampedClimb := rfl
  have hup : (⟨.sensor 0, 1, .empty⟩ : Transition Predicate) ∈ clampedClimb.transitions 0 :=
    List.mem_cons_self
  have hcloser : clampedClimb.Closer climb.start ⟨.sensor 0, 1, .empty⟩ := by decide
  obtain ⟨hops, hd, hmissed, htaken, hmono⟩ :=
    near_miss_at_most_taken hmade rfl 0 ⟨_, hup, hcloser⟩
  cases hd
  have hshare : (((clampedClimb.scale : Rat) - (2 : Nat) + 1) / clampedClimb.scale) = 1 / 2 := by
    decide +kernel
  rw [hshare] at hmissed htaken
  have hhalf : clampedClimb.Takes climbValues climb.start ⟨.sensor 2, 0, .empty⟩ :=
    takes_of_mostRobust (x := 3) (by decide +kernel)
  have hfull : clampedClimb.Takes [2, .nan, 3] climb.start ⟨.sensor 2, 0, .empty⟩ :=
    takes_of_mostRobust (x := 3) (by decide +kernel)
  have hstep : clampedClimb.Takes [2, .nan, -1] climb.start ⟨.sensor 0, 1, .empty⟩ :=
    takes_of_mostRobust (x := 2) (by decide +kernel)
  obtain ⟨b, hb, hwithin, hbelow⟩ := hmissed climbValues climb.start _ rfl rfl hhalf rfl
    ⟨0, _, _, ⟨rfl, rfl, nofun⟩, hcloser⟩
  obtain ⟨b', hb', -, habove⟩ := hmissed [2, .nan, 3] climb.start _ rfl rfl hfull rfl
    ⟨0, _, _, ⟨rfl, rfl, nofun⟩, hcloser⟩
  obtain rfl := hb.best.unique (bestCloser_of_nearMiss (b := .finite (-1 / 2)) (by decide +kernel))
  obtain rfl := hb'.best.unique (bestCloser_of_nearMiss (b := 2) (by decide +kernel))
  refine ⟨hmade, hb, hwithin.mono (by decide +kernel) le_rfl, ?_, habove.2 (by decide +kernel),
    hmono _ _ _ _ _ _ rfl rfl hb hb' (by decide +kernel), htaken _ _ _ rfl rfl hstep hcloser⟩
  exact fun h => absurd (hbelow.1 h) (by decide +kernel)

end Machine

end RabinReward
