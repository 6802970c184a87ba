import RabinReward.Proofs.Machine.Verdict

/-!
# What a tick computes

A tick is determined by what is measured, with no reference to the loop that goes through the
transitions: by which transition is the first of the largest robustness (`Picks`), by where it leads
and by the largest robustness among the transitions that lead closer to acceptance (`BestCloser`).
`Specified` says what each case leads to and `specified_iff` that a tick leads to that and nothing
else. Both largest values are unique, so what the loop finds is what the specification speaks of.
-/

namespace RabinReward

namespace Machine

variable {m : Machine} {ρ : Rounding} {values : List Robustness} {s : Snapshot} {j j' : Nat}
  {t t' : Transition Predicate} {x x' b b' : Robustness} {result result' : Robustness × Snapshot}

/-! ## Measured transitions -/

/-- The transition of index `j` from the active state is `t`, and its robustness `x` is defined. -/
structure Measured (m : Machine) (values : List Robustness) (s : Snapshot) (j : Nat)
    (t : Transition Predicate) (x : Robustness) : Prop where
  transition : (m.transitions s.active)[j]? = some t
  value : values[j]? = some x
  defined : x ≠ .nan

theorem measured_iff :
    m.Measured values s j t x ↔ (m.rated values s)[j]? = some (t, x) ∧ x ≠ .nan := by
  rw [rated, List.getElem?_zip_eq_some]
  exact ⟨fun h => ⟨⟨h.transition, h.value⟩, h.defined⟩, fun h => ⟨h.1.1, h.1.2, h.2⟩⟩

theorem Measured.mem (h : m.Measured values s j t x) : (t, x) ∈ m.rated values s :=
  List.mem_of_getElem? (measured_iff.1 h).1

theorem exists_measured {y : Transition Predicate × Robustness} (hy : y ∈ m.rated values s)
    (hdefined : y.2 ≠ .nan) : ∃ j, m.Measured values s j y.1 y.2 := by
  obtain ⟨j, hj⟩ := List.mem_iff_getElem?.1 hy
  exact ⟨j, measured_iff.2 ⟨hj, hdefined⟩⟩

/-! ## The transition that is taken -/

/-- Of the measured transitions of the largest robustness `t` has the lowest index. -/
structure Picks (m : Machine) (values : List Robustness) (s : Snapshot) (j : Nat)
    (t : Transition Predicate) (x : Robustness) : Prop where
  measured : m.Measured values s j t x
  largest : ∀ j' t' x', m.Measured values s j' t' x' → x' ≤ x
  lowest : ∀ j' t', m.Measured values s j' t' x → j ≤ j'

theorem Picks.unique (h : m.Picks values s j t x) (h' : m.Picks values s j' t' x') :
    t = t' ∧ x = x' := by
  obtain rfl : x = x' :=
    Robustness.le_antisymm (h'.largest _ _ _ h.measured) (h.largest _ _ _ h'.measured)
  obtain rfl : j = j' := Nat.le_antisymm (h.lowest _ _ h'.measured) (h'.lowest _ _ h.measured)
  exact ⟨Option.some.inj (h.measured.transition.symm.trans h'.measured.transition), rfl⟩

theorem exists_picks_of_firstBest (h : FirstBest (m.rated values s) (t, x)) :
    ∃ j, m.Picks values s j t x := by
  obtain ⟨j, hj, hbefore⟩ := h.exists_index
  refine ⟨j, measured_iff.2 ⟨hj, h.ne_nan⟩, fun j' t' x' h' => h.le h'.mem h'.defined,
    fun j' t' h' => ?_⟩
  by_contra hlt
  have hless := hbefore j' (Nat.lt_of_not_le hlt) (t', x) (measured_iff.1 h').1 h.ne_nan
  exact (Robustness.not_lt h.ne_nan h.ne_nan).2 (Robustness.le_refl h.ne_nan) hless

theorem Measured.exists_firstBest (h : m.Measured values s j t x) :
    ∃ t' x', FirstBest (m.rated values s) (t', x') := by
  rcases mostRobust_spec (m.rated values s) with ⟨-, hnan⟩ | ⟨⟨t', x'⟩, -, hbest⟩
  · exact absurd (hnan _ h.mem) h.defined
  · exact ⟨t', x', hbest⟩

theorem Picks.firstBest (h : m.Picks values s j t x) : FirstBest (m.rated values s) (t, x) := by
  obtain ⟨t', x', hbest⟩ := h.measured.exists_firstBest
  obtain ⟨j', hpicks⟩ := exists_picks_of_firstBest hbest
  obtain ⟨rfl, rfl⟩ := h.unique hpicks
  exact hbest

theorem Measured.exists_picks (h : m.Measured values s j t x) :
    ∃ j' t' x', m.Picks values s j' t' x' := by
  obtain ⟨t', x', hbest⟩ := h.exists_firstBest
  obtain ⟨j', hpicks⟩ := exists_picks_of_firstBest hbest
  exact ⟨j', t', x', hpicks⟩

/-! ## Transitions that lead closer -/

def Closer (m : Machine) (s : Snapshot) (t : Transition Predicate) : Prop :=
  m.distance t.destination < m.distance s.active

instance : Decidable (m.Closer s t) :=
  inferInstanceAs (Decidable (m.distance t.destination < m.distance s.active))

/-- The largest robustness of the measured transitions that lead closer is `b`. -/
structure BestCloser (m : Machine) (values : List Robustness) (s : Snapshot) (b : Robustness) :
    Prop where
  attained : ∃ j t, m.Measured values s j t b ∧ m.Closer s t
  largest : ∀ j t x, m.Measured values s j t x → m.Closer s t → x ≤ b

def NothingCloser (m : Machine) (values : List Robustness) (s : Snapshot) : Prop :=
  ∀ j t x, m.Measured values s j t x → ¬m.Closer s t

theorem BestCloser.unique (h : m.BestCloser values s b) (h' : m.BestCloser values s b') :
    b = b' := by
  obtain ⟨j, t, hmeasured, hcloser⟩ := h.attained
  obtain ⟨j', t', hmeasured', hcloser'⟩ := h'.attained
  exact Robustness.le_antisymm (h'.largest j t b hmeasured hcloser)
    (h.largest j' t' b' hmeasured' hcloser')

theorem bestCloser_of_nearMiss (h : m.nearMiss s.active (m.rated values s) = some b) :
    m.BestCloser values s b := by
  obtain ⟨t, hbest⟩ := firstBest_of_nearMiss_eq_some h
  obtain ⟨hmem, hcloser⟩ := List.mem_filter.1 hbest.mem
  obtain ⟨j, hj⟩ := exists_measured hmem hbest.ne_nan
  refine ⟨⟨j, t, hj, of_decide_eq_true hcloser⟩, fun j' t' x' h' hcloser' => ?_⟩
  exact hbest.le (List.mem_filter.2 ⟨h'.mem, decide_eq_true hcloser'⟩) h'.defined

theorem nearMiss_eq_none_iff_nothingCloser :
    m.nearMiss s.active (m.rated values s) = none ↔ m.NothingCloser values s := by
  rw [nearMiss_eq_none_iff]
  constructor
  · exact fun h j t x hmeasured => h _ hmeasured.mem hmeasured.defined
  · intro h y hy hdefined
    obtain ⟨j, hj⟩ := exists_measured hy hdefined
    exact h j y.1 y.2 hj

/-- The best robustness of what leads closer is the near miss. -/
theorem BestCloser.nearMiss_eq (h : m.BestCloser values s b) :
    m.nearMiss s.active (m.rated values s) = some b := by
  cases hnear : m.nearMiss s.active (m.rated values s) with
  | none =>
    obtain ⟨j, t, hmeasured, hcloser⟩ := h.attained
    exact absurd hcloser (nearMiss_eq_none_iff_nothingCloser.1 hnear j t b hmeasured)
  | some b' => rw [h.unique (bestCloser_of_nearMiss hnear)]

theorem nothingCloser_or_bestCloser (m : Machine) (values : List Robustness) (s : Snapshot) :
    m.NothingCloser values s ∨ ∃ b, m.BestCloser values s b := by
  cases hnear : m.nearMiss s.active (m.rated values s) with
  | none => exact .inl (nearMiss_eq_none_iff_nothingCloser.1 hnear)
  | some b => exact .inr ⟨b, bestCloser_of_nearMiss hnear⟩

/-! ## Rewards by distance -/

/-- The share of the scale that is covered where `hops` transitions are left. -/
def covered (m : Machine) (ρ : Rounding) (hops : Nat) : Robustness :=
  ρ.div (ρ.round ((m.scale - hops : Nat) : Rat)) (ρ.round m.scale)

theorem progress_finite {i hops : Nat} (h : m.distance i = .finite hops) :
    m.progress ρ i = m.covered ρ hops := by
  rw [progress, h, covered]

theorem getElem?_of_distance {i hops : Nat} (h : m.distance i = .finite hops) :
    m.distances[i]? = some (.finite hops) := by
  unfold distance at h
  cases hd : m.distances[i]? with
  | none =>
    rw [hd] at h
    cases h
  | some d =>
    rw [hd] at h
    exact congrArg some h

theorem WellFormed.covered_exact (hm : m.WellFormed) {hops : Nat} (hle : hops ≤ m.scale) :
    m.covered .exact hops = .finite (((m.scale : Rat) - hops) / m.scale) := by
  rw [covered, Nat.cast_sub hle]
  exact Rounding.div_finite hm.scale_ne_zero

/-! ## Ticks -/

/-- What a tick of a machine that is not halted leads to, by what is measured. -/
structure Specified (m : Machine) (ρ : Rounding) (values : List Robustness) (s : Snapshot)
    (result : Robustness × Snapshot) : Prop where
  /-- With nothing measured the machine stays. It is rejected if no transition leaves. -/
  unmeasured : (∀ j t x, ¬m.Measured values s j t x) →
    result = s.pays s.active (if m.transitions s.active = [] then .rejected else s.status) 0
  /-- Another state pays for how close to acceptance it is. -/
  moved : ∀ j t x hops, m.Picks values s j t x → t.destination ≠ s.active →
    m.distances[t.destination]? = some (Distance.finite hops) →
      result = s.pays t.destination s.status (m.covered ρ hops)
  /-- A state that acceptance cannot be reached from pays nothing. -/
  sunk : ∀ j t x, m.Picks values s j t x → t.destination ≠ s.active →
    m.distances[t.destination]? = some .infinite → result = s.pays t.destination s.status 0
  /-- A loop taken in place of what leads closer pays for how nearly that was taken as well. -/
  missed : ∀ j t x b, m.Picks values s j t x → t.destination = s.active →
    m.BestCloser values s b → ∃ hops, m.distances[s.active]? = some (Distance.finite hops) ∧
      result = s.pays s.active s.status (ρ.add (m.covered ρ hops)
        (ρ.div (ρ.add 1 (if m.config.clampNearMiss then b.clamp (-1) 0 else b))
          (ρ.round m.scale)))
  /-- An accepting loop with nothing closer is at distance zero. It pays for that, and for its
  robustness if the machine goes on. -/
  accepted : ∀ j t x, m.Picks values s j t x → t.destination = s.active →
    m.NothingCloser values s → t.accepting m.pairs = true →
      m.distances[s.active]? = some (Distance.finite 0) ∧ result = s.pays s.active .accepted
        (if m.config.stopOnAcceptance then m.covered ρ 0 else ρ.add (m.covered ρ 0) x)
  /-- Any other loop with nothing closer pays nothing. -/
  rejected : ∀ j t x, m.Picks values s j t x → t.destination = s.active →
    m.NothingCloser values s → t.accepting m.pairs = false →
      result = s.pays s.active .rejected 0

/-- The cases leave nothing open. -/
theorem WellFormed.specified_unique (hm : m.WellFormed) (h : m.Specified ρ values s result)
    (h' : m.Specified ρ values s result') : result = result' := by
  -- what is measured settles which case it is, and a case has one result
  by_cases hmeasured : ∃ j t x, m.Measured values s j t x
  · obtain ⟨j, t, x, hmeasured⟩ := hmeasured
    obtain ⟨j, t, x, hpicks⟩ := hmeasured.exists_picks
    by_cases hstays : t.destination = s.active
    · rcases m.nothingCloser_or_bestCloser values s with hnothing | ⟨b, hb⟩
      · cases haccept : t.accepting m.pairs with
        | true =>
          obtain ⟨-, hresult⟩ := h.accepted j t x hpicks hstays hnothing haccept
          obtain ⟨-, hresult'⟩ := h'.accepted j t x hpicks hstays hnothing haccept
          exact hresult.trans hresult'.symm
        | false =>
          have hresult := h.rejected j t x hpicks hstays hnothing haccept
          exact hresult.trans (h'.rejected j t x hpicks hstays hnothing haccept).symm
      · obtain ⟨hops, hd, hresult⟩ := h.missed j t x b hpicks hstays hb
        obtain ⟨hops', hd', hresult'⟩ := h'.missed j t x b hpicks hstays hb
        rw [hd] at hd'
        cases hd'
        exact hresult.trans hresult'.symm
    · have hlt := hm.destination_lt_of_mem (mem_transitions_of_firstBest hpicks.firstBest)
      have hd := hm.getElem?_distances.2 ⟨hlt, rfl⟩
      cases hdistance : m.distance t.destination with
      | finite hops =>
        rw [hdistance] at hd
        have hresult := h.moved j t x hops hpicks hstays hd
        exact hresult.trans (h'.moved j t x hops hpicks hstays hd).symm
      | infinite =>
        rw [hdistance] at hd
        exact (h.sunk j t x hpicks hstays hd).trans (h'.sunk j t x hpicks hstays hd).symm
  · simp only [not_exists] at hmeasured
    exact (h.unmeasured hmeasured).trans (h'.unmeasured hmeasured).symm

theorem step_unmeasured (hs : m.halted s = false) (h : ∀ j t x, ¬m.Measured values s j t x)
    (ρ : Rounding) : m.step ρ values s =
      s.pays s.active (if m.transitions s.active = [] then .rejected else s.status) 0 := by
  rw [step_eq hs]
  rcases mostRobust_spec (m.rated values s) with ⟨hnone, -⟩ | ⟨⟨t, x⟩, -, hbest⟩
  · simp only [hnone, List.isEmpty_iff, Snapshot.pays]
  · obtain ⟨j, hj⟩ := exists_measured hbest.mem hbest.ne_nan
    exact absurd hj (h j t x)

theorem Picks.step_moved (h : m.Picks values s j t x) (hs : m.halted s = false)
    (hmove : t.destination ≠ s.active) (ρ : Rounding) :
    m.step ρ values s = s.pays t.destination s.status (m.progress ρ t.destination) := by
  rw [step_of_firstBest hs h.firstBest, take]
  simp only [outcome, hmove, ne_eq, not_false_eq_true, ↓reduceIte, Snapshot.pays]

theorem Picks.step_missed (h : m.Picks values s j t x) (hs : m.halted s = false)
    (hstays : t.destination = s.active) (hb : m.BestCloser values s b) (ρ : Rounding) :
    m.step ρ values s = s.pays s.active s.status
      (ρ.add (m.progress ρ s.active) (m.nearMissReward ρ b)) := by
  rw [step_of_firstBest hs h.firstBest, take, hb.nearMiss_eq]
  simp only [outcome, hstays, ne_eq, not_true_eq_false, ↓reduceIte, Snapshot.pays]

theorem WellFormed.exists_hops (hm : m.WellFormed) (h : m.BestCloser values s b) :
    ∃ hops, m.distance s.active = .finite (hops + 1) := by
  obtain ⟨j, t, hmeasured, hcloser⟩ := h.attained
  obtain ⟨hops, hd, -⟩ := hm.closer_by_one (mem_rated hmeasured.mem) hcloser
  exact ⟨hops, hd⟩

theorem WellFormed.specified_step (hm : m.WellFormed) (hs : m.halted s = false) :
    m.Specified ρ values s (m.step ρ values s) where
  unmeasured h := step_unmeasured hs h ρ
  moved j t x hops hpicks hmove hd := by
    rw [hpicks.step_moved hs hmove, progress_finite (hm.getElem?_distances.1 hd).2]
  sunk j t x hpicks hmove hd := by
    rw [hpicks.step_moved hs hmove, progress_infinite (hm.getElem?_distances.1 hd).2]
  missed j t x b hpicks hstays hb := by
    obtain ⟨hops, hd⟩ := hm.exists_hops hb
    refine ⟨hops + 1, getElem?_of_distance hd, ?_⟩
    rw [hpicks.step_missed hs hstays hb, progress_finite hd, nearMissReward]
  accepted j t x hpicks hstays hnothing haccept := by
    have hgoal := hm.distance_of_accepting (mem_rated hpicks.measured.mem) haccept
    have hnear := nearMiss_eq_none_iff_nothingCloser.2 hnothing
    refine ⟨getElem?_of_distance hgoal, ?_⟩
    rw [step_of_loop hs hpicks.firstBest hstays hnear, if_pos haccept, progress_finite hgoal]
  rejected j t x hpicks hstays hnothing hreject := by
    have hnear := nearMiss_eq_none_iff_nothingCloser.2 hnothing
    rw [step_of_loop hs hpicks.firstBest hstays hnear, hreject, if_neg Bool.false_ne_true]

/-- **A tick computes what is specified.** Of a machine that is not halted the specification holds
of what a step leads to and of nothing else, whatever the robustness values and the arithmetic. A
tick is such a step with the robustness of the guards. The share that it pays for a distance is,
without rounding, the scale less the distance over the scale. -/
theorem specified_iff {states : List (State Predicate)} {initial : Nat} {pairs : List RabinPair}
    {config : Config} {m : Machine} {s : Snapshot}
    (h : ofStates states initial pairs config = .ok m) (hs : m.halted s = false) (ρ : Rounding)
    (values : List Robustness) (result : Robustness × Snapshot) :
    (m.Specified ρ values s result ↔ result = m.step ρ values s) ∧
    (∀ r, m.Specified ρ (m.guardValues ρ r s) s (m.tick ρ r s)) ∧
    ∀ i hops : Nat, m.distances[i]? = some (Distance.finite hops) → hops ≤ m.scale ∧
      m.covered .exact hops = .finite (((m.scale : Rat) - hops) / m.scale) := by
  obtain ⟨hm, -, -, -, -⟩ := ofStates_eq_ok_iff.1 h
  refine ⟨⟨fun hspec => hm.specified_unique hspec (hm.specified_step hs), ?_⟩, fun r => ?_, ?_⟩
  · rintro rfl
    exact hm.specified_step hs
  · exact hm.specified_step hs
  · intro i hops hd
    have hle := hm.hops_le_scale hd
    exact ⟨hle, hm.covered_exact hle⟩

def climb : Machine :=
  ⟨[⟨"foot", [⟨.sensor 0, 1, .empty⟩, ⟨.sensor 1, 0, .empty⟩, ⟨.sensor 2, 0, .empty⟩]⟩,
      ⟨"ledge", [⟨.sensor 1, 1, .empty⟩, ⟨.sensor 0, 2, .empty⟩]⟩,
      ⟨"top", [⟨.always, 2, .ofList ["1"]⟩]⟩],
    [⟨.ofList ["0"], .ofList ["1"]⟩], 0, #[.finite 2, .finite 1, .finite 0], 2, .default⟩

/-- At the foot the step up is missed by half, one loop is not measured and the other is taken. -/
def climbValues : List Robustness := [.finite (-1 / 2), .nan, 3]

theorem specified_iff_climb :
    ofStates climb.states 0 climb.pairs .default = .ok climb ∧
    climb.halted climb.start = false ∧
    climb.Picks climbValues climb.start 2 ⟨.sensor 2, 0, .empty⟩ 3 ∧
    climb.BestCloser climbValues climb.start (.finite (-1 / 2)) ∧
    climb.step .exact climbValues climb.start =
      climb.start.pays 0 .running (.finite (1 / 4)) := by
  have hmade : ofStates climb.states 0 climb.pairs .default = .ok climb := rfl
  have hs : climb.halted climb.start = false := rfl
  have hmax : ∀ y ∈ climb.rated climbValues climb.start, y.2 ≠ .nan → y.2 ≤ 3 := by
    decide +kernel
  have hpicks : climb.Picks climbValues climb.start 2 ⟨.sensor 2, 0, .empty⟩ 3 := by
    refine ⟨⟨rfl, rfl, nofun⟩, fun j t x h => hmax _ h.mem h.defined, fun j t h => ?_⟩
    match j, h.value with
    | 0, hvalue => exact absurd hvalue (by decide +kernel)
    | 1, hvalue => cases hvalue
    | _ + 2, _ => exact Nat.le_add_left ..
  have hb : climb.BestCloser climbValues climb.start (.finite (-1 / 2)) :=
    bestCloser_of_nearMiss (by decide +kernel)
  have hspec := (specified_iff hmade hs .exact climbValues _).1.2 rfl
  obtain ⟨hops, hd, hresult⟩ := hspec.missed _ _ _ _ hpicks rfl hb
  cases hd
  exact ⟨hmade, hs, hpicks, hb, hresult.trans (by decide +kernel)⟩

end Machine

end RabinReward
