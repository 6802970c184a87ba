import RabinReward.Proofs.Machine.Reward

/-!
# Verdicts

A verdict falls when a tick takes a loop while nothing that is measured leads closer to acceptance
(`Settles`). Repeating a transition forever satisfies the Rabin condition exactly when the
transition accepts, so the verdict on a loop is right about the run that stays in it, and acceptance
is paid in full because a state with an accepting loop is at distance zero.

A state is taken for a sink when nothing leads closer, and a loop that does not accept rejects
there. Nothing leads closer from a state of infinite distance, and nothing leads closer from a
state that accepts (`settles_iff`). So rejection says that acceptance is out of reach only where the
active state does not accept itself (`rejected_iff_of_measured`).
-/

namespace RabinReward

/-- What a tick that ends in a state pays, and the snapshot there. -/
def Snapshot.pays (s : Snapshot) (state : Nat) (status : Status) (reward : Robustness) :
    Robustness × Snapshot :=
  (reward, s.advance state status reward)

namespace Machine

variable {m : Machine} {ρ : Rounding} {values : List Robustness} {s s' : Snapshot}
  {reward : Robustness} {t : Transition Predicate}

/-! ## Settling -/

/-- The tick takes the transition, the first of the most robust ones. -/
def Takes (m : Machine) (values : List Robustness) (s : Snapshot) (t : Transition Predicate) :
    Prop :=
  ∃ x, FirstBest (m.rated values s) (t, x)

theorem Takes.mem (h : m.Takes values s t) : t ∈ m.transitions s.active := by
  obtain ⟨x, hx⟩ := h
  exact mem_transitions_of_firstBest hx

/-- The tick takes a loop of the active state while no transition of a defined robustness leads
closer to acceptance. -/
structure Settles (m : Machine) (values : List Robustness) (s : Snapshot)
    (t : Transition Predicate) : Prop where
  takes : m.Takes values s t
  stays : t.destination = s.active
  nothing_closer : ∀ y ∈ m.rated values s, y.2 ≠ .nan →
    ¬m.distance y.1.destination < m.distance s.active

theorem settles_of_firstBest {x : Robustness} (hbest : FirstBest (m.rated values s) (t, x))
    (hstays : t.destination = s.active) (hnear : m.nearMiss s.active (m.rated values s) = none) :
    m.Settles values s t :=
  ⟨⟨x, hbest⟩, hstays, nearMiss_eq_none_iff.1 hnear⟩

theorem Settles.nearMiss_eq_none (h : m.Settles values s t) :
    m.nearMiss s.active (m.rated values s) = none :=
  nearMiss_eq_none_iff.2 h.nothing_closer

/-- A loop that is taken while nothing leads closer decides the verdict. An accepting one is paid
the progress made, and its robustness as well if the machine goes on. -/
theorem step_of_loop {x : Robustness} (hs : m.halted s = false)
    (hbest : FirstBest (m.rated values s) (t, x)) (hstays : t.destination = s.active)
    (hnear : m.nearMiss s.active (m.rated values s) = none) (ρ : Rounding) :
    m.step ρ values s = if t.accepting m.pairs then s.pays s.active .accepted
        (if m.config.stopOnAcceptance then m.progress ρ s.active
          else ρ.add (m.progress ρ s.active) x)
      else s.pays s.active .rejected 0 := by
  rw [step_of_firstBest hs hbest, take, hnear]
  cases haccept : t.accepting m.pairs <;>
    simp only [outcome, hstays, haccept, ne_eq, not_true_eq_false, Bool.false_eq_true, ↓reduceIte,
      Snapshot.pays]

/-- Settling on an accepting loop accepts. A machine that halts is paid the progress made, another
one the robustness of the loop as well. -/
theorem Settles.step_accepting (hs : m.halted s = false) (h : m.Settles values s t)
    (haccept : t.accepting m.pairs = true) (ρ : Rounding) :
    ∃ reward, m.step ρ values s = (reward, s.advance s.active .accepted reward) ∧
      (m.config.stopOnAcceptance = true → reward = m.progress ρ s.active) := by
  obtain ⟨x, hbest⟩ := h.takes
  have hstep := step_of_loop hs hbest h.stays h.nearMiss_eq_none ρ
  rw [if_pos haccept] at hstep
  exact ⟨_, hstep, fun hstop => if_pos hstop⟩

/-- Settling on any other loop rejects and pays nothing. -/
theorem Settles.step_rejecting (hs : m.halted s = false) (h : m.Settles values s t)
    (hreject : t.accepting m.pairs = false) (ρ : Rounding) :
    m.step ρ values s = (0, s.advance s.active .rejected 0) := by
  obtain ⟨x, hbest⟩ := h.takes
  rw [step_of_loop hs hbest h.stays h.nearMiss_eq_none, hreject]
  rfl

theorem StepCase.exists_settles (h : StepCase m ρ values s reward s')
    (haccepted : s'.status = .accepted) (hs : s.status ≠ .accepted) :
    m.halted s = false ∧ ∃ t, m.Settles values s t := by
  cases h with
  | halted _ | undefined _ _ _ | moved _ _ _ | nearMissed _ _ _ _ => exact absurd haccepted hs
  | stuck _ _ | rejected _ _ _ _ _ => cases haccepted
  | accepted hrun hbest hstays hnear _ _ | acceptedOn hrun hbest hstays hnear _ _ =>
    exact ⟨hrun, _, settles_of_firstBest hbest hstays hnear⟩

/-! ## Rejection -/

/-- A running machine rejects where no transition leaves and where it settles on a loop that does
not accept. -/
theorem rejected_iff (hs : s.status = .running) (ρ : Rounding) (values : List Robustness) :
    (m.step ρ values s).2.status = .rejected ↔ m.transitions s.active = [] ∨
      ∃ t, m.Settles values s t ∧ t.accepting m.pairs = false := by
  have hrun : m.halted s = false := by rw [halted, hs]; rfl
  constructor
  · intro h
    generalize hstep : m.step ρ values s = result at h
    obtain ⟨reward, s'⟩ := result
    cases stepCase hstep with
    | halted hhalted => exact absurd hhalted (Bool.eq_false_iff.1 hrun)
    | stuck _ hnil => exact .inl hnil
    | undefined _ _ _ | moved _ _ _ | nearMissed _ _ _ _ =>
      rw [Snapshot.advance, hs] at h
      cases h
    | accepted _ _ _ _ _ _ | acceptedOn _ _ _ _ _ _ => cases h
    | rejected _ hbest hstays hnear hreject =>
      exact .inr ⟨_, settles_of_firstBest hbest hstays hnear, hreject⟩
  · rintro (hnil | ⟨t, hsettles, hreject⟩)
    · rw [step_eq hrun, rated, hnil]
      rfl
    · rw [hsettles.step_rejecting hrun hreject]
      rfl

/-- Nothing leads closer from a dead state and from one that accepts. If all guards are measured,
something does from every other state. -/
theorem WellFormed.settles_iff (hm : m.WellFormed)
    (hlen : values.length = (m.transitions s.active).length) (hnan : ∀ x ∈ values, x ≠ .nan) :
    m.Settles values s t ↔ m.Takes values s t ∧ t.destination = s.active ∧
      (m.distance s.active = .infinite ∨ m.distance s.active = .finite 0) := by
  constructor
  · rintro ⟨htakes, hstays, hcloser⟩
    refine ⟨htakes, hstays, ?_⟩
    cases hd : m.distance s.active with
    | infinite => exact .inl rfl
    | finite k =>
      cases k with
      | zero => exact .inr rfl
      | succ k =>
        obtain ⟨u, hu, hlt⟩ := hm.exists_closer hd
        obtain ⟨x, hx, hrated⟩ := exists_rated hlen hu
        exact absurd hlt (hcloser _ hrated (hnan x hx))
  · rintro ⟨htakes, hstays, hd⟩
    refine ⟨htakes, hstays, fun y hy _ hlt => ?_⟩
    rcases hd with hd | hd
    · rw [hm.destination_infinite hd (mem_rated hy)] at hlt
      exact Distance.not_infinite_lt hlt
    · rw [hd] at hlt
      exact Distance.not_lt_finite_zero hlt

/-! ## Main statements -/

/-- **Acceptance is decided by the loop that is taken.** When a tick of a machine that is not halted
settles on a loop, it accepts if repeating the loop forever satisfies the Rabin condition and
rejects otherwise. No other tick changes the status to accepted. A tick that settles and accepts
stays at distance zero, and a machine that halts is then paid exactly one. -/
theorem acceptance_decided {states : List (State Predicate)} {initial : Nat}
    {pairs : List RabinPair} {config : Config} {m : Machine} {ρ : Rounding}
    (h : ofStates states initial pairs config = .ok m) (hρ : m.Arithmetic ρ)
    (values : List Robustness) (s : Snapshot) :
    (m.halted s = false → ∀ t, m.Settles values s t →
      ∃ w : InfinitePath m.states, w.Repeats s.active t ∧
        ((m.step ρ values s).2.status = .accepted ↔ w.RabinAccepted m.pairs) ∧
        ((m.step ρ values s).2.status = .rejected ↔ ¬w.RabinAccepted m.pairs)) ∧
    ((m.step ρ values s).2.status = .accepted → s.status ≠ .accepted →
      m.halted s = false ∧ ∃ t, m.Settles values s t) ∧
    (m.halted s = false → (∃ t, m.Settles values s t) →
      (m.step ρ values s).2.status = .accepted →
        m.distances[s.active]? = some (.finite 0) ∧ (m.step ρ values s).2.active = s.active ∧
        (m.config.stopOnAcceptance = true → (m.step ρ values s).1 = 1)) := by
  obtain ⟨hm, -, -, -, -⟩ := ofStates_eq_ok_iff.1 h
  refine ⟨fun hs t ht => ?_, fun haccepted hs => ?_, fun hs ⟨t, ht⟩ haccepted => ?_⟩
  · obtain ⟨state, hstate, hmem⟩ := mem_transitions.1 ht.takes.mem
    rw [← ht.stays] at hstate
    have hrepeats := InfinitePath.loop_repeats hstate hmem
    refine ⟨_, ht.stays ▸ hrepeats, ?_⟩
    rw [hrepeats.rabinAccepted_iff]
    cases haccept : t.accepting m.pairs with
    | true =>
      obtain ⟨reward, hstep, -⟩ := ht.step_accepting hs haccept ρ
      rw [hstep]
      exact ⟨iff_of_true rfl rfl, iff_of_false nofun (not_not_intro rfl)⟩
    | false =>
      rw [ht.step_rejecting hs haccept]
      exact ⟨iff_of_false nofun nofun, iff_of_true rfl nofun⟩
  · have hcase : StepCase m ρ values s (m.step ρ values s).1 (m.step ρ values s).2 := stepCase rfl
    exact hcase.exists_settles haccepted hs
  · cases haccept : t.accepting m.pairs with
    | true =>
      have hgoal := hm.distance_of_accepting ht.takes.mem haccept
      obtain ⟨reward, hstep, hpaid⟩ := ht.step_accepting hs haccept ρ
      obtain ⟨state, hstate, -⟩ := mem_transitions.1 ht.takes.mem
      have hlt := (List.getElem?_eq_some_iff.1 hstate).1
      rw [hstep]
      refine ⟨hm.getElem?_distances.2 ⟨hlt, hgoal⟩, rfl, fun hstop => ?_⟩
      exact (hpaid hstop).trans (hm.progress_goal hρ hgoal)
    | false =>
      rw [ht.step_rejecting hs haccept] at haccepted
      cases haccepted

/-- A state with an accepting and a rejecting loop, one transition from the start. -/
def lapse : Machine :=
  ⟨[⟨"start", [⟨.always, 1, .empty⟩]⟩,
      ⟨"goal", [⟨.sensor 0, 1, .ofList ["1"]⟩, ⟨.sensor 1, 1, .empty⟩]⟩],
    [⟨.ofList ["0"], .ofList ["1"]⟩], 0, #[.finite 1, .finite 0], 1, .default⟩

def lapseArrived : Snapshot := ⟨1, .running, 1, 1, 1⟩

theorem lapseArrived_reachable : lapse.Reachable .single lapseArrived := by
  have hfirst : lapse.Ticks .single lapse.start 1 lapseArrived :=
    ⟨[.posInf], rfl, by decide +kernel⟩
  exact .tick .start hfirst

theorem acceptance_decided_lapse :
    ofStates lapse.states 0 lapse.pairs .default = .ok lapse ∧ lapse.Arithmetic .single ∧
    (∃ t, lapse.Settles [1, -1] lapseArrived t) ∧
    (lapse.step .single [1, -1] lapseArrived).2.status = .accepted ∧
    (∃ w : InfinitePath lapse.states, w.RabinAccepted lapse.pairs) ∧
    (lapse.step .single [1, -1] lapseArrived).1 = 1 := by
  have hmade : ofStates lapse.states 0 lapse.pairs .default = .ok lapse := rfl
  have hρ : lapse.Arithmetic .single := .single (by decide)
  obtain ⟨hverdict, honly, hpaid⟩ := acceptance_decided hmade hρ [1, -1] lapseArrived
  have haccepted : (lapse.step .single [1, -1] lapseArrived).2.status = .accepted := by
    decide +kernel
  obtain ⟨hrun, t, ht⟩ := honly haccepted nofun
  obtain ⟨w, -, hw, -⟩ := hverdict hrun t ht
  obtain ⟨-, -, hone⟩ := hpaid hrun ⟨t, ht⟩ haccepted
  exact ⟨hmade, hρ, ⟨t, ht⟩, haccepted, ⟨w, hw.1 haccepted⟩, hone rfl⟩

/-- **Rejection happens in sinks.** In a running machine whose guards are all measured, a tick
rejects in exactly two situations. In a state of infinite distance it rejects when it takes a loop
or there is nothing to take: no accepting state can be reached. In a state that accepts it rejects
when it takes a loop that does not accept. -/
theorem rejected_iff_of_measured {states : List (State Predicate)} {initial : Nat}
    {pairs : List RabinPair} {config : Config} {m : Machine} {ρ : Rounding} {s : Snapshot}
    {values : List Robustness} (h : ofStates states initial pairs config = .ok m)
    (hreach : m.Reachable ρ s) (hs : s.status = .running)
    (hlen : values.length = (m.transitions s.active).length) (hnan : ∀ x ∈ values, x ≠ .nan) :
    ((m.step ρ values s).2.status = .rejected ↔
      (m.distances[s.active]? = some .infinite ∧
        (m.transitions s.active = [] ∨ ∃ t, m.Takes values s t ∧ t.destination = s.active)) ∨
      (m.distances[s.active]? = some (.finite 0) ∧
        ∃ t, m.Takes values s t ∧ t.destination = s.active ∧ t.accepting m.pairs = false)) ∧
    (m.distances[s.active]? = some .infinite ↔ ∀ k, ¬ReachesIn m.pairs m.states k s.active) ∧
    (m.distances[s.active]? = some (.finite 0) ↔ AcceptsAt m.pairs m.states s.active) := by
  obtain ⟨hm, -, -, -, -⟩ := ofStates_eq_ok_iff.1 h
  have hlt := hreach.active_lt hm
  have hdistance : ∀ d, m.distances[s.active]? = some d ↔ m.distance s.active = d := fun d =>
    hm.getElem?_distances.trans (and_iff_right hlt)
  simp only [hdistance]
  refine ⟨?_, hm.distance_eq_infinite_iff, hm.distance_eq_zero_iff⟩
  rw [rejected_iff hs]
  constructor
  · rintro (hnil | ⟨t, hsettles, hreject⟩)
    · exact .inl ⟨hm.distance_of_nil hnil, .inl hnil⟩
    · obtain ⟨htakes, hstays, hdead | hgoal⟩ := (hm.settles_iff hlen hnan).1 hsettles
      · exact .inl ⟨hdead, .inr ⟨t, htakes, hstays⟩⟩
      · exact .inr ⟨hgoal, t, htakes, hstays, hreject⟩
  · rintro (⟨hdead, hnil | ⟨t, htakes, hstays⟩⟩ | ⟨hgoal, t, htakes, hstays, hreject⟩)
    · exact .inl hnil
    · refine .inr ⟨t, (hm.settles_iff hlen hnan).2 ⟨htakes, hstays, .inl hdead⟩, ?_⟩
      exact Bool.eq_false_iff.2 (hm.not_accepting hdead htakes.mem)
    · exact .inr ⟨t, (hm.settles_iff hlen hnan).2 ⟨htakes, hstays, .inr hgoal⟩, hreject⟩

theorem rejected_iff_of_measured_lapse :
    lapse.Reachable .single lapseArrived ∧ lapseArrived.status = .running ∧
    (lapse.step .single [-1, 1] lapseArrived).2.status = .rejected ∧
    (∃ t, lapse.Takes [-1, 1] lapseArrived t ∧ t.accepting lapse.pairs = false) ∧
    AcceptsAt lapse.pairs lapse.states lapseArrived.active := by
  have hmade : ofStates lapse.states 0 lapse.pairs .default = .ok lapse := rfl
  have hmeasured : ∀ x ∈ ([-1, 1] : List Robustness), x ≠ .nan := by decide
  have hrejected : (lapse.step .single [-1, 1] lapseArrived).2.status = .rejected := by
    decide +kernel
  obtain ⟨hcases, -, hgoal⟩ :=
    rejected_iff_of_measured hmade lapseArrived_reachable rfl rfl hmeasured
  rcases hcases.1 hrejected with ⟨hdead, -⟩ | ⟨hzero, t, htakes, -, hreject⟩
  · cases hdead
  · exact ⟨lapseArrived_reachable, rfl, hrejected, ⟨t, htakes, hreject⟩, hgoal.1 hzero⟩

/-- A loop that does not accept is rejected in a state that accepts: a running machine, all guards
measured, the distance zero. -/
theorem rejected_at_goal :
    ofStates lapse.states 0 lapse.pairs .default = .ok lapse ∧
    lapse.Reachable .single lapseArrived ∧ lapseArrived.status = .running ∧
    ([-1, 1] : List Robustness).length = (lapse.transitions lapseArrived.active).length ∧
    (∀ x ∈ ([-1, 1] : List Robustness), x ≠ .nan) ∧
    (lapse.step .single [-1, 1] lapseArrived).2.status = .rejected ∧
    lapse.distances[lapseArrived.active]? = some (.finite 0) ∧
    ReachesIn lapse.pairs lapse.states 0 lapseArrived.active := by
  have hrejected : (lapse.step .single [-1, 1] lapseArrived).2.status = .rejected := by
    decide +kernel
  have hreaches : ReachesIn lapse.pairs lapse.states 0 lapseArrived.active :=
    reachesIn_zero.2 ⟨_, rfl, by decide⟩
  exact ⟨rfl, lapseArrived_reachable, rfl, rfl, by decide, hrejected, rfl, hreaches⟩

end Machine

end RabinReward
