import RabinReward.Proofs.Automaton.RabinPath
import RabinReward.Proofs.Machine.Step

/-!
# Dead states

No way leads from a state of infinite distance to acceptance. So no infinite path from it satisfies
the Rabin condition, and a machine that has entered it stays at infinite distance and is paid
nothing until it is reset (`Ticks.of_infinite` for one tick, `Later.of_infinite` for many).
-/

namespace RabinReward

namespace Machine

variable {m : Machine} {ρ : Rounding} {s s' : Snapshot} {reward : Robustness}

/-! ## The distances of a machine -/

theorem WellFormed.size_distances (hm : m.WellFormed) : m.distances.size = m.states.length := by
  rw [hm.distances_eq, Distance.size_toGoal]

theorem WellFormed.getElem?_distances (hm : m.WellFormed) {i : Nat} {d : Distance} :
    m.distances[i]? = some d ↔ i < m.states.length ∧ m.distance i = d := by
  rw [distance, hm.distances_eq]
  exact Distance.getElem?_toGoal

theorem WellFormed.distance_eq_infinite_iff (hm : m.WellFormed) {i : Nat} :
    m.distance i = .infinite ↔ ∀ k, ¬ReachesIn m.pairs m.states k i := by
  rw [distance, hm.distances_eq]
  exact Distance.toGoal_eq_infinite_iff

theorem WellFormed.distance_eq_finite_iff (hm : m.WellFormed) {i k : Nat} :
    m.distance i = .finite k ↔ IsLeast (hopsFrom m.pairs m.states i) k := by
  rw [distance, hm.distances_eq]
  exact Distance.toGoal_eq_finite_iff

theorem WellFormed.distance_eq_zero_iff (hm : m.WellFormed) {i : Nat} :
    m.distance i = .finite 0 ↔ AcceptsAt m.pairs m.states i := by
  rw [hm.distance_eq_finite_iff, ← reachesIn_zero]
  exact ⟨fun h => h.1, fun h => ⟨h, fun k _ => Nat.zero_le k⟩⟩

theorem WellFormed.distance_of_accepting (hm : m.WellFormed) {i : Nat} {t : Transition Predicate}
    (ht : t ∈ m.transitions i) (haccept : t.accepting m.pairs = true) :
    m.distance i = .finite 0 := by
  obtain ⟨s, hs, hts⟩ := mem_transitions.1 ht
  exact hm.distance_eq_zero_iff.2 ⟨s, hs, List.any_eq_true.2 ⟨t, hts, haccept⟩⟩

/-- Some transition leads closer from every state that is neither dead nor accepting. -/
theorem WellFormed.exists_closer (hm : m.WellFormed) {i k : Nat}
    (hi : m.distance i = .finite (k + 1)) :
    ∃ t ∈ m.transitions i, m.distance t.destination < m.distance i := by
  obtain ⟨s, hs, t, ht, hk⟩ := exists_transition_of_isLeast (hm.distance_eq_finite_iff.1 hi)
  refine ⟨t, mem_transitions.2 ⟨s, hs, ht⟩, ?_⟩
  rw [hi, hm.distance_eq_finite_iff.2 hk, Distance.finite_lt_finite]
  omega

/-- What leads closer leads closer by one. -/
theorem WellFormed.closer_by_one (hm : m.WellFormed) {i : Nat} {t : Transition Predicate}
    (ht : t ∈ m.transitions i) (h : m.distance t.destination < m.distance i) :
    ∃ hops, m.distance i = .finite (hops + 1) ∧ m.distance t.destination = .finite hops := by
  obtain ⟨state, hstate, hmem⟩ := mem_transitions.1 ht
  have hfar : ¬(m.distance t.destination).succ < m.distance i := by
    rw [distance, distance, hm.distances_eq]
    exact not_succ_lt_of_transition hstate hmem
  cases hd : m.distance t.destination with
  | infinite =>
    rw [hd] at h
    exact absurd h Distance.not_infinite_lt
  | finite k =>
    rw [hd] at h hfar
    cases hi : m.distance i with
    | infinite =>
      rw [hi] at hfar
      exact absurd Distance.finite_lt_infinite hfar
    | finite j =>
      rw [hi] at h hfar
      simp only [Distance.succ, Distance.finite_lt_finite] at h hfar
      exact ⟨k, by rw [show j = k + 1 by omega], rfl⟩

/-! ## Transitions of dead states -/

theorem WellFormed.distance_of_nil (hm : m.WellFormed) {i : Nat} (hnil : m.transitions i = []) :
    m.distance i = .infinite := by
  rw [hm.distance_eq_infinite_iff]
  intro k hk
  obtain ⟨s, hs, t, ht⟩ := hk.exists_transition
  have hmem : t ∈ m.transitions i := mem_transitions.2 ⟨s, hs, ht⟩
  rw [hnil] at hmem
  cases hmem

theorem WellFormed.destination_infinite (hm : m.WellFormed) {i : Nat} {t : Transition Predicate}
    (hi : m.distance i = .infinite) (ht : t ∈ m.transitions i) :
    m.distance t.destination = .infinite := by
  rw [hm.distance_eq_infinite_iff] at hi ⊢
  obtain ⟨s, hs, hts⟩ := mem_transitions.1 ht
  exact fun k hk => hi (k + 1) (reachesIn_succ.2 ⟨s, hs, t, hts, hk⟩)

theorem WellFormed.not_accepting (hm : m.WellFormed) {i : Nat} {t : Transition Predicate}
    (hi : m.distance i = .infinite) (ht : t ∈ m.transitions i) : t.accepting m.pairs ≠ true := by
  intro haccept
  rw [hm.distance_of_accepting ht haccept] at hi
  cases hi

/-! ## Ticks in dead states -/

theorem progress_infinite {i : Nat} (h : m.distance i = .infinite) : m.progress ρ i = 0 := by
  rw [progress, h]

/-- In a dead state a tick pays nothing, leads to a dead state and accepts nothing. -/
theorem Ticks.of_infinite (hm : m.WellFormed) (hs : m.distance s.active = .infinite)
    (h : m.Ticks ρ s reward s') :
    reward = 0 ∧ m.distance s'.active = .infinite ∧
      (s'.status = .accepted → s.status = .accepted) := by
  obtain ⟨values, h⟩ := h.stepCase
  cases h with
  | halted _ => exact ⟨rfl, hs, id⟩
  | stuck _ _ => exact ⟨rfl, hs, nofun⟩
  | undefined _ _ _ => exact ⟨rfl, hs, id⟩
  | moved _ hbest _ =>
    have ht := hm.destination_infinite hs (mem_transitions_of_firstBest hbest)
    exact ⟨progress_infinite ht, ht, id⟩
  | nearMissed _ _ _ hnear =>
    obtain ⟨-, y, hy, hcloser, -⟩ := exists_of_nearMiss_eq_some hnear
    rw [hm.destination_infinite hs (mem_rated hy)] at hcloser
    exact absurd hcloser Distance.not_infinite_lt
  | accepted _ hbest _ _ haccept _ | acceptedOn _ hbest _ _ haccept _ =>
    exact absurd haccept (hm.not_accepting hs (mem_transitions_of_firstBest hbest))
  | rejected _ _ _ _ _ => exact ⟨rfl, hs, nofun⟩

theorem Later.of_infinite (hm : m.WellFormed) (hs : m.distance s.active = .infinite)
    (h : m.Later ρ s s') :
    m.distance s'.active = .infinite ∧ (s'.status = .accepted → s.status = .accepted) := by
  induction h with
  | refl => exact ⟨hs, id⟩
  | tick _ htick ih =>
    obtain ⟨-, hd, hstatus⟩ := htick.of_infinite hm ih.1
    exact ⟨hd, fun haccepted => ih.2 (hstatus haccepted)⟩

/-- **A state of infinite distance is dead.** No infinite path from it is accepted, since accepted
paths take accepting transitions infinitely often. A machine in such a state is paid nothing, stays
at infinite distance and does not become accepted, whatever the guards show, as long as it is not
reset. -/
theorem dead_of_infinite_distance {states : List (State Predicate)} {initial : Nat}
    {pairs : List RabinPair} {config : Config} {m : Machine}
    (h : ofStates states initial pairs config = .ok m) (ρ : Rounding) :
    (∀ w : InfinitePath m.states, w.RabinAccepted m.pairs →
      ∃ᶠ n in Filter.atTop, (w.transition n).accepting m.pairs = true) ∧
    (∀ w : InfinitePath m.states, m.distances[w.state 0]? = some .infinite →
      ¬w.RabinAccepted m.pairs) ∧
    (∀ s s', m.distances[s.active]? = some .infinite → m.Later ρ s s' →
      m.distances[s'.active]? = some .infinite ∧ (s'.status = .accepted → s.status = .accepted) ∧
      ∀ reward s'', m.Ticks ρ s' reward s'' → reward = 0 ∧
        m.distances[s''.active]? = some .infinite ∧
        (s''.status = .accepted → s'.status = .accepted)) := by
  obtain ⟨hm, -, -, -, -⟩ := ofStates_eq_ok_iff.1 h
  refine ⟨fun w hw => hw.frequently_accepting, fun w hd hw => ?_, fun s s' hd hlater => ?_⟩
  · obtain ⟨-, hd⟩ := hm.getElem?_distances.1 hd
    obtain ⟨k, hk⟩ := hw.exists_reachesIn
    exact hm.distance_eq_infinite_iff.1 hd k hk
  · -- the distance of an index out of range reads as infinite too, so range is carried along
    obtain ⟨hlt, hd⟩ := hm.getElem?_distances.1 hd
    obtain ⟨hd', hstatus⟩ := hlater.of_infinite hm hd
    have hlt' := hlater.active_lt hm hlt
    refine ⟨hm.getElem?_distances.2 ⟨hlt', hd'⟩, hstatus, fun reward s'' htick => ?_⟩
    obtain ⟨hzero, hd'', hstatus'⟩ := htick.of_infinite hm hd'
    exact ⟨hzero, hm.getElem?_distances.2 ⟨htick.active_lt hm hlt', hd''⟩, hstatus'⟩

/-- A state that leads to one that accepts and to a sink, whose loop has a forbidden token. -/
def fork : Machine :=
  ⟨[⟨"", [⟨.sensor 0, 1, .empty⟩, ⟨.sensor 1, 2, .empty⟩]⟩,
      ⟨"", [⟨.always, 1, .ofList ["1"]⟩]⟩,
      ⟨"", [⟨.sensor 0, 2, .ofList ["0", "1"]⟩, ⟨.sensor 1, 2, .empty⟩]⟩],
    [⟨.ofList ["0"], .ofList ["1"]⟩], 0, #[.finite 1, .finite 0, .infinite], 1, ⟨false, false⟩⟩

def forkAccepting : InfinitePath fork.states where
  state _ := 1
  transition _ := ⟨.always, 1, .ofList ["1"]⟩
  leaves _ := ⟨_, rfl, List.mem_singleton_self _⟩
  arrives _ := rfl

def forkSinking : InfinitePath fork.states where
  state _ := 2
  transition _ := ⟨.sensor 0, 2, .ofList ["0", "1"]⟩
  leaves _ := ⟨_, rfl, List.mem_cons_self⟩
  arrives _ := rfl

def forkSunk (ticks : Nat) : Snapshot := ⟨2, .rejected, ticks, 0, 0⟩

theorem forkAccepting_rabinAccepted : forkAccepting.RabinAccepted fork.pairs := by
  refine ⟨_, List.mem_singleton_self _, fun x hx hmeets => ?_, "1", ?_, ?_⟩
  · obtain ⟨n, hn⟩ := hmeets.exists
    obtain rfl := List.mem_singleton.1 hx
    exact absurd hn (show "0" ∉ ["1"] by decide)
  · exact List.mem_singleton_self _
  · exact Filter.Frequently.of_forall fun _ => List.mem_singleton_self _

theorem dead_of_infinite_distance_fork :
    ofStates fork.states 0 fork.pairs ⟨false, false⟩ = .ok fork ∧
    (∃ᶠ n in Filter.atTop, (forkAccepting.transition n).accepting fork.pairs = true) ∧
    fork.distances[forkSinking.state 0]? = some .infinite ∧
    ¬forkSinking.RabinAccepted fork.pairs ∧
    fork.Later .exact ⟨2, .running, 1, 0, 0⟩ (forkSunk 3) ∧
    fork.distances[(forkSunk 3).active]? = some .infinite ∧
    fork.Ticks .exact (forkSunk 3) 0 (forkSunk 4) ∧
    ∀ reward s, fork.Ticks .exact (forkSunk 3) reward s → reward = 0 ∧ s.status ≠ .accepted := by
  have hmade : ofStates fork.states 0 fork.pairs ⟨false, false⟩ = .ok fork := rfl
  obtain ⟨hfrequent, hpaths, hticks⟩ := dead_of_infinite_distance hmade .exact
  have hsecond : fork.Later .exact ⟨2, .running, 1, 0, 0⟩ (forkSunk 2) :=
    .tick .refl ⟨[.posInf, .nan], rfl, rfl⟩
  have hlater : fork.Later .exact ⟨2, .running, 1, 0, 0⟩ (forkSunk 3) :=
    .tick hsecond ⟨[-1, .negInf], rfl, rfl⟩
  obtain ⟨hdistance, -, htick⟩ := hticks _ _ rfl hlater
  refine ⟨hmade, hfrequent _ forkAccepting_rabinAccepted, rfl, hpaths _ rfl, hlater, hdistance,
    ⟨[.nan, 1], rfl, rfl⟩, fun reward s hs => ?_⟩
  obtain ⟨hzero, -, hstatus⟩ := htick reward s hs
  exact ⟨hzero, fun h => nomatch hstatus h⟩

end Machine

end RabinReward
