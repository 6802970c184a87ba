import RabinReward.Proofs.Machine.Reward
import RabinReward.Proofs.Registry.Pass

/-!
# Safe operation

However a machine has been constructed and whatever ticks and resets have happened since, its
indices are in range, the scale covers every finite distance, and in exact arithmetic neither a
reward nor what a snapshot remembers of the rewards is `nan` (`Paid`).
-/

namespace RabinReward

namespace Machine

variable {m : Machine} {ρ : Rounding} {s s' : Snapshot} {reward : Robustness}

theorem Ticks.reward_ne_nan (hm : m.WellFormed) (h : m.Ticks .exact s reward s') :
    reward ≠ .nan :=
  h.reward_defined hm .exact

/-! ## Histories -/

/-- The rewards that a snapshot remembers are not `nan`. -/
structure Paid (s : Snapshot) : Prop where
  last : s.last ≠ .nan
  best : s.best ≠ .nan

theorem Paid.advance (hs : Paid s) (hreward : reward ≠ .nan) (state : Nat) (status : Status) :
    Paid (s.advance state status reward) :=
  ⟨hreward, Robustness.max_ne_nan hs.best hreward⟩

theorem Ticks.paid (hm : m.WellFormed) (hs : Paid s) (h : m.Ticks .exact s reward s') :
    Paid s' := by
  have hreward := h.reward_ne_nan hm
  obtain ⟨values, h⟩ := h.stepCase
  cases h with
  | halted _ => exact hs
  | stuck | undefined | moved | nearMissed | accepted | acceptedOn | rejected =>
    exact hs.advance hreward _ _

theorem Reachable.paid (hm : m.WellFormed) (h : m.Reachable .exact s) : Paid s := by
  induction h with
  | start | reset => exact ⟨nofun, nofun⟩
  | tick _ htick ih => exact htick.paid hm ih

/-! ## One-hot encoding -/

theorem length_oneHot : (m.oneHot s).length = m.states.length := by
  rw [oneHot, List.length_map, List.length_range]

theorem getElem?_oneHot {i : Nat} (hi : i < m.states.length) :
    (m.oneHot s)[i]? = some (if i = s.active then 1 else 0) := by
  rw [oneHot, List.getElem?_map, List.getElem?_range hi, Option.map_some]

/-! ## Main statement -/

/-- The ways in which a machine is constructed. -/
inductive Constructed (m : Machine) : Prop where
  | ofStates {states : List (State Predicate)} {initial : Nat} {pairs : List RabinPair}
      {config : Config} : Machine.ofStates states initial pairs config = .ok m → Constructed m
  | materialize {d : Description} {props : List Predicate} {config : Config}
      {fresh n : Identity} : d.materialize props config fresh = .ok (m, n) → Constructed m
  | build {d : Description} {props : List Proposition} {r : Registry} {board : Blackboard}
      {config : Config} {fresh n : Identity} :
      d.build props r board config fresh = .ok (m, n) → Constructed m

theorem Constructed.wellFormed (h : m.Constructed) : m.WellFormed := by
  cases h with
  | ofStates h => exact (ofStates_eq_ok_iff.1 h).1
  | materialize h => exact (Description.materialize_eq_ok h).1
  | build h =>
    rw [Description.build_eq] at h
    split at h
    · cases h
    · exact (Description.materialize_eq_ok h).1

/-- **A constructed machine operates safely.** The scale is positive and covers every finite
distance, so that progress neither underflows nor divides by zero. After any history of ticks and
resets, under any robustness values and in any arithmetic, the active state, the destinations that
leave it and the indices of their distances are in range, and the encoding of the active state is
one there and zero elsewhere. In exact arithmetic neither a reward nor what is remembered of the
rewards is `nan`. A history changes snapshots only: the machine, with its states, pairs, distances
and configuration, is the same for every tick and reset. -/
theorem safe_of_constructed {m : Machine} (h : m.Constructed) :
    (1 ≤ m.scale ∧ m.distances.size = m.states.length ∧
      m.distances = Distance.toGoal m.pairs m.states ∧
      ∀ i hops : Nat, m.distances[i]? = some (.finite hops) → hops ≤ m.scale) ∧
    (∀ ρ s, m.Reachable ρ s → s.active < m.states.length ∧
      (∀ t ∈ m.transitions s.active, t.destination < m.states.length) ∧
      (m.oneHot s).length = m.states.length ∧
      ∀ i < m.states.length, (m.oneHot s)[i]? = some (if i = s.active then 1 else 0)) ∧
    (∀ s, m.Reachable .exact s → s.last ≠ .nan ∧ s.best ≠ .nan ∧
      ∀ reward s', m.Ticks .exact s reward s' → reward ≠ .nan) := by
  have hm := h.wellFormed
  refine ⟨⟨hm.scale_pos, hm.size_distances, hm.distances_eq, fun i hops => hm.hops_le_scale⟩,
    fun ρ s hs => ?_, fun s hs => ?_⟩
  · exact ⟨hs.active_lt hm, fun t ht => hm.destination_lt_of_mem ht, length_oneHot,
      fun i hi => getElem?_oneHot hi⟩
  · exact ⟨(hs.paid hm).last, (hs.paid hm).best, fun reward s' htick => htick.reward_ne_nan hm⟩

def forkAccepted : Snapshot := ⟨1, .accepted, 2, .negInf, 1⟩

theorem safe_of_constructed_fork :
    fork.Constructed ∧
    (∀ hops : Nat, fork.distances[0]? = some (.finite hops) → hops ≤ fork.scale) ∧
    fork.Reachable .exact forkAccepted ∧ forkAccepted.active < fork.states.length ∧
    (∀ t ∈ fork.transitions forkAccepted.active, t.destination < fork.states.length) ∧
    fork.oneHot forkAccepted = [0, 1, 0] ∧ forkAccepted.last ≠ .nan ∧
    fork.Ticks .exact forkAccepted .posInf ⟨1, .accepted, 3, .posInf, .posInf⟩ ∧
    ∀ reward s, fork.Ticks .exact forkAccepted reward s → reward ≠ .nan := by
  have hmade : fork.Constructed :=
    .ofStates (show ofStates fork.states 0 fork.pairs ⟨false, false⟩ = .ok fork from rfl)
  obtain ⟨⟨-, -, -, hscale⟩, hindices, hrewards⟩ := safe_of_constructed hmade
  have hmoved : fork.Ticks .exact fork.start 1 ⟨1, .running, 1, 1, 1⟩ :=
    ⟨[.posInf, .nan], rfl, by decide +kernel⟩
  have haccepted : fork.Ticks .exact ⟨1, .running, 1, 1, 1⟩ .negInf forkAccepted :=
    ⟨[.negInf], rfl, by decide +kernel⟩
  have hsecond : fork.Reachable .exact forkAccepted :=
    .tick (.tick (.reset #[] .start) hmoved) haccepted
  obtain ⟨hactive, hdest, -, -⟩ := hindices .exact forkAccepted hsecond
  obtain ⟨hlast, -, hreward⟩ := hrewards forkAccepted hsecond
  exact ⟨hmade, fun hops => hscale 0 hops, hsecond, hactive, hdest, rfl, hlast,
    ⟨[.posInf], rfl, by decide +kernel⟩, hreward⟩

end Machine

end RabinReward
