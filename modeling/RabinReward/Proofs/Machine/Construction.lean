import RabinReward.Machine.Binding
import RabinReward.Proofs.Automaton.Reversed
import RabinReward.Proofs.Guard.Value
import Mathlib.Data.List.Forall2

/-!
# What construction guarantees

A machine is made from states exactly when it is `WellFormed`: its indices are in range, its
distances are those of its states and there is progress to measure (`ofStates_eq_ok_iff`). Binding a
description changes its guards into predicates and nothing else (`Transition.Binds`,
`materialize_eq_ok`), so the transitions of a machine and of its description correspond by position.
-/

namespace RabinReward

variable {γ : Type}

theorem firstDangling_eq_none {count index : Nat} {states : List (State γ)} :
    firstDangling count index states = none ↔
      ∀ s ∈ states, ∀ t ∈ s.transitions, t.destination < count := by
  induction states generalizing index with
  | nil => exact ⟨fun _ => nofun, fun _ => rfl⟩
  | cons s rest ih =>
    rw [firstDangling, List.forall_mem_cons]
    cases hf : s.transitions.find? (fun t => count ≤ t.destination) with
    | some t =>
      refine ⟨nofun, fun h => ?_⟩
      have ht := List.find?_some hf
      have := h.1 t (List.mem_of_find?_eq_some hf)
      simp only [decide_eq_true_eq] at ht
      omega
    | none =>
      rw [List.find?_eq_none] at hf
      simp only [decide_eq_true_eq, Nat.not_le] at hf
      exact ih.trans ⟨fun h => ⟨hf, h⟩, And.right⟩

namespace Machine

/-- The invariants of a machine that construction accepts. -/
structure WellFormed (m : Machine) : Prop where
  initial_lt : m.initial < m.states.length
  destination_lt : ∀ s ∈ m.states, ∀ t ∈ s.transitions, t.destination < m.states.length
  distances_eq : m.distances = Distance.toGoal m.pairs m.states
  scale_eq : m.scale = Distance.largest m.distances
  scale_pos : 0 < m.scale

/-- The distances of a machine and its scale come out of one search from the goal. -/
theorem WellFormed.search_eq {m : Machine} (hm : m.WellFormed) :
    Distance.search m.pairs m.states = (m.distances, m.scale) := by
  rw [hm.scale_eq, hm.distances_eq, Distance.search_eq hm.destination_lt]

theorem ofStates_eq_ok_iff {states : List (State Predicate)} {initial : Nat}
    {pairs : List RabinPair} {config : Config} {m : Machine} :
    ofStates states initial pairs config = .ok m ↔
      m.WellFormed ∧ m.states = states ∧ m.initial = initial ∧ m.pairs = pairs ∧
        m.config = config := by
  simp only [ofStates]
  constructor
  · intro h
    split at h
    · cases h
    split at h
    · cases h
    rename_i hinit
    split at h
    · cases h
    rename_i hdangling
    split at h
    · cases h
    rename_i hscale
    cases h
    exact ⟨⟨Nat.not_le.1 hinit, firstDangling_eq_none.1 hdangling, rfl, rfl,
      Nat.pos_of_ne_zero hscale⟩, rfl, rfl, rfl, rfl⟩
  · rintro ⟨⟨hinit, hdest, hdist, hscale, hpos⟩, rfl, rfl, rfl, rfl⟩
    rw [if_neg (by omega), if_neg (by omega), firstDangling_eq_none.2 hdest]
    rw [hdist] at hscale
    simp only
    rw [if_neg (by omega), ← hscale, ← hdist]

theorem mem_transitions {m : Machine} {i : Nat} {t : Transition Predicate} :
    t ∈ m.transitions i ↔ ∃ s, m.states[i]? = some s ∧ t ∈ s.transitions := by
  unfold transitions
  cases m.states[i]? <;> simp

theorem WellFormed.destination_lt_of_mem {m : Machine} (h : m.WellFormed) {i : Nat}
    {t : Transition Predicate} (ht : t ∈ m.transitions i) : t.destination < m.states.length := by
  obtain ⟨s, hs, ht⟩ := mem_transitions.1 ht
  exact h.destination_lt s (List.mem_of_getElem? hs) t ht

end Machine

/-! ## Binding -/

/-- `t'` is the transition `t` with the predicate of its guard. -/
structure Transition.Binds (props : List Predicate) (t : Transition Guard)
    (t' : Transition Predicate) : Prop where
  guard : ∃ fresh n, t.guard.toPredicate props fresh = .ok (t'.guard, n)
  destination : t'.destination = t.destination
  tokens : t'.tokens = t.tokens

structure State.Binds (props : List Predicate) (s : State Guard) (s' : State Predicate) :
    Prop where
  label : s'.label = s.label
  transitions : List.Forall₂ (Transition.Binds props) s.transitions s'.transitions

theorem bindTransitions_eq_ok {props : List Predicate} {fresh n : Identity}
    {ts : List (Transition Guard)} {ts' : List (Transition Predicate)}
    (h : bindTransitions props fresh ts = .ok (ts', n)) :
    List.Forall₂ (Transition.Binds props) ts ts' := by
  induction ts generalizing fresh ts' with
  | nil =>
    cases h
    exact .nil
  | cons t ts ih =>
    obtain ⟨⟨p, k⟩, hp, h⟩ := bind_eq_ok.1 h
    obtain ⟨⟨us, l⟩, hus, h⟩ := bind_eq_ok.1 h
    cases h
    exact .cons ⟨⟨fresh, k, hp⟩, rfl, rfl⟩ (ih hus)

theorem bindStates_eq_ok {props : List Predicate} {fresh n : Identity} {ss : List (State Guard)}
    {ss' : List (State Predicate)} (h : bindStates props fresh ss = .ok (ss', n)) :
    List.Forall₂ (State.Binds props) ss ss' := by
  induction ss generalizing fresh ss' with
  | nil =>
    cases h
    exact .nil
  | cons s ss ih =>
    obtain ⟨⟨ts, k⟩, hts, h⟩ := bind_eq_ok.1 h
    obtain ⟨⟨us, l⟩, hus, h⟩ := bind_eq_ok.1 h
    cases h
    exact .cons ⟨rfl, bindTransitions_eq_ok hts⟩ (ih hus)

theorem exists_getElem?_of_forall₂ {α β : Type} {R : α → β → Prop} {l : List α} {l' : List β}
    (h : List.Forall₂ R l l') {i : Nat} {b : β} (hb : l'[i]? = some b) :
    ∃ a, l[i]? = some a ∧ R a b := by
  induction h generalizing i with
  | nil => cases hb
  | cons hab _ ih =>
    cases i with
    | zero =>
      cases hb
      exact ⟨_, rfl, hab⟩
    | succ i => exact ih hb

namespace Description

def transitions (d : Description) (i : Nat) : List (Transition Guard) :=
  (d.states[i]?.map State.transitions).getD []

/-- A description is bound state by state, and its machine is made from the bound states. -/
theorem bindStates_of_materialize {d : Description} {props : List Predicate} {config : Config}
    {fresh n : Identity} {m : Machine} (h : d.materialize props config fresh = .ok (m, n)) :
    bindStates props fresh d.states = .ok (m.states, n) ∧
      Machine.ofStates m.states d.initial d.pairs config = .ok m := by
  unfold materialize at h
  split at h
  · cases h
  · rename_i states k hstates
    cases hm : Machine.ofStates states d.initial d.pairs config with
    | error e =>
      rw [hm] at h
      cases h
    | ok m' =>
      rw [hm] at h
      cases h
      obtain ⟨-, rfl, -⟩ := Machine.ofStates_eq_ok_iff.1 hm
      exact ⟨hstates, hm⟩

/-- A machine made from a description is well formed and differs from it in the guards only. -/
theorem materialize_eq_ok {d : Description} {props : List Predicate} {config : Config}
    {fresh n : Identity} {m : Machine} (h : d.materialize props config fresh = .ok (m, n)) :
    m.WellFormed ∧ List.Forall₂ (State.Binds props) d.states m.states ∧ m.initial = d.initial ∧
      m.pairs = d.pairs ∧ m.config = config := by
  obtain ⟨hstates, hm⟩ := bindStates_of_materialize h
  obtain ⟨hwf, -, hinit, hpairs, hconfig⟩ := Machine.ofStates_eq_ok_iff.1 hm
  exact ⟨hwf, bindStates_eq_ok hstates, hinit, hpairs, hconfig⟩

theorem forall₂_transitions {d : Description} {props : List Predicate} {m : Machine}
    (h : List.Forall₂ (State.Binds props) d.states m.states) (i : Nat) :
    List.Forall₂ (Transition.Binds props) (d.transitions i) (m.transitions i) := by
  unfold transitions Machine.transitions
  generalize d.states = ss at h
  generalize m.states = ss' at h
  induction h generalizing i with
  | nil => exact .nil
  | cons hs _ ih =>
    cases i with
    | zero => exact hs.transitions
    | succ i => exact ih i

end Description

end RabinReward
