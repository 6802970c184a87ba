import RabinReward.Automaton.Distance
import Mathlib.Data.Fintype.Card
import Mathlib.Logic.Function.Iterate
import Mathlib.Order.Bounds.Basic

/-!
# Distances are shortest

`Walk` counts the transitions between two states and `ReachesIn k i` says that `k` of them lead from
state `i` to an accepting state. After `n` rounds of relaxation the table holds the least such `k`
of every state for which it is below `n` (`within_rounds`). A shortest walk passes through states at
all smaller distances, so there are more states than its length (`lt_length_of_isLeast`) and as many
rounds as there are states suffice.

Tables are compared through `Distance.Within`, the bounds that a distance satisfies: it turns the
minimum of a round into a disjunction.
-/

namespace RabinReward

variable {γ : Type} {pairs : List RabinPair} {states : List (State γ)}

/-! ## Walks -/

inductive Walk (states : List (State γ)) : Nat → Nat → Nat → Prop where
  | refl (i : Nat) : Walk states 0 i i
  | step {k i j : Nat} {s : State γ} {t : Transition γ} : states[i]? = some s → t ∈ s.transitions →
      Walk states k t.destination j → Walk states (k + 1) i j

def AcceptsAt (pairs : List RabinPair) (states : List (State γ)) (i : Nat) : Prop :=
  ∃ s, states[i]? = some s ∧ s.accepting pairs = true

/-- Some walk of `k` transitions leads from state `i` to an accepting state. -/
def ReachesIn (pairs : List RabinPair) (states : List (State γ)) (k i : Nat) : Prop :=
  ∃ j, Walk states k i j ∧ AcceptsAt pairs states j

theorem reachesIn_zero {i : Nat} : ReachesIn pairs states 0 i ↔ AcceptsAt pairs states i := by
  constructor
  · rintro ⟨j, hw, hj⟩
    cases hw
    exact hj
  · exact fun h => ⟨i, .refl i, h⟩

theorem reachesIn_succ {k i : Nat} : ReachesIn pairs states (k + 1) i ↔
    ∃ s, states[i]? = some s ∧ ∃ t ∈ s.transitions, ReachesIn pairs states k t.destination := by
  constructor
  · rintro ⟨j, hw, hj⟩
    cases hw with
    | step hs ht hw => exact ⟨_, hs, _, ht, j, hw, hj⟩
  · rintro ⟨s, hs, t, ht, j, hw, hj⟩
    exact ⟨j, .step hs ht hw, hj⟩

theorem ReachesIn.exists_transition {k i : Nat} (h : ReachesIn pairs states k i) :
    ∃ s, states[i]? = some s ∧ ∃ t, t ∈ s.transitions := by
  cases k with
  | zero =>
    obtain ⟨s, hs, haccept⟩ := reachesIn_zero.1 h
    obtain ⟨t, ht, -⟩ := List.any_eq_true.1 haccept
    exact ⟨s, hs, t, ht⟩
  | succ k =>
    obtain ⟨s, hs, t, ht, -⟩ := reachesIn_succ.1 h
    exact ⟨s, hs, t, ht⟩

theorem ReachesIn.lt_length {k i : Nat} (h : ReachesIn pairs states k i) : i < states.length := by
  obtain ⟨s, hs, -⟩ := h.exists_transition
  exact (List.getElem?_eq_some_iff.1 hs).1

abbrev hopsFrom (pairs : List RabinPair) (states : List (State γ)) (i : Nat) : Set Nat :=
  {k | ReachesIn pairs states k i}

theorem exists_transition_of_isLeast {i k : Nat} (h : IsLeast (hopsFrom pairs states i) (k + 1)) :
    ∃ s, states[i]? = some s ∧
      ∃ t ∈ s.transitions, IsLeast (hopsFrom pairs states t.destination) k := by
  obtain ⟨s, hs, t, ht, hk⟩ := reachesIn_succ.1 h.1
  refine ⟨s, hs, t, ht, hk, fun j hj => ?_⟩
  have := h.2 (reachesIn_succ.2 ⟨s, hs, t, ht, hj⟩)
  omega

theorem exists_isLeast_of_le {i k j : Nat} (h : IsLeast (hopsFrom pairs states i) k) (hj : j ≤ k) :
    ∃ i', IsLeast (hopsFrom pairs states i') j := by
  induction k generalizing i with
  | zero =>
    obtain rfl := Nat.le_zero.1 hj
    exact ⟨i, h⟩
  | succ k ih =>
    rcases Nat.lt_or_ge k j with hkj | hjk
    · obtain rfl : j = k + 1 := by omega
      exact ⟨i, h⟩
    · obtain ⟨s, hs, t, ht, hk⟩ := exists_transition_of_isLeast h
      exact ih hk hjk

/-- There are more states than the shortest walk from any of them is long. -/
theorem lt_length_of_isLeast {i k : Nat} (h : IsLeast (hopsFrom pairs states i) k) :
    k < states.length := by
  have hex : ∀ j : Fin (k + 1), ∃ i : Fin states.length, IsLeast (hopsFrom pairs states i) j := by
    intro j
    obtain ⟨i', hi'⟩ := exists_isLeast_of_le h (Nat.lt_succ_iff.1 j.isLt)
    exact ⟨⟨i', hi'.1.lt_length⟩, hi'⟩
  choose f hf using hex
  have hinj : Function.Injective f := fun a b hab => by
    have hb := hf b
    rw [← hab] at hb
    exact Fin.ext ((hf a).unique hb)
  have := Fintype.card_le_of_injective f hinj
  simp only [Fintype.card_fin] at this
  omega

namespace Distance

/-! ## Bounds of a distance -/

def Within : Distance → Nat → Prop
  | .finite n, k => n ≤ k
  | .infinite, _ => False

theorem eq_finite_iff {d : Distance} {k : Nat} :
    d = .finite k ↔ d.Within k ∧ ∀ j, d.Within j → k ≤ j := by
  cases d with
  | finite n =>
    constructor
    · rintro h
      cases h
      exact ⟨Nat.le_refl k, fun j hj => hj⟩
    · rintro ⟨h₁, h₂⟩
      exact congrArg finite (Nat.le_antisymm h₁ (h₂ n (Nat.le_refl n)))
  | infinite => exact ⟨nofun, fun h => h.1.elim⟩

theorem eq_infinite_iff {d : Distance} : d = .infinite ↔ ∀ k, ¬d.Within k := by
  cases d with
  | finite n => exact ⟨nofun, fun h => absurd (Nat.le_refl n) (h n)⟩
  | infinite => exact ⟨fun _ _ => id, fun _ => rfl⟩

theorem Within.of_not_lt {a b : Distance} {k : Nat} (h : ¬a < b) (ha : a.Within k) :
    b.Within k := by
  cases a with
  | infinite => exact ha.elim
  | finite m =>
    cases b with
    | infinite => exact absurd finite_lt_infinite h
    | finite n =>
      rw [finite_lt_finite] at h
      exact Nat.le_trans (Nat.not_lt.1 h) ha

theorem not_lt_finite_zero {d : Distance} : ¬d < .finite 0 := by
  cases d with
  | finite n =>
    rw [finite_lt_finite]
    omega
  | infinite => exact not_infinite_lt

theorem lt_asymm {a b : Distance} (h : a < b) : ¬b < a := by
  cases a with
  | infinite => exact absurd h not_infinite_lt
  | finite m =>
    cases b with
    | infinite => exact not_infinite_lt
    | finite n =>
      rw [finite_lt_finite] at h ⊢
      omega

theorem min_within {a b : Distance} {k : Nat} : (a.min b).Within k ↔ a.Within k ∨ b.Within k := by
  unfold min
  split
  · rename_i h
    exact ⟨.inr, fun hk => hk.elim (.of_not_lt (lt_asymm h)) id⟩
  · rename_i h
    exact ⟨.inl, fun hk => hk.elim id (.of_not_lt h)⟩

theorem succ_within {d : Distance} {k : Nat} : d.succ.Within k ↔ ∃ j, k = j + 1 ∧ d.Within j := by
  cases d with
  | finite n =>
    constructor
    · intro (h : n + 1 ≤ k)
      exact ⟨k - 1, by omega, Nat.le_sub_of_add_le h⟩
    · rintro ⟨j, rfl, h⟩
      exact Nat.succ_le_succ h
  | infinite => exact ⟨False.elim, fun ⟨_, _, h⟩ => h⟩

/-! ## Rounds -/

theorem ofSuccessors_within {d : Array Distance} {s : State γ} {k : Nat} :
    (ofSuccessors pairs d s).Within k ↔ s.accepting pairs = true ∨
      ∃ t ∈ s.transitions, ∃ j, k = j + 1 ∧ (d[t.destination]?.getD .infinite).Within j := by
  unfold ofSuccessors
  split
  · rename_i h
    simp only [h, true_or, iff_true]
    exact Nat.zero_le k
  · rename_i h
    simp only [h, false_or, Bool.false_eq_true]
    generalize s.transitions = ts
    induction ts with
    | nil => simp [Within]
    | cons t ts ih =>
      simp only [List.foldr_cons, min_within, succ_within, ih, List.exists_mem_cons_iff]

theorem relax_getD {d : Array Distance} {i : Nat} :
    (relax pairs states d)[i]? = states[i]?.map (ofSuccessors pairs d) := by
  simp [relax]

/-- After `n` rounds: the numbers of transitions below `n` have been found. -/
theorem within_rounds {n i k : Nat} :
    ((((relax pairs states)^[n] (Array.replicate states.length .infinite))[i]?).getD
      .infinite).Within k ↔ ∃ j ≤ k, j < n ∧ ReachesIn pairs states j i := by
  induction n generalizing i k with
  | zero =>
    have h : ((Array.replicate states.length Distance.infinite)[i]?).getD .infinite =
        .infinite := by
      rw [Array.getElem?_replicate]
      split <;> rfl
    simp only [Function.iterate_zero, id, h, Within, Nat.not_lt_zero, false_and, and_false,
      exists_false]
  | succ n ih =>
    rw [Function.iterate_succ_apply', relax_getD]
    cases hs : states[i]? with
    | none =>
      have hi : ∀ j, ¬ReachesIn pairs states j i := fun j hj => by
        have := List.getElem?_eq_none_iff.1 hs
        have := hj.lt_length
        omega
      simp only [Option.map_none, Option.getD_none, Within, hi, and_false, exists_false]
    | some s =>
      simp only [Option.map_some, Option.getD_some, ofSuccessors_within, ih]
      constructor
      · rintro (hacc | ⟨t, ht, k, rfl, j, hjk, hjn, hj⟩)
        · exact ⟨0, Nat.zero_le k, Nat.succ_pos n, reachesIn_zero.2 ⟨s, hs, hacc⟩⟩
        · exact ⟨j + 1, by omega, by omega, reachesIn_succ.2 ⟨s, hs, t, ht, hj⟩⟩
      · rintro ⟨j, hjk, hjn, hj⟩
        cases j with
        | zero =>
          obtain ⟨s', hs', hacc⟩ := reachesIn_zero.1 hj
          rw [hs, Option.some.injEq] at hs'
          exact .inl (hs' ▸ hacc)
        | succ j =>
          obtain ⟨s', hs', t, ht, hj⟩ := reachesIn_succ.1 hj
          rw [hs, Option.some.injEq] at hs'
          subst hs'
          exact .inr ⟨t, ht, k - 1, by omega, j, by omega, by omega, hj⟩

/-- Stopping when nothing changes any more leaves out no round that would matter. -/
theorem settle_eq_iterate (n : Nat) (d : Array Distance) :
    settle pairs states n d = (relax pairs states)^[n] d := by
  induction n generalizing d with
  | zero => rfl
  | succ n ih =>
    simp only [settle]
    split
    · rename_i h
      exact (Function.iterate_fixed h _).symm
    · rw [ih, Function.iterate_succ_apply]

theorem within_toGoal {i k : Nat} : (((toGoal pairs states)[i]?).getD .infinite).Within k ↔
    ∃ j ≤ k, ReachesIn pairs states j i := by
  rw [toGoal, settle_eq_iterate, within_rounds]
  constructor
  · rintro ⟨j, hjk, -, hj⟩
    exact ⟨j, hjk, hj⟩
  · rintro ⟨j, hjk, hj⟩
    classical
    have hex : ∃ j, ReachesIn pairs states j i := ⟨j, hj⟩
    have hmin : Nat.find hex ≤ j := Nat.find_min' hex hj
    refine ⟨Nat.find hex, Nat.le_trans hmin hjk, ?_, Nat.find_spec hex⟩
    exact lt_length_of_isLeast ⟨Nat.find_spec hex, fun k hk => Nat.find_min' hex hk⟩

/-! ## The table -/

theorem size_toGoal : (toGoal pairs states).size = states.length := by
  rw [toGoal, settle_eq_iterate]
  cases hn : states.length with
  | zero => rfl
  | succ n =>
    rw [Function.iterate_succ_apply', relax, List.size_toArray, List.length_map, hn]

theorem getElem?_toGoal {i : Nat} {d : Distance} : (toGoal pairs states)[i]? = some d ↔
    i < states.length ∧ ((toGoal pairs states)[i]?).getD .infinite = d := by
  constructor
  · intro h
    obtain ⟨hi, -⟩ := Array.getElem?_eq_some_iff.1 h
    rw [size_toGoal] at hi
    exact ⟨hi, by rw [h, Option.getD_some]⟩
  · rintro ⟨hi, rfl⟩
    rw [Array.getElem?_eq_getElem (by rwa [size_toGoal]), Option.getD_some]

theorem toGoal_eq_finite_iff {i k : Nat} :
    ((toGoal pairs states)[i]?).getD .infinite = .finite k ↔
      IsLeast (hopsFrom pairs states i) k := by
  simp only [eq_finite_iff, within_toGoal]
  constructor
  · rintro ⟨⟨j, hjk, hj⟩, hleast⟩
    have hkj := hleast j ⟨j, Nat.le_refl j, hj⟩
    obtain rfl : j = k := by omega
    exact ⟨hj, fun j' hj' => hleast j' ⟨j', Nat.le_refl j', hj'⟩⟩
  · rintro ⟨hk, hleast⟩
    refine ⟨⟨k, Nat.le_refl k, hk⟩, ?_⟩
    rintro j ⟨j', hj'j, hj'⟩
    exact Nat.le_trans (hleast hj') hj'j

theorem toGoal_eq_infinite_iff {i : Nat} :
    ((toGoal pairs states)[i]?).getD .infinite = .infinite ↔
      ∀ k, ¬ReachesIn pairs states k i := by
  simp only [eq_infinite_iff, within_toGoal]
  exact ⟨fun h k hk => h k ⟨k, Nat.le_refl k, hk⟩, fun h _ ⟨j, _, hj⟩ => h j hj⟩

theorem getElem?_toGoal_finite {i k : Nat} :
    (toGoal pairs states)[i]? = some (.finite k) ↔ IsLeast (hopsFrom pairs states i) k := by
  rw [getElem?_toGoal, toGoal_eq_finite_iff]
  exact ⟨And.right, fun h => ⟨h.1.lt_length, h⟩⟩

/-! ## The largest finite distance -/

theorem largest_eq (d : Array Distance) :
    largest d = d.toList.foldr (fun x n => max (x.finite?.getD 0) n) 0 := rfl

theorem le_largest {d : Array Distance} {k : Nat} (h : .finite k ∈ d) : k ≤ largest d := by
  rw [← Array.mem_toList_iff] at h
  rw [largest_eq]
  generalize d.toList = l at h
  induction l with
  | nil => cases h
  | cons x l ih =>
    rw [List.foldr_cons]
    rcases List.mem_cons.1 h with rfl | h
    · exact Nat.le_max_left k _
    · exact Nat.le_trans (ih h) (Nat.le_max_right _ _)

/-- The largest distance is that of some state, unless it is zero for want of a finite one. -/
theorem largest_mem_or {d : Array Distance} :
    .finite (largest d) ∈ d ∨ largest d = 0 ∧ ∀ k, .finite k ∉ d := by
  simp only [← Array.mem_toList_iff]
  rw [largest_eq]
  generalize d.toList = l
  induction l with
  | nil => exact .inr ⟨rfl, fun k => List.not_mem_nil⟩
  | cons x l ih =>
    rw [List.foldr_cons]
    generalize l.foldr (fun x n => max (x.finite?.getD 0) n) 0 = n at ih ⊢
    cases x with
    | infinite =>
      rw [show max (infinite.finite?.getD 0) n = n from Nat.zero_max n]
      rcases ih with hmem | ⟨hzero, hnone⟩
      · exact .inl (List.mem_cons_of_mem _ hmem)
      · refine .inr ⟨hzero, fun k hk => hnone k ?_⟩
        exact (List.mem_cons.1 hk).resolve_left nofun
    | finite m =>
      left
      rw [show (finite m).finite?.getD 0 = m from rfl]
      rcases ih with hmem | ⟨rfl, -⟩
      · rcases Nat.le_total m n with h | h
        · rw [Nat.max_eq_right h]
          exact List.mem_cons_of_mem _ hmem
        · rw [Nat.max_eq_left h]
          exact List.mem_cons_self
      · rw [Nat.max_zero]
        exact List.mem_cons_self

end Distance

/-! ## Main statement -/

/-- What the distances `d` of the states and their maximum `m` are required to be. -/
structure ShortestDistances (pairs : List RabinPair) (states : List (State γ)) (d : Array Distance)
    (m : Nat) : Prop where
  size_eq : d.size = states.length
  /-- A finite distance is the length of a shortest walk to acceptance. -/
  finite_iff : ∀ i < states.length, ∀ k : Nat,
    d[i]? = some (.finite k) ↔ IsLeast {k | ReachesIn pairs states k i} k
  /-- A distance is infinite when there is no such walk. -/
  infinite_iff : ∀ i < states.length, d[i]? = some .infinite ↔ ¬∃ k, ReachesIn pairs states k i
  max_eq : (∃ k, Distance.finite k ∈ d) → IsGreatest {k | Distance.finite k ∈ d} m
  max_eq_zero : (¬∃ k, Distance.finite k ∈ d) → m = 0
  /-- No finite distance reaches the number of states. -/
  lt_length : ∀ k : Nat, Distance.finite k ∈ d → k < states.length
  /-- Some transition leads one closer. -/
  exists_closer : ∀ (i k : Nat) (s : State γ), states[i]? = some s →
    d[i]? = some (.finite (k + 1)) → ∃ t ∈ s.transitions, d[t.destination]? = some (.finite k)
  /-- No transition leads closer by more than one. -/
  le_succ : ∀ (i : Nat) (s : State γ), states[i]? = some s → ∀ t ∈ s.transitions,
    ∃ x y : Distance, d[i]? = some x ∧ d[t.destination]? = some y ∧ ¬y.succ < x
  /-- There are no gaps. -/
  mem_of_le_max : (∃ k, Distance.finite k ∈ d) → ∀ k ≤ m, Distance.finite k ∈ d

theorem finite_mem_toGoal {k : Nat} : Distance.finite k ∈ Distance.toGoal pairs states ↔
    ∃ i, IsLeast (hopsFrom pairs states i) k := by
  rw [Array.mem_iff_getElem?]
  exact exists_congr fun i => Distance.getElem?_toGoal_finite

/-- A transition shortens the way to acceptance by at most one. -/
theorem not_succ_lt_of_transition {i : Nat} {s : State γ} {t : Transition γ}
    (hs : states[i]? = some s) (ht : t ∈ s.transitions) :
    ¬(((Distance.toGoal pairs states)[t.destination]?).getD .infinite).succ <
      ((Distance.toGoal pairs states)[i]?).getD .infinite := by
  cases hy : ((Distance.toGoal pairs states)[t.destination]?).getD .infinite with
  | infinite => exact Distance.not_infinite_lt
  | finite k =>
    have hk := (Distance.toGoal_eq_finite_iff.1 hy).1
    have hi : ReachesIn pairs states (k + 1) i := reachesIn_succ.2 ⟨s, hs, t, ht, hk⟩
    cases hx : ((Distance.toGoal pairs states)[i]?).getD .infinite with
    | infinite => exact absurd hi (Distance.toGoal_eq_infinite_iff.1 hx _)
    | finite j =>
      have := (Distance.toGoal_eq_finite_iff.1 hx).2 hi
      simp only [Distance.succ, Distance.finite_lt_finite]
      omega

/-- **The computed distances are the shortest ones.** -/
theorem toGoal_shortestDistances (pairs : List RabinPair) (states : List (State γ))
    (h : ∀ s ∈ states, ∀ t ∈ s.transitions, t.destination < states.length) :
    ShortestDistances pairs states (Distance.toGoal pairs states)
      (Distance.largest (Distance.toGoal pairs states)) where
  size_eq := Distance.size_toGoal
  finite_iff i _ k := Distance.getElem?_toGoal_finite
  infinite_iff i hi := by
    rw [Distance.getElem?_toGoal, Distance.toGoal_eq_infinite_iff, not_exists]
    exact ⟨And.right, fun hk => ⟨hi, hk⟩⟩
  max_eq hfin := by
    rcases Distance.largest_mem_or (d := Distance.toGoal pairs states) with hmem | ⟨-, hnone⟩
    · exact ⟨hmem, fun k hk => Distance.le_largest hk⟩
    · obtain ⟨k, hk⟩ := hfin
      exact absurd hk (hnone k)
  max_eq_zero hnone := by
    rcases Distance.largest_mem_or (d := Distance.toGoal pairs states) with hmem | ⟨hzero, -⟩
    · exact absurd ⟨_, hmem⟩ hnone
    · exact hzero
  lt_length k hk := by
    obtain ⟨i, hi⟩ := finite_mem_toGoal.1 hk
    exact lt_length_of_isLeast hi
  exists_closer i k s hs hk := by
    obtain ⟨s', hs', t, ht, hleast⟩ :=
      exists_transition_of_isLeast (Distance.getElem?_toGoal_finite.1 hk)
    rw [hs, Option.some.injEq] at hs'
    subst hs'
    exact ⟨t, ht, Distance.getElem?_toGoal_finite.2 hleast⟩
  le_succ i s hs t ht := by
    have hi : i < states.length := (List.getElem?_eq_some_iff.1 hs).1
    have hd := h s (List.mem_of_getElem? hs) t ht
    exact ⟨_, _, Distance.getElem?_toGoal.2 ⟨hi, rfl⟩, Distance.getElem?_toGoal.2 ⟨hd, rfl⟩,
      not_succ_lt_of_transition hs ht⟩
  mem_of_le_max hfin k hk := by
    rcases Distance.largest_mem_or (d := Distance.toGoal pairs states) with hmem | ⟨-, hnone⟩
    · obtain ⟨i, hi⟩ := finite_mem_toGoal.1 hmem
      exact finite_mem_toGoal.2 (exists_isLeast_of_le hi hk)
    · obtain ⟨k', hk'⟩ := hfin
      exact absurd hk' (hnone k')

def detour : List (State Guard) :=
  [⟨"", [⟨.literal true, 1, .empty⟩, ⟨.literal true, 3, .empty⟩]⟩,
    ⟨"", [⟨.literal true, 0, .empty⟩, ⟨.literal true, 2, .empty⟩, ⟨.literal true, 4, .empty⟩]⟩,
    ⟨"", [⟨.literal true, 3, .empty⟩]⟩,
    ⟨"", [⟨.literal true, 3, .ofList ["1"]⟩]⟩,
    ⟨"", [⟨.literal true, 4, .ofList ["0", "1"]⟩]⟩]

theorem toGoal_shortestDistances_detour :
    (∀ s ∈ detour, ∀ t ∈ s.transitions, t.destination < detour.length) ∧
      ShortestDistances [⟨.ofList ["0"], .ofList ["1"]⟩] detour
        #[.finite 1, .finite 2, .finite 1, .finite 0, .infinite] 2 := by
  have hrange : ∀ s ∈ detour, ∀ t ∈ s.transitions, t.destination < detour.length := by decide
  have h := toGoal_shortestDistances [⟨.ofList ["0"], .ofList ["1"]⟩] detour hrange
  have hd : Distance.toGoal [⟨.ofList ["0"], .ofList ["1"]⟩] detour =
      #[.finite 1, .finite 2, .finite 1, .finite 0, .infinite] := by decide
  rw [hd] at h
  exact ⟨hrange, h⟩

end RabinReward
