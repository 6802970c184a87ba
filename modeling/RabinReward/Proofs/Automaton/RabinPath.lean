import RabinReward.Proofs.Automaton.Distance
import Mathlib.Order.Filter.AtTopBot.Basic
import Mathlib.Order.Filter.Finite

/-!
# Infinite paths and the Rabin condition

The Rabin condition speaks about the tokens that an infinite path meets again and again, acceptance
of a transition about its tokens only. A path that some pair accepts takes accepting transitions
infinitely often (`RabinAccepted.frequently_accepting`): the finitely many forbidden tokens have all
been met for the last time at some point. Since an accepting transition leaves an accepting state,
such a path starts where acceptance can be reached (`RabinAccepted.exists_reachesIn`). For a path
that repeats one transition the two agree (`Repeats.rabinAccepted_iff`).
-/

namespace RabinReward

open Filter

variable {γ : Type} {pairs : List RabinPair} {states : List (State γ)}

/-- An infinite path of transitions; its `n`-th transition leaves the state `state n`. -/
structure InfinitePath (states : List (State γ)) where
  state : Nat → Nat
  transition : Nat → Transition γ
  leaves : ∀ n, ∃ s, states[state n]? = some s ∧ transition n ∈ s.transitions
  arrives : ∀ n, state (n + 1) = (transition n).destination

namespace InfinitePath

def MeetsForever (w : InfinitePath states) (x : String) : Prop :=
  ∃ᶠ n in atTop, x ∈ (w.transition n).tokens

/-- The Rabin condition: of some pair the path meets no `fin` token infinitely often and some `inf`
token infinitely often. -/
def RabinAccepted (pairs : List RabinPair) (w : InfinitePath states) : Prop :=
  ∃ p ∈ pairs, (∀ x ∈ p.fin, ¬w.MeetsForever x) ∧ ∃ x ∈ p.inf, w.MeetsForever x

/-- The tokens of a finite set that are not met infinitely often are all avoided in the end. -/
theorem eventually_avoids {w : InfinitePath states} {l : TokenSet}
    (h : ∀ x ∈ l, ¬w.MeetsForever x) : ∀ᶠ n in atTop, ∀ x ∈ l, x ∉ (w.transition n).tokens := by
  have hfinite : {x | x ∈ l}.Finite := l.toList.finite_toSet
  exact (eventually_all_finite hfinite).2 fun x hx => not_frequently.1 (h x hx)

/-- An accepted path takes accepting transitions again and again. -/
theorem RabinAccepted.frequently_accepting {w : InfinitePath states}
    (h : w.RabinAccepted pairs) :
    ∃ᶠ n in atTop, (w.transition n).accepting pairs = true := by
  obtain ⟨p, hp, hfin, x, hx, hinf⟩ := h
  refine (hinf.and_eventually (eventually_avoids hfin)).mono ?_
  rintro n ⟨hmet, havoids⟩
  refine List.any_eq_true.2 ⟨p, hp, RabinPair.accepts_iff.2 ⟨⟨x, hx, hmet⟩, ?_⟩⟩
  rintro ⟨y, hy, hymet⟩
  exact havoids y hy hymet

theorem walk (w : InfinitePath states) (n : Nat) : Walk states n (w.state 0) (w.state n) := by
  suffices h : ∀ k, Walk states n (w.state k) (w.state (k + n)) by
    have := h 0
    rwa [Nat.zero_add] at this
  induction n with
  | zero => exact fun k => .refl _
  | succ n ih =>
    intro k
    obtain ⟨s, hs, ht⟩ := w.leaves k
    have hrest := ih (k + 1)
    rw [w.arrives k, Nat.add_right_comm, Nat.add_assoc] at hrest
    exact .step hs ht hrest

theorem RabinAccepted.exists_reachesIn {w : InfinitePath states} (h : w.RabinAccepted pairs) :
    ∃ k, ReachesIn pairs states k (w.state 0) := by
  obtain ⟨n, hn⟩ := h.frequently_accepting.exists
  obtain ⟨s, hs, ht⟩ := w.leaves n
  exact ⟨n, w.state n, w.walk n, s, hs, List.any_eq_true.2 ⟨_, ht, hn⟩⟩

/-! ## Loops -/

def Repeats (w : InfinitePath states) (i : Nat) (t : Transition γ) : Prop :=
  ∀ n, w.state n = i ∧ w.transition n = t

def loop {s : State γ} {t : Transition γ} (hs : states[t.destination]? = some s)
    (ht : t ∈ s.transitions) : InfinitePath states where
  state _ := t.destination
  transition _ := t
  leaves _ := ⟨s, hs, ht⟩
  arrives _ := rfl

theorem loop_repeats {s : State γ} {t : Transition γ} (hs : states[t.destination]? = some s)
    (ht : t ∈ s.transitions) : (loop hs ht).Repeats t.destination t :=
  fun _ => ⟨rfl, rfl⟩

theorem Repeats.meetsForever_iff {w : InfinitePath states} {i : Nat} {t : Transition γ}
    (h : w.Repeats i t) {x : String} : w.MeetsForever x ↔ x ∈ t.tokens := by
  unfold MeetsForever
  constructor
  · intro hmeets
    obtain ⟨n, hn⟩ := hmeets.exists
    rwa [(h n).2] at hn
  · intro hx
    refine Frequently.of_forall fun n => ?_
    rwa [(h n).2]

/-- A transition is accepting exactly when repeating it forever satisfies the Rabin condition. -/
theorem Repeats.rabinAccepted_iff {w : InfinitePath states} {i : Nat} {t : Transition γ}
    (h : w.Repeats i t) : w.RabinAccepted pairs ↔ t.accepting pairs = true := by
  have hpair : ∀ p : RabinPair, p.accepts t.tokens = true ↔
      (∀ x ∈ p.fin, ¬w.MeetsForever x) ∧ ∃ x ∈ p.inf, w.MeetsForever x := by
    intro p
    simp only [RabinPair.accepts_iff, h.meetsForever_iff, not_exists, not_and]
    exact and_comm
  rw [Transition.accepting, List.any_eq_true]
  exact exists_congr fun p => and_congr_right fun _ => (hpair p).symm

end InfinitePath

end RabinReward
