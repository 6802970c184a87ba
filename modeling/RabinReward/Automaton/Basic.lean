import RabinReward.SortedSet
import RabinReward.Guard.Basic

/-!
# Rabin automata with acceptance on transitions

Transitions carry a guard, a destination and a set of acceptance tokens. The kind of guard is a
parameter: a `Description`, as read from text, has symbolic guards, and a machine that runs has
predicates in their place. A run is accepted by a pair when it meets the `inf` tokens again and
again and the `fin` tokens only finitely often; `RabinPair.accepts` asks this of one transition
repeated forever.
-/

namespace RabinReward

abbrev TokenSet := SortedSet String

/-- Tokens that an accepted run meets only finitely often, and tokens of which it meets one again
and again. -/
structure RabinPair where
  fin : TokenSet
  inf : TokenSet
  deriving DecidableEq

structure Transition (γ : Type) where
  guard : γ
  destination : Nat
  tokens : TokenSet
  deriving DecidableEq

structure State (γ : Type) where
  label : String
  transitions : List (Transition γ)
  deriving DecidableEq

/-- An automaton whose guards are not bound to predicates. -/
structure Description where
  initial : Nat
  pairs : List RabinPair
  states : List (State Guard)
  deriving DecidableEq

namespace Description

def transitionCount (d : Description) : Nat := (d.states.flatMap State.transitions).length

end Description

/-- Whether a transition with these tokens is an accepting visit for the pair. -/
def RabinPair.accepts (p : RabinPair) (tokens : TokenSet) : Bool :=
  p.inf.meets tokens && !p.fin.meets tokens

theorem RabinPair.accepts_iff {p : RabinPair} {tokens : TokenSet} :
    p.accepts tokens = true ↔ (∃ t, t ∈ p.inf ∧ t ∈ tokens) ∧ ¬∃ t, t ∈ p.fin ∧ t ∈ tokens := by
  simp only [accepts, Bool.and_eq_true, Bool.not_eq_true', SortedSet.meets_iff]
  rw [← Bool.not_eq_true, SortedSet.meets_iff]

variable {γ : Type}

/-- Whether some pair accepts the transition. -/
def Transition.accepting (pairs : List RabinPair) (t : Transition γ) : Bool :=
  pairs.any (·.accepts t.tokens)

/-- A state is accepting when one of its transitions is. -/
def State.accepting (pairs : List RabinPair) (s : State γ) : Bool :=
  s.transitions.any (·.accepting pairs)

end RabinReward
