import RabinReward.Formula.NormalForm
import Mathlib.Data.Nat.Find
import Mathlib.Data.Set.Basic

/-!
# Formulas over infinite words

A `Word` gives the set of atoms that hold at each position, and `Formula.Holds` the usual meaning
of a formula at a position of it. The temporal operators are defined on predicates of positions,
`Until` by the moment that ends the wait and `Release` by the moment up to which the second operand
must hold, if there is one. `not_until` and `not_release` say that the two are dual; the first needs
the earliest position at which the wait could have ended. From them `holds_polar` gets the meaning
of a rewritten formula under either polarity.
-/

namespace RabinReward

/-- An infinite word: the atoms that hold at each position. -/
abbrev Word := Nat → Set String

/-! ## Temporal operators -/

section Operators

variable {p q : Nat → Prop} {i : Nat}

/-- `q` holds now or later, and `p` until then. -/
def Until (p q : Nat → Prop) (i : Nat) : Prop :=
  ∃ j, i ≤ j ∧ q j ∧ ∀ k, i ≤ k → k < j → p k

/-- `q` holds up to and including a moment at which `p` does, or forever. -/
def Release (p q : Nat → Prop) (i : Nat) : Prop :=
  (∃ j, i ≤ j ∧ p j ∧ ∀ k, i ≤ k → k ≤ j → q k) ∨ ∀ k, i ≤ k → q k

theorem until_congr {p' q' : Nat → Prop} (hp : ∀ j, p j ↔ p' j) (hq : ∀ j, q j ↔ q' j) :
    Until p q i ↔ Until p' q' i := by
  simp only [Until, hp, hq]

theorem release_congr {p' q' : Nat → Prop} (hp : ∀ j, p j ↔ p' j) (hq : ∀ j, q j ↔ q' j) :
    Release p q i ↔ Release p' q' i := by
  simp only [Release, hp, hq]

theorem until_true_left : Until (fun _ => True) q i ↔ ∃ j, i ≤ j ∧ q j :=
  ⟨fun ⟨j, hij, hj, _⟩ => ⟨j, hij, hj⟩, fun ⟨j, hij, hj⟩ => ⟨j, hij, hj, fun _ _ _ => trivial⟩⟩

theorem release_false_left : Release (fun _ => False) q i ↔ ∀ j, i ≤ j → q j :=
  ⟨fun h => h.elim (fun ⟨_, _, h, _⟩ => h.elim) id, .inr⟩

theorem not_until : ¬Until p q i ↔ Release (fun j => ¬p j) (fun j => ¬q j) i := by
  classical
  constructor
  · intro h
    by_cases hq : ∃ j, i ≤ j ∧ q j
    · -- before the first `q` some position breaks the wait: there the release happens
      have hfirst := Nat.find_spec hq
      obtain ⟨k, hik, hk, hp⟩ : ∃ k, i ≤ k ∧ k < Nat.find hq ∧ ¬p k := by
        by_contra hc
        refine h ⟨Nat.find hq, hfirst.1, hfirst.2, fun k hik hk => ?_⟩
        by_contra hp
        exact hc ⟨k, hik, hk, hp⟩
      refine .inl ⟨k, hik, hp, fun j hij hjk hj => ?_⟩
      exact Nat.find_min hq (Nat.lt_of_le_of_lt hjk hk) ⟨hij, hj⟩
    · exact .inr fun k hik hk => hq ⟨k, hik, hk⟩
  · rintro hr ⟨j, hij, hj, hp⟩
    rcases hr with ⟨k, hik, hk, hq⟩ | hq
    · rcases Nat.lt_or_ge k j with hkj | hjk
      · exact hk (hp k hik hkj)
      · exact hq j hij hjk hj
    · exact hq j hij hj

theorem not_release : ¬Release p q i ↔ Until (fun j => ¬p j) (fun j => ¬q j) i := by
  have h := not_until (p := fun j => ¬p j) (q := fun j => ¬q j) (i := i)
  simp only [Classical.not_not] at h
  rw [← h, Classical.not_not]

end Operators

namespace Formula

/-! ## Meaning -/

/-- Whether a formula holds at a position of a word. -/
def Holds (w : Word) : Formula → Nat → Prop
  | .atom id, i => id ∈ w i
  | .tt, _ => True
  | .ff, _ => False
  | .not f, i => ¬f.Holds w i
  | .and l r, i => l.Holds w i ∧ r.Holds w i
  | .or l r, i => l.Holds w i ∨ r.Holds w i
  | .next f, i => f.Holds w (i + 1)
  | .until l r, i => Until (l.Holds w) (r.Holds w) i
  | .release l r, i => Release (l.Holds w) (r.Holds w) i
  | .globally f, i => ∀ j, i ≤ j → f.Holds w j
  | .eventually f, i => ∃ j, i ≤ j ∧ f.Holds w j

/-- Rewriting keeps the meaning under positive polarity and complements it under negative. -/
theorem holds_polar (w : Word) (f : Formula) (i : Nat) :
    ((f.polar true).Holds w i ↔ f.Holds w i) ∧ ((f.polar false).Holds w i ↔ ¬f.Holds w i) := by
  induction f generalizing i with
  | atom id => exact ⟨Iff.rfl, Iff.rfl⟩
  | tt => simp [polar, Holds]
  | ff => simp [polar, Holds]
  | not f ih =>
    refine ⟨(ih i).2, (ih i).1.trans ?_⟩
    simp only [Holds, Classical.not_not]
  | and l r ihl ihr =>
    constructor
    · simp only [polar, Holds, (ihl i).1, (ihr i).1]
    · simp only [polar, Holds, (ihl i).2, (ihr i).2, Classical.not_and_iff_not_or_not]
  | or l r ihl ihr =>
    constructor
    · simp only [polar, Holds, (ihl i).1, (ihr i).1]
    · simp only [polar, Holds, (ihl i).2, (ihr i).2, not_or]
  | next f ih => exact ih (i + 1)
  | «until» l r ihl ihr =>
    refine ⟨until_congr (fun j => (ihl j).1) fun j => (ihr j).1, ?_⟩
    exact (release_congr (fun j => (ihl j).2) fun j => (ihr j).2).trans not_until.symm
  | release l r ihl ihr =>
    refine ⟨release_congr (fun j => (ihl j).1) fun j => (ihr j).1, ?_⟩
    exact (until_congr (fun j => (ihl j).2) fun j => (ihr j).2).trans not_release.symm
  | globally f ih =>
    constructor
    · exact (release_congr (fun _ => Iff.rfl) fun j => (ih j).1).trans release_false_left
    · refine (until_congr (fun _ => Iff.rfl) fun j => (ih j).2).trans (until_true_left.trans ?_)
      simp only [Holds, Classical.not_forall, exists_prop]
  | eventually f ih =>
    constructor
    · exact (until_congr (fun _ => Iff.rfl) fun j => (ih j).1).trans until_true_left
    · refine (release_congr (fun _ => Iff.rfl) fun j => (ih j).2).trans
        (release_false_left.trans ?_)
      simp only [Holds, not_exists, not_and]

/-- **Negation normal form keeps the meaning** at every position of every word. -/
theorem holds_nnf_iff (f : Formula) (w : Word) (i : Nat) : f.nnf.Holds w i ↔ f.Holds w i :=
  (holds_polar w f i).1

end Formula

end RabinReward
