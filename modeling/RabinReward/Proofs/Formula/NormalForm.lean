import RabinReward.Formula.NormalForm

/-!
# Normal forms and their duals

Rewriting leads to a normal form under either polarity (`isNnf_polar`), changes no formula that is
one already (`nnf_eq_self_iff`) and at most doubles the number of nodes (`size_polar_le`). The two
polarities lead to normal forms that mirror one another: `dual` exchanges every operator and every
literal with its opposite, and `dual_polar` says that this is all that a negation in front changes.
-/

namespace RabinReward.Formula

variable {f : Formula}

/-! ## Normal forms -/

theorem isNnf_polar (p : Bool) (f : Formula) : (f.polar p).isNnf = true := by
  induction f generalizing p with
  | atom id | tt | ff => cases p <;> rfl
  | not f ih | next f ih | globally f ih | eventually f ih => cases p <;> exact ih _
  | and l r ihl ihr | or l r ihl ihr | «until» l r ihl ihr | release l r ihl ihr =>
    cases p <;> simp only [polar, isNnf, ihl, ihr, Bool.and_self]

theorem exists_atom_of_isAtomic (h : f.isAtomic = true) : ∃ id, f = .atom id := by
  cases f with
  | atom id => exact ⟨id, rfl⟩
  | tt | ff | not | and | or | next | «until» | release | globally | eventually => cases h

theorem polar_true_of_isNnf (h : f.isNnf = true) : f.polar true = f := by
  induction f with
  | atom id | tt | ff => rfl
  | not f _ =>
    obtain ⟨id, rfl⟩ := exists_atom_of_isAtomic h
    rfl
  | next f ih => exact congrArg Formula.next (ih h)
  | and l r ihl ihr | or l r ihl ihr | «until» l r ihl ihr | release l r ihl ihr =>
    simp only [isNnf, Bool.and_eq_true] at h
    simp only [polar, ihl h.1, ihr h.2]
  | globally | eventually => cases h

theorem nnf_eq_self_iff : f.nnf = f ↔ f.isNnf = true :=
  ⟨fun h => h ▸ isNnf_polar true f, polar_true_of_isNnf⟩

theorem nnf_nnf (f : Formula) : f.nnf.nnf = f.nnf := nnf_eq_self_iff.2 (isNnf_polar true f)

/-- Rewriting at most doubles the number of nodes: only atoms and the operators `G` and `F` get one
more. -/
theorem size_polar_le (p : Bool) (f : Formula) : (f.polar p).size ≤ 2 * f.size := by
  induction f generalizing p with
  | atom id | tt | ff => cases p <;> simp only [polar, size] <;> omega
  | not f ih | next f ih | globally f ih | eventually f ih =>
    have := ih true
    have := ih false
    cases p <;> simp only [polar, size, Bool.not_true, Bool.not_false] <;> omega
  | and l r ihl ihr | or l r ihl ihr | «until» l r ihl ihr | release l r ihl ihr =>
    have := ihl p
    have := ihr p
    cases p <;> simp only [polar, size] <;> omega

/-! ## Duals -/

/-- Every constant, operator and literal replaced by its opposite; `X` is its own. -/
def dual : Formula → Formula
  | .atom id => .not (.atom id)
  | .not (.atom id) => .atom id
  | .tt => .ff
  | .ff => .tt
  | .not f => .not f.dual
  | .and l r => .or l.dual r.dual
  | .or l r => .and l.dual r.dual
  | .next f => .next f.dual
  | .until l r => .release l.dual r.dual
  | .release l r => .until l.dual r.dual
  | .globally f => .eventually f.dual
  | .eventually f => .globally f.dual

theorem dual_polar (p : Bool) (f : Formula) : (f.polar p).dual = f.polar (!p) := by
  induction f generalizing p with
  | atom id | tt | ff => cases p <;> rfl
  | not f ih => cases p <;> exact ih _
  | and l r ihl ihr | or l r ihl ihr | «until» l r ihl ihr | release l r ihl ihr =>
    cases p <;> simp only [polar, dual, ihl, ihr, Bool.not_true, Bool.not_false]
  | next f ih | globally f ih | eventually f ih =>
    cases p <;> simp only [polar, dual, ih, Bool.not_true, Bool.not_false]

theorem polar_false_eq_dual (f : Formula) : f.polar false = f.nnf.dual := (dual_polar true f).symm

/-- Under negative polarity a normal form has the same normal form as what it was made from. -/
theorem polar_false_nnf (f : Formula) : f.nnf.polar false = f.polar false := by
  rw [polar_false_eq_dual, polar_false_eq_dual, nnf_nnf]

end RabinReward.Formula
