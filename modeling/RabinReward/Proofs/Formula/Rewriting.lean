import RabinReward.Proofs.Formula.NormalForm

/-!
# Rewriting by rules

Negation normal form can be reached by rules that push one negation at a time. Such rules do not
follow the structure of the formula. Before a negation is pushed through `&` or `|` the operands are
rewritten, and what has been rewritten is then rewritten again under the negation; through `U` and
`R` it is pushed by wrapping the operands in negations; `G` and `F` are spelled out first.
`Rewrites` is the system of these rules. There is a rule for every formula under either polarity,
the rules come to an end, and the order in which they rewrite and negate does not matter: they lead
to what `polar` computes and to nothing else (`rewrites_iff`).
-/

namespace RabinReward.Formula

/-- The rules rewrite `f` (for `p = true`) or its negation (for `p = false`) to `g`. -/
inductive Rewrites : Bool → Formula → Formula → Prop where
  | atom (id : String) : Rewrites true (.atom id) (.atom id)
  | tt : Rewrites true .tt .tt
  | ff : Rewrites true .ff .ff
  | not {f g : Formula} : Rewrites false f g → Rewrites true (.not f) g
  | and {l r l' r' : Formula} : Rewrites true l l' → Rewrites true r r' →
      Rewrites true (.and l r) (.and l' r')
  | or {l r l' r' : Formula} : Rewrites true l l' → Rewrites true r r' →
      Rewrites true (.or l r) (.or l' r')
  | next {f g : Formula} : Rewrites true f g → Rewrites true (.next f) (.next g)
  | «until» {l r l' r' : Formula} : Rewrites true l l' → Rewrites true r r' →
      Rewrites true (.until l r) (.until l' r')
  | release {l r l' r' : Formula} : Rewrites true l l' → Rewrites true r r' →
      Rewrites true (.release l r) (.release l' r')
  | globally {f g : Formula} : Rewrites true f g → Rewrites true (.globally f) (.release .ff g)
  | eventually {f g : Formula} : Rewrites true f g → Rewrites true (.eventually f) (.until .tt g)
  | notAtom (id : String) : Rewrites false (.atom id) (.not (.atom id))
  | notTt : Rewrites false .tt .ff
  | notFf : Rewrites false .ff .tt
  | notNot {f g : Formula} : Rewrites true f g → Rewrites false (.not f) g
  /-- The operands are rewritten before they are negated. -/
  | notAnd {l r l' r' l'' r'' : Formula} : Rewrites true l l' → Rewrites true r r' →
      Rewrites false l' l'' → Rewrites false r' r'' → Rewrites false (.and l r) (.or l'' r'')
  | notOr {l r l' r' l'' r'' : Formula} : Rewrites true l l' → Rewrites true r r' →
      Rewrites false l' l'' → Rewrites false r' r'' → Rewrites false (.or l r) (.and l'' r'')
  | notNext {f g : Formula} : Rewrites false f g → Rewrites false (.next f) (.next g)
  /-- The operands are wrapped in negations and the dual operator is rewritten. -/
  | notUntil {l r g : Formula} : Rewrites true (.release (.not l) (.not r)) g →
      Rewrites false (.until l r) g
  | notRelease {l r g : Formula} : Rewrites true (.until (.not l) (.not r)) g →
      Rewrites false (.release l r) g
  /-- The operator is spelled out before the negation is pushed. -/
  | notGlobally {f g h : Formula} : Rewrites true (.globally f) g → Rewrites false g h →
      Rewrites false (.globally f) h
  | notEventually {f g h : Formula} : Rewrites true (.eventually f) g → Rewrites false g h →
      Rewrites false (.eventually f) h

variable {p : Bool} {f g : Formula}

theorem Rewrites.eq_polar (h : Rewrites p f g) : g = f.polar p := by
  induction h with
  | atom | tt | ff | notAtom | notTt | notFf => rfl
  | not _ ih | notNot _ ih | notUntil _ ih | notRelease _ ih => exact ih
  | next _ ih | notNext _ ih => exact congrArg Formula.next ih
  | globally _ ih => exact congrArg (Formula.release .ff) ih
  | eventually _ ih => exact congrArg (Formula.until .tt) ih
  | and _ _ ihl ihr | or _ _ ihl ihr | «until» _ _ ihl ihr | release _ _ ihl ihr =>
    rw [polar, ← ihl, ← ihr]
  | @notAnd l r l' r' l'' r'' _ _ _ _ ihl ihr ihl' ihr'
  | @notOr l r l' r' l'' r'' _ _ _ _ ihl ihr ihl' ihr' =>
    rw [ihl] at ihl'
    rw [ihr] at ihr'
    rw [polar, ← polar_false_nnf l, ← polar_false_nnf r, nnf, nnf, ← ihl', ← ihr']
  | @notGlobally f g h _ _ ih ih' | @notEventually f g h _ _ ih ih' =>
    rw [ih', ih]
    exact polar_false_nnf _

/-- The rules lead from a normal form to itself and from its negation to its dual. -/
theorem rewrites_of_isNnf (h : f.isNnf = true) : Rewrites true f f ∧ Rewrites false f f.dual := by
  induction f with
  | atom id => exact ⟨.atom id, .notAtom id⟩
  | tt => exact ⟨.tt, .notTt⟩
  | ff => exact ⟨.ff, .notFf⟩
  | not f _ =>
    obtain ⟨id, rfl⟩ := exists_atom_of_isAtomic h
    exact ⟨.not (.notAtom id), .notNot (.atom id)⟩
  | next f ih => exact ⟨.next (ih h).1, .notNext (ih h).2⟩
  | and l r ihl ihr =>
    simp only [isNnf, Bool.and_eq_true] at h
    obtain ⟨hl, hl'⟩ := ihl h.1
    obtain ⟨hr, hr'⟩ := ihr h.2
    exact ⟨.and hl hr, .notAnd hl hr hl' hr'⟩
  | or l r ihl ihr =>
    simp only [isNnf, Bool.and_eq_true] at h
    obtain ⟨hl, hl'⟩ := ihl h.1
    obtain ⟨hr, hr'⟩ := ihr h.2
    exact ⟨.or hl hr, .notOr hl hr hl' hr'⟩
  | «until» l r ihl ihr =>
    simp only [isNnf, Bool.and_eq_true] at h
    obtain ⟨hl, hl'⟩ := ihl h.1
    obtain ⟨hr, hr'⟩ := ihr h.2
    exact ⟨.until hl hr, .notUntil (.release (.not hl') (.not hr'))⟩
  | release l r ihl ihr =>
    simp only [isNnf, Bool.and_eq_true] at h
    obtain ⟨hl, hl'⟩ := ihl h.1
    obtain ⟨hr, hr'⟩ := ihr h.2
    exact ⟨.release hl hr, .notRelease (.until (.not hl') (.not hr'))⟩
  | globally f _ | eventually f _ => cases h

theorem rewrites_nnf_false (f : Formula) : Rewrites false f.nnf (f.polar false) := by
  rw [polar_false_eq_dual]
  exact (rewrites_of_isNnf (isNnf_polar true f)).2

theorem rewrites_polar (p : Bool) (f : Formula) : Rewrites p f (f.polar p) := by
  induction f generalizing p with
  | atom id =>
    cases p
    · exact .notAtom id
    · exact .atom id
  | tt =>
    cases p
    · exact .notTt
    · exact .tt
  | ff =>
    cases p
    · exact .notFf
    · exact .ff
  | not f ih =>
    cases p
    · exact .notNot (ih true)
    · exact .not (ih false)
  | and l r ihl ihr =>
    cases p
    · exact .notAnd (ihl true) (ihr true) (rewrites_nnf_false l) (rewrites_nnf_false r)
    · exact .and (ihl true) (ihr true)
  | or l r ihl ihr =>
    cases p
    · exact .notOr (ihl true) (ihr true) (rewrites_nnf_false l) (rewrites_nnf_false r)
    · exact .or (ihl true) (ihr true)
  | next f ih =>
    cases p
    · exact .notNext (ih false)
    · exact .next (ih true)
  | «until» l r ihl ihr =>
    cases p
    · exact .notUntil (.release (.not (ihl false)) (.not (ihr false)))
    · exact .until (ihl true) (ihr true)
  | release l r ihl ihr =>
    cases p
    · exact .notRelease (.until (.not (ihl false)) (.not (ihr false)))
    · exact .release (ihl true) (ihr true)
  | globally f ih =>
    cases p
    · exact .notGlobally (.globally (ih true)) (rewrites_nnf_false (.globally f))
    · exact .globally (ih true)
  | eventually f ih =>
    cases p
    · exact .notEventually (.eventually (ih true)) (rewrites_nnf_false (.eventually f))
    · exact .eventually (ih true)

/-- The rules lead to one formula, by whatever route. -/
theorem rewrites_iff : Rewrites p f g ↔ g = f.polar p :=
  ⟨Rewrites.eq_polar, fun h => h ▸ rewrites_polar p f⟩

/-! ## Main statements -/

/-- **The normal form of a negation is the dual** of the normal form, as a tree. So negating twice
around normal forms gives the normal form itself, and the rules get to the dual when they negate the
formula as it is, when they negate it after it has been rewritten, and when they rewrite it wrapped
in a negation. -/
theorem nnf_not_eq_dual (f : Formula) :
    (Formula.not f).nnf = f.nnf.dual ∧ (Formula.not (Formula.not f).nnf).nnf = f.nnf ∧
    ∀ g, (Rewrites false f g ↔ g = f.nnf.dual) ∧ (Rewrites false f.nnf g ↔ g = f.nnf.dual) ∧
      (Rewrites true (.not f) g ↔ g = f.nnf.dual) := by
  have hnot : (Formula.not f).nnf = f.nnf.dual := polar_false_eq_dual f
  refine ⟨hnot, ?_, fun g => ⟨?_, ?_, ?_⟩⟩
  · calc (Formula.not (Formula.not f).nnf).nnf
        = (Formula.not f).polar false := polar_false_nnf (.not f)
      _ = f.nnf := rfl
  · rw [rewrites_iff, polar_false_eq_dual]
  · rw [rewrites_iff, polar_false_nnf, polar_false_eq_dual]
  · rw [rewrites_iff, ← hnot, nnf]

/-- **Rewriting reaches a normal form and loses nothing.** The rules come to an end at the normal
form and nowhere else. Only atoms are negated in it and neither `G` nor `F` occurs. Formulas that
are normal forms already are kept, and no others. The atoms are those of the formula, each
occurrence in its place, and the number of nodes at most doubles. -/
theorem nnf_normalizes (f : Formula) :
    (∀ g, Rewrites true f g ↔ g = f.nnf) ∧ f.nnf.isNnf = true ∧
    (f.nnf = f ↔ f.isNnf = true) ∧ f.nnf.nnf = f.nnf ∧
    f.nnf.occurrences = f.occurrences ∧ f.nnf.atoms = f.atoms ∧ f.nnf.size ≤ 2 * f.size := by
  have hoccurrences : f.nnf.occurrences = f.occurrences := occurrences_polar true f
  exact ⟨fun g => rewrites_iff, isNnf_polar true f, nnf_eq_self_iff, nnf_nnf f, hoccurrences,
    congrArg List.eraseDups hoccurrences, size_polar_le true f⟩

end RabinReward.Formula
