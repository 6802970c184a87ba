import RabinReward.Proofs.Formula.NormalForm
import RabinReward.Proofs.Formula.Print
import Mathlib.Logic.Relation

/-!
# What the closure lists

`walk` goes through a formula in pre-order, an occurrence at a time, without passing below `G` or
`F` (`mem_walk_iff`). The closure is what is left of the walk when every printed form is kept where
it first occurs (`closure_eq_eraseDupsBy`), and `untils` holds the `U` nodes of the same walk
(`untils_eq_filter`). The list that the closure is collected in only grows (`addNew`): what it has
printed once it never lists again, and what has been walked through it has printed.

A name with parentheses may print like an operator, and then a formula may stand in the closure for
another one. On plain names it stands for itself only, so that the closure and `untils` agree.
-/

namespace RabinReward.Formula

variable {f g : Formula}

/-! ## Walking through a formula -/

/-- The immediate subformulas of every operator but `G` and `F`. -/
def operands : Formula → List Formula
  | .atom _ | .tt | .ff | .globally _ | .eventually _ => []
  | .not f | .next f => [f]
  | .and l r | .or l r | .until l r | .release l r => [l, r]

/-- A formula and what its operands walk through, in order and with repetitions. -/
def walk : Formula → List Formula
  | .not f => .not f :: f.walk
  | .next f => .next f :: f.walk
  | .and l r => .and l r :: (l.walk ++ r.walk)
  | .or l r => .or l r :: (l.walk ++ r.walk)
  | .until l r => .until l r :: (l.walk ++ r.walk)
  | .release l r => .release l r :: (l.walk ++ r.walk)
  | f => [f]

theorem walk_eq (f : Formula) : f.walk = f :: f.operands.flatMap walk := by
  cases f <;> simp [walk, operands]

theorem mem_walk_self (f : Formula) : f ∈ f.walk := by
  rw [walk_eq]
  exact List.mem_cons_self

theorem operands_subset_children (f : Formula) : f.operands ⊆ f.children := by
  cases f <;> simp [operands, children]

/-- What holds of a formula as soon as it holds of its operands holds of every formula. -/
theorem operands_induction {P : Formula → Prop} (h : ∀ f, (∀ x ∈ f.operands, P x) → P f)
    (f : Formula) : P f := by
  induction f using children_induction with
  | h f ih => exact h f fun x hx => ih x (operands_subset_children f hx)

/-- The formulas that are reached through operands. -/
abbrev Reaches : Formula → Formula → Prop := Relation.ReflTransGen fun f g => g ∈ f.operands

theorem mem_walk_iff : g ∈ f.walk ↔ Reaches f g := by
  constructor
  · induction f using operands_induction with
    | h f ih =>
      intro hg
      rw [walk_eq, List.mem_cons, List.mem_flatMap] at hg
      rcases hg with rfl | ⟨x, hx, hg⟩
      · exact .refl
      · exact .head hx (ih x hx hg)
  · intro hreach
    induction hreach using Relation.ReflTransGen.head_induction_on with
    | refl => exact mem_walk_self g
    | head hx _ ih =>
      rw [walk_eq]
      exact List.mem_cons_of_mem _ (List.mem_flatMap.2 ⟨_, hx, ih⟩)

theorem Plain.of_mem_walk (hf : f.Plain) (hg : g ∈ f.walk) : g.Plain := by
  induction f using operands_induction with
  | h f ih =>
    rw [walk_eq, List.mem_cons, List.mem_flatMap] at hg
    rcases hg with rfl | ⟨x, hx, hg⟩
    · exact hf
    · exact ih x hx (hf.of_child (operands_subset_children f hx)) hg

/-! ## The closure collects the walk -/

variable {acc l : List Formula}

theorem closureFrom_eq_foldl (acc : List Formula) (f : Formula) :
    f.closureFrom acc = f.walk.foldl addNew acc := by
  induction f generalizing acc with
  | atom _ | tt | ff | globally _ _ | eventually _ _ => rfl
  | not f ih | next f ih => exact ih _
  | and l r ihl ihr | or l r ihl ihr | «until» l r ihl ihr | release l r ihl ihr =>
    rw [closureFrom, walk, List.foldl_cons, List.foldl_append, ihl, ihr]

theorem closure_eq_foldl (f : Formula) : f.closure = f.walk.foldl addNew [] :=
  closureFrom_eq_foldl [] f

/-- Collecting keeps the first of each printed form that is not in the list yet. -/
theorem foldl_addNew (acc l : List Formula) :
    l.foldl addNew acc =
      acc ++ (l.filter fun f => !acc.any f.sameText).eraseDupsBy sameText := by
  induction l generalizing acc with
  | nil => simp
  | cons f l ih =>
    rw [List.foldl_cons, ih, addNew]
    split
    · rename_i hseen
      rw [List.filter_cons_of_neg (by simp [hseen])]
    · rename_i hnew
      rw [List.filter_cons_of_pos (by simp [hnew]), List.eraseDupsBy_cons, List.filter_filter,
        List.append_assoc, List.singleton_append]
      congr 4
      funext g
      simp [Bool.and_comm]

theorem closure_eq_eraseDupsBy (f : Formula) : f.closure = f.walk.eraseDupsBy sameText := by
  rw [closure_eq_foldl, foldl_addNew]
  simp

/-! ## What is listed -/

theorem mem_addNew (h : g ∈ addNew acc f) : g ∈ acc ∨ g = f := by
  unfold addNew at h
  split at h
  · exact .inl h
  · simpa using h

theorem subset_addNew (acc : List Formula) (f : Formula) : acc ⊆ addNew acc f := by
  unfold addNew
  split
  · exact List.Subset.refl acc
  · exact List.subset_append_left acc [f]

abbrev Distinct (l : List Formula) : Prop := l.Pairwise fun g h => g.sameText h = false

def Lists (l : List Formula) (f : Formula) : Prop := ∃ g ∈ l, f.sameText g = true

theorem lists_addNew (acc : List Formula) (f : Formula) : Lists (addNew acc f) f := by
  unfold addNew
  split
  · rename_i hseen
    exact List.any_eq_true.1 hseen
  · exact ⟨f, by simp, sameText_refl f⟩

theorem Distinct.addNew (h : Distinct acc) (f : Formula) : Distinct (addNew acc f) := by
  unfold Formula.addNew
  split
  · exact h
  · rename_i hnew
    refine List.pairwise_append.2 ⟨h, List.pairwise_singleton _ f, fun g hg x hx => ?_⟩
    rw [List.mem_singleton.1 hx, ← Bool.not_eq_true, sameText_iff]
    exact fun heq => hnew (List.any_eq_true.2 ⟨g, hg, sameText_iff.2 heq.symm⟩)

theorem mem_of_mem_foldl (h : g ∈ l.foldl addNew acc) : g ∈ acc ∨ g ∈ l := by
  induction l generalizing acc with
  | nil => exact .inl h
  | cons f l ih =>
    rcases ih h with hg | hg
    · refine (mem_addNew hg).imp_right ?_
      rintro rfl
      exact List.mem_cons_self
    · exact .inr (List.mem_cons_of_mem f hg)

theorem subset_foldl (acc l : List Formula) : acc ⊆ l.foldl addNew acc := by
  induction l generalizing acc with
  | nil => exact List.Subset.refl acc
  | cons f l ih => exact List.Subset.trans (subset_addNew acc f) (ih _)

theorem lists_foldl (h : f ∈ l) (acc : List Formula) : Lists (l.foldl addNew acc) f := by
  induction l generalizing acc with
  | nil => cases h
  | cons x l ih =>
    rcases List.mem_cons.1 h with rfl | h
    · obtain ⟨g, hg, hsame⟩ := lists_addNew acc f
      exact ⟨g, subset_foldl _ l hg, hsame⟩
    · exact ih h _

theorem distinct_foldl (h : Distinct acc) (l : List Formula) : Distinct (l.foldl addNew acc) := by
  induction l generalizing acc with
  | nil => exact h
  | cons f l ih => exact ih (h.addNew f)

/-! ## The closure -/

theorem exists_closure_eq_cons (f : Formula) : ∃ rest, f.closure = f :: rest := by
  rw [closure_eq_eraseDupsBy, walk_eq, List.eraseDupsBy_cons]
  exact ⟨_, rfl⟩

theorem distinct_closure (f : Formula) : Distinct f.closure := by
  rw [closure_eq_foldl]
  exact distinct_foldl .nil f.walk

theorem mem_walk_of_mem_closure (h : g ∈ f.closure) : g ∈ f.walk := by
  rw [closure_eq_foldl] at h
  exact (mem_of_mem_foldl h).resolve_left List.not_mem_nil

theorem closure_lists (h : g ∈ f.walk) : Lists f.closure g := by
  rw [closure_eq_foldl]
  exact lists_foldl h []

theorem closure_closed {e : Formula} (he : e ∈ f.closure) (hg : g ∈ e.closure) :
    Lists f.closure g := by
  have hfe := mem_walk_iff.1 (mem_walk_of_mem_closure he)
  have heg := mem_walk_iff.1 (mem_walk_of_mem_closure hg)
  exact closure_lists (mem_walk_iff.2 (hfe.trans heg))

/-! ## Untils -/

def isUntil : Formula → Bool
  | .until _ _ => true
  | _ => false

theorem untils_eq_filter (f : Formula) : f.untils = f.walk.filter isUntil := by
  induction f with
  | atom _ | tt | ff | globally _ _ | eventually _ _ => rfl
  | not f ih | next f ih => exact ih
  | and l r ihl ihr | or l r ihl ihr | «until» l r ihl ihr | release l r ihl ihr =>
    rw [untils, ihl, ihr, ← List.filter_append]
    rfl

section

variable {α : Type}

theorem length_filter_lt (p : α → Bool) (a : α) (l : List α) :
    (l.filter p).length < (a :: l).length :=
  Nat.lt_succ_of_le (List.length_filter_le p l)

variable [BEq α] [LawfulBEq α]

theorem eraseDupsBy_eq_eraseDups {r : α → α → Bool} (l : List α)
    (h : ∀ a ∈ l, ∀ b ∈ l, (r a b = true ↔ a = b)) : l.eraseDupsBy r = l.eraseDups := by
  match l with
  | [] => rfl
  | a :: l =>
    have hfilter : l.filter (fun b => r b a = false) = l.filter (fun b => !b == a) := by
      refine List.filter_congr fun b hb => ?_
      have hba := h b (List.mem_cons_of_mem a hb) a List.mem_cons_self
      rw [← beq_iff_eq (a := b)] at hba
      simp [Bool.eq_iff_iff.2 hba]
    have hmem {b : α} (hb : b ∈ l.filter fun b => !b == a) : b ∈ a :: l :=
      List.mem_cons_of_mem a (List.mem_of_mem_filter hb)
    rw [List.eraseDupsBy_cons, List.eraseDups_cons, hfilter,
      eraseDupsBy_eq_eraseDups _ fun b hb c hc => h b (hmem hb) c (hmem hc)]
termination_by l.length
decreasing_by exact length_filter_lt _ a l

theorem filter_eraseDups (p : α → Bool) (l : List α) :
    l.eraseDups.filter p = (l.filter p).eraseDups := by
  match l with
  | [] => rfl
  | a :: l =>
    rw [List.eraseDups_cons]
    by_cases ha : p a = true
    · rw [List.filter_cons_of_pos ha, List.filter_cons_of_pos ha, List.eraseDups_cons,
        filter_eraseDups, List.filter_filter, List.filter_filter]
      simp only [Bool.and_comm]
    · rw [List.filter_cons_of_neg ha, List.filter_cons_of_neg ha, filter_eraseDups,
        List.filter_filter]
      refine congrArg _ (List.filter_congr fun b _ => ?_)
      by_cases hb : b = a <;> simp [hb, ha]
termination_by l.length
decreasing_by all_goals exact length_filter_lt _ a l

end

/-- On plain names only equal formulas are left out. -/
theorem Plain.closure_eq_eraseDups (hf : f.Plain) : f.closure = f.walk.eraseDups := by
  rw [closure_eq_eraseDupsBy]
  refine eraseDupsBy_eq_eraseDups _ fun g hg h hh => ?_
  rw [sameText_iff]
  exact ⟨eq_of_print_eq (hf.of_mem_walk hg) (hf.of_mem_walk hh), congrArg print⟩

theorem Plain.filter_closure (hf : f.Plain) :
    f.closure.filter isUntil = f.untils.eraseDups := by
  rw [hf.closure_eq_eraseDups, filter_eraseDups, ← untils_eq_filter]

/-! ## Subformulas -/

/-- The formulas that are reached through any operators. -/
abbrev Subformula (g f : Formula) : Prop :=
  Relation.ReflTransGen (fun f g => g ∈ f.children) f g

theorem operands_of_isNnf (h : f.isNnf = true) :
    f.operands = f.children ∧ ∀ x ∈ f.children, x.isNnf = true := by
  cases f with
  | atom _ | tt | ff => exact ⟨rfl, nofun⟩
  | not f =>
    obtain ⟨id, rfl⟩ := exists_atom_of_isAtomic h
    exact ⟨rfl, List.forall_mem_singleton.2 rfl⟩
  | next f => exact ⟨rfl, List.forall_mem_singleton.2 h⟩
  | and l r | or l r | «until» l r | release l r =>
    rw [isNnf, Bool.and_eq_true] at h
    exact ⟨rfl, List.forall_mem_cons.2 ⟨h.1, List.forall_mem_singleton.2 h.2⟩⟩
  | globally _ | eventually _ => cases h

theorem mem_walk_of_isNnf (h : f.isNnf = true) (hg : Subformula g f) : g ∈ f.walk := by
  induction hg using Relation.ReflTransGen.head_induction_on with
  | refl => exact mem_walk_self g
  | head hx _ ih =>
    obtain ⟨hoperands, hchildren⟩ := operands_of_isNnf h
    rw [walk_eq, hoperands]
    exact List.mem_cons_of_mem _ (List.mem_flatMap.2 ⟨_, hx, ih (hchildren _ hx)⟩)

/-- **The closure and the untils are exact.** Both list one walk through the formula: the closure
each printed form of it where it first occurs, `untils` each `U` node. They agree where atoms have
plain names, and the walk meets every subformula of a normal form. -/
theorem closure_exact (f : Formula) :
    f.walk = f :: f.operands.flatMap walk ∧
    f.closure = f.walk.eraseDupsBy sameText ∧
    (∃ rest, f.closure = f :: rest) ∧
    (f.closure.Pairwise fun g h => g.sameText h = false) ∧
    (∀ e ∈ f.closure, ∀ g ∈ e.closure, ∃ h ∈ f.closure, g.sameText h = true) ∧
    f.untils = f.walk.filter isUntil ∧
    (f.Plain → f.closure.filter isUntil = f.untils.eraseDups) ∧
    (f.isNnf = true → ∀ g, Subformula g f → g ∈ f.walk) :=
  ⟨walk_eq f, closure_eq_eraseDupsBy f, exists_closure_eq_cons f, distinct_closure f,
    fun _ he _ hg => closure_closed he hg, untils_eq_filter f, fun hf => hf.filter_closure,
    fun hf _ hg => mem_walk_of_isNnf hf hg⟩

def twice : Formula :=
  .and (.until (.atom "p") (.atom "q"))
    (.release (.until (.atom "p") (.atom "q")) (.not (.atom "q")))

theorem closure_exact_twice :
    twice.Plain ∧ twice.isNnf = true ∧
    twice.closure.filter isUntil = [.until (.atom "p") (.atom "q")] ∧
    twice.untils = [.until (.atom "p") (.atom "q"), .until (.atom "p") (.atom "q")] ∧
    Subformula (.atom "q") twice ∧ .atom "q" ∈ twice.walk ∧
    .not (.atom "q") ∈ twice.closure ∧ Lists twice.closure (.atom "q") := by
  obtain ⟨-, -, -, -, hclosed, -, huntils, hcovers⟩ := closure_exact twice
  have hplain : twice.Plain := by decide +kernel
  have hnnf : twice.isNnf = true := rfl
  have hsub : Subformula (.atom "q") twice :=
    .head (b := .until (.atom "p") (.atom "q")) (by decide) (.single (by decide))
  have hentry : .not (.atom "q") ∈ twice.closure := by decide +kernel
  refine ⟨hplain, hnnf, ?_, rfl, hsub, hcovers hnnf _ hsub, hentry,
    hclosed _ hentry _ (by decide +kernel)⟩
  rw [huntils hplain]
  rfl

/-- An atom that prints like an until takes its place in the closure, not among the untils. -/
example :
    (Formula.and (.atom "(p) U (q)") (.until (.atom "p") (.atom "q"))).closure.filter isUntil =
      [] := by
  decide +kernel

end RabinReward.Formula
