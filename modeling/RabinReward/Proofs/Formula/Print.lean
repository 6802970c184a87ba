import RabinReward.Formula.Closure
import RabinReward.Formula.NormalForm
import RabinReward.Proofs.Behavior.Visits
import RabinReward.Proofs.Text.Nesting

/-!
# Printed formulas

Formulas are compared by their printed forms. Where no atom has a parenthesis in its name or the
name of a constant, the printed form determines the formula (`eq_of_print_eq`). Operands stand in
parentheses, and a parenthesis is closed where as many have been closed as opened (`Nested`), so the
first operand ends at the same place in equal texts. What remains is a sign, or the name of a leaf.
-/

namespace RabinReward

namespace Formula

open Text

variable {f g : Formula}

/-! ## Plain names -/

/-- A name that neither a group nor a constant could be taken for. -/
structure PlainName (id : String) : Prop where
  not_opening : '(' ∉ id.toList
  not_closing : ')' ∉ id.toList
  ne_tt : id ≠ "T"
  ne_ff : id ≠ "F"

instance (id : String) : Decidable (PlainName id) :=
  decidable_of_iff ('(' ∉ id.toList ∧ ')' ∉ id.toList ∧ id ≠ "T" ∧ id ≠ "F")
    ⟨fun ⟨hopen, hclose, htt, hff⟩ => ⟨hopen, hclose, htt, hff⟩,
      fun h => ⟨h.not_opening, h.not_closing, h.ne_tt, h.ne_ff⟩⟩

def Plain (f : Formula) : Prop := ∀ id ∈ f.occurrences, PlainName id

instance (f : Formula) : Decidable f.Plain :=
  inferInstanceAs (Decidable (∀ id ∈ f.occurrences, PlainName id))

theorem mem_occurrences_of_child {x : Formula} (hx : x ∈ f.children) {id : String}
    (hid : id ∈ x.occurrences) : id ∈ f.occurrences := by
  cases f with
  | atom _ | tt | ff => cases hx
  | not f | next f | globally f | eventually f =>
    rw [List.mem_singleton.1 hx] at hid
    exact hid
  | and l r | or l r | «until» l r | release l r =>
    rcases List.mem_pair.1 hx with rfl | rfl
    · exact List.mem_append_left _ hid
    · exact List.mem_append_right _ hid

theorem Plain.of_child (hf : f.Plain) {x : Formula} (hx : x ∈ f.children) : x.Plain :=
  fun id hid => hf id (mem_occurrences_of_child hx hid)

theorem Plain.nnf (hf : f.Plain) : f.nnf.Plain := by
  rw [Plain, Formula.nnf, occurrences_polar]
  exact hf

theorem plainName_propositionName (k : Nat) : PlainName (Behavior.propositionName k) := by
  have hdigits : ∀ c ∈ (Nat.repr k).toList, isDigit c = true := (isNumeral_repr k).digits
  have hnot : ∀ c, isDigit c = false → c ≠ 'p' →
      c ∉ (Behavior.propositionName k).toList := by
    intro c hc hp hmem
    rw [Behavior.toList_propositionName, List.mem_cons] at hmem
    rcases hmem with rfl | hmem
    · exact hp rfl
    · rw [hdigits c hmem] at hc
      cases hc
  refine ⟨hnot '(' (by decide) (by decide), hnot ')' (by decide) (by decide), fun h => ?_,
    fun h => ?_⟩
  · exact hnot 'T' (by decide) (by decide) (h ▸ by decide)
  · exact hnot 'F' (by decide) (by decide) (h ▸ by decide)

theorem plain_of_compile {b : Behavior} {c : CompiledFormula} (h : b.compile = .ok c) :
    c.formula.Plain := by
  obtain ⟨i, -, hunfolds⟩ := Behavior.compile_eq_ok_iff.1 h
  intro id hid
  rw [hunfolds.occurrences_eq] at hid
  obtain ⟨k, -, rfl⟩ := List.mem_map.1 hid
  exact plainName_propositionName k

/-! ## Layout -/

def symbol : Formula → List Char
  | .atom id => id.toList
  | .tt => ['T']
  | .ff | .eventually _ => ['F']
  | .not _ => ['!']
  | .and _ _ => ['&']
  | .or _ _ => ['|']
  | .next _ => ['X']
  | .until _ _ => ['U']
  | .release _ _ => ['R']
  | .globally _ => ['G']

/-- A leaf prints as its name. An operator prints as its sign in front of its operand or between its
operands, which stand in parentheses. -/
inductive Layout (f : Formula) : Prop where
  | leaf : f.children = [] → f.print.toList = f.symbol → Layout f
  | unary {x : Formula} {c : Char} : f.children = [x] → f.symbol = [c] → c ≠ '(' → c ≠ ')' →
      f.print.toList = c :: '(' :: (x.print.toList ++ [')']) → Layout f
  | binary {l r : Formula} {c : Char} : f.children = [l, r] → f.symbol = [c] → c ≠ '(' →
      c ≠ ')' → f.print.toList =
        '(' :: (l.print.toList ++ ')' :: ' ' :: c :: ' ' :: '(' :: (r.print.toList ++ [')'])) →
      Layout f

theorem layout (f : Formula) : Layout f := by
  cases f with
  | atom _ | tt | ff => exact .leaf rfl rfl
  | not _ | next _ | globally _ | eventually _ =>
    exact .unary rfl rfl (by decide) (by decide) (by simp [print])
  | and _ _ | or _ _ | «until» _ _ | release _ _ =>
    exact .binary rfl rfl (by decide) (by decide) (by simp [print])

def ofParts (symbol : List Char) : List Formula → Formula
  | [] =>
    if symbol = ['T'] then .tt else if symbol = ['F'] then .ff else .atom (String.ofList symbol)
  | [x] =>
    match symbol with
    | ['!'] => .not x
    | ['X'] => .next x
    | ['G'] => .globally x
    | _ => .eventually x
  | l :: r :: _ =>
    match symbol with
    | ['&'] => .and l r
    | ['|'] => .or l r
    | ['U'] => .until l r
    | _ => .release l r

theorem Plain.ofParts_eq (hf : f.Plain) : ofParts f.symbol f.children = f := by
  cases f with
  | atom id =>
    have hid := hf id (List.mem_singleton_self id)
    have htt : id.toList ≠ ['T'] := fun h => hid.ne_tt (String.toList_inj.1 h)
    have hff : id.toList ≠ ['F'] := fun h => hid.ne_ff (String.toList_inj.1 h)
    simp only [symbol, children, ofParts, if_neg htt, if_neg hff, String.ofList_toList]
  | tt | ff | not _ | next _ | globally _ | eventually _ | and _ _ | or _ _ | «until» _ _
  | release _ _ => rfl

theorem Plain.flat (hf : f.Plain) (hleaf : f.children = []) : '(' ∉ f.symbol ∧ ')' ∉ f.symbol := by
  cases f with
  | atom id =>
    have hid := hf id (List.mem_singleton_self id)
    exact ⟨hid.not_opening, hid.not_closing⟩
  | tt | ff => exact ⟨by decide, by decide⟩
  | not _ | next _ | globally _ | eventually _ | and _ _ | or _ _ | «until» _ _ | release _ _ =>
    cases hleaf

/-- What holds of a formula as soon as it holds of its operands holds of every formula. -/
theorem children_induction {P : Formula → Prop} (h : ∀ f, (∀ x ∈ f.children, P x) → P f)
    (f : Formula) : P f := by
  induction f with
  | atom _ | tt | ff => exact h _ nofun
  | not f ih | next f ih | globally f ih | eventually f ih =>
    exact h _ (List.forall_mem_singleton.2 ih)
  | and l r ihl ihr | or l r ihl ihr | «until» l r ihl ihr | release l r ihl ihr =>
    exact h _ (List.forall_mem_cons.2 ⟨ihl, List.forall_mem_singleton.2 ihr⟩)

theorem Plain.nested_print (hf : f.Plain) : Nested f.print.toList := by
  induction f using children_induction with
  | h f ih =>
    cases f.layout with
    | leaf hchildren hprint =>
      rw [hprint]
      exact .of_flat (hf.flat hchildren).1 (hf.flat hchildren).2
    | @unary x c hchildren _ hopen hclose hprint =>
      have hx : x ∈ f.children := by simp [hchildren]
      rw [hprint]
      exact .char hopen hclose (.group (ih x hx (hf.of_child hx)) .nil)
    | @binary l r c hchildren _ hopen hclose hprint =>
      have hl : l ∈ f.children := by simp [hchildren]
      have hr : r ∈ f.children := by simp [hchildren]
      have hright := Nested.group (ih r hr (hf.of_child hr)) .nil
      rw [hprint]
      refine .group (ih l hl (hf.of_child hl)) (.char (by decide) (by decide) ?_)
      exact .char hopen hclose (.char (by decide) (by decide) hright)

/-- A plain formula prints an opening parenthesis exactly if it has operands. -/
theorem Plain.opening_mem_iff (hf : f.Plain) : '(' ∈ f.print.toList ↔ f.children ≠ [] := by
  cases f.layout with
  | leaf hchildren hprint =>
    rw [hprint]
    exact iff_of_false (hf.flat hchildren).1 (not_not_intro hchildren)
  | unary hchildren _ _ _ hprint | binary hchildren _ _ _ hprint =>
    rw [hprint, hchildren]
    simp

theorem eq_of_print_eq (hf : f.Plain) (hg : g.Plain) (h : f.print = g.print) : f = g := by
  induction f using children_induction generalizing g with
  | h f ih =>
    have htext : f.print.toList = g.print.toList := congrArg String.toList h
    have hinner : ∀ x ∈ f.children, ∀ y ∈ g.children, x.print.toList = y.print.toList → x = y :=
      fun x hx y hy hxy =>
        ih x hx (hf.of_child hx) (hg.of_child hy) (String.toList_inj.1 hxy)
    have hleaf : f.children = [] ↔ g.children = [] := by
      rw [← not_iff_not, ← ne_eq, ← ne_eq, ← hf.opening_mem_iff, htext, hg.opening_mem_iff]
    suffices hparts : f.symbol = g.symbol ∧ f.children = g.children by
      rw [← hf.ofParts_eq, ← hg.ofParts_eq, hparts.1, hparts.2]
    cases f.layout with
    | leaf hchildren hprint =>
      have hchildren' := hleaf.1 hchildren
      cases g.layout with
      | leaf _ hprint' => exact ⟨by rw [← hprint, htext, hprint'], hchildren.trans hchildren'.symm⟩
      | unary hoperands _ _ _ _ | binary hoperands _ _ _ _ => simp [hchildren'] at hoperands
    | @unary x c hchildren hsymbol hopen _ hprint =>
      rw [hprint] at htext
      cases g.layout with
      | leaf hchildren' _ => simp [hleaf.2 hchildren'] at hchildren
      | @unary y d hchildren' hsymbol' _ _ hprint' =>
        rw [hprint', List.cons.injEq, List.cons.injEq, List.append_cancel_right_eq] at htext
        obtain ⟨rfl, -, hoperand⟩ := htext
        rw [hsymbol, hsymbol', hchildren, hchildren']
        rw [hinner x (by simp [hchildren]) y (by simp [hchildren']) hoperand]
        exact ⟨rfl, rfl⟩
      | binary _ _ _ _ hprint' =>
        rw [hprint'] at htext
        exact absurd (List.cons.inj htext).1 hopen
    | @binary l r c hchildren hsymbol _ _ hprint =>
      rw [hprint] at htext
      cases g.layout with
      | leaf hchildren' _ => simp [hleaf.2 hchildren'] at hchildren
      | unary _ _ hopen _ hprint' =>
        rw [hprint'] at htext
        exact absurd (List.cons.inj htext).1.symm hopen
      | @binary l' r' d hchildren' hsymbol' _ _ hprint' =>
        have hl : l ∈ f.children := by simp [hchildren]
        have hl' : l' ∈ g.children := by simp [hchildren']
        rw [hprint', List.cons.injEq, eq_self, true_and] at htext
        obtain ⟨hleft, htext⟩ := (hf.of_child hl).nested_print.append_closing_inj
          (hg.of_child hl').nested_print htext
        simp only [List.cons.injEq, List.append_cancel_right_eq, true_and] at htext
        obtain ⟨rfl, hright⟩ := htext
        rw [hsymbol, hsymbol', hchildren, hchildren', hinner l hl l' hl' hleft]
        rw [hinner r (by simp [hchildren]) r' (by simp [hchildren']) hright]
        exact ⟨rfl, rfl⟩

/-- **Printing is unambiguous on plain names.** Formulas whose atoms have plain names and that print
alike are the same, so there printed equality is equality, and formulas that it relates have the
same normal form, closure and untils. Every compiled formula and its normal form are of this
kind. -/
theorem print_unambiguous (hf : f.Plain) (hg : g.Plain) :
    (f.print = g.print → f = g) ∧ (f.sameText g = true ↔ f = g) ∧
    (f.sameText g = true → f.nnf = g.nnf ∧ f.closure = g.closure ∧ f.untils = g.untils) ∧
    ∀ (b : Behavior) (c : CompiledFormula), b.compile = .ok c →
      c.formula.Plain ∧ c.formula.nnf.Plain := by
  have hsame : f.sameText g = true ↔ f = g := by
    rw [sameText_iff]
    exact ⟨eq_of_print_eq hf hg, fun h => congrArg print h⟩
  refine ⟨eq_of_print_eq hf hg, hsame, fun h => ?_, fun b c hc => ?_⟩
  · obtain rfl := hsame.1 h
    exact ⟨rfl, rfl, rfl⟩
  · exact ⟨plain_of_compile hc, (plain_of_compile hc).nnf⟩

/-- A name may be empty, and it may be the sign of an operator. -/
def oddNames (id : String) : Formula := .until (.atom id) (.or (.atom "!") (.eventually .ff))

theorem print_unambiguous_oddNames :
    (oddNames "").Plain ∧ (oddNames " U ").Plain ∧
    (oddNames "").print = "() U ((!) | (F(F)))" ∧ (oddNames "").print ≠ (oddNames " U ").print ∧
    (oddNames "").sameText (oddNames " U ") = false ∧
    Behavior.compile ⟨[⟨"near", "Near", [], []⟩], some "near"⟩ =
      .ok ⟨.atom "p0", [⟨"Near", []⟩]⟩ ∧ (Formula.atom "p0").nnf.Plain := by
  have hempty : (oddNames "").Plain := by decide +kernel
  have hsign : (oddNames " U ").Plain := by decide +kernel
  have hcompile : Behavior.compile ⟨[⟨"near", "Near", [], []⟩], some "near"⟩ =
      .ok ⟨.atom "p0", [⟨"Near", []⟩]⟩ := by
    decide +kernel
  obtain ⟨hprint, hsame, -, hcompiled⟩ := print_unambiguous hempty hsign
  have hne : oddNames "" ≠ oddNames " U " := by decide
  exact ⟨hempty, hsign, by decide +kernel, mt hprint hne, Bool.eq_false_iff.2 (mt hsame.1 hne),
    hcompile, (hcompiled _ _ hcompile).2⟩

/-- A name with parentheses may print like an operator. -/
example : (Formula.atom "(p0) & (p1)").sameText (.and (.atom "p0") (.atom "p1")) = true := by
  decide +kernel

end Formula

end RabinReward
