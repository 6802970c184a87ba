import Mathlib.Data.List.Basic

/-!
# First members

A pass over a list that stops at what it looks for finds the first member that has a property.
-/

namespace RabinReward

variable {α β : Type} {p : α → Prop} {a x : α} {l : List α}

/-- The first member of the list that has the property. -/
def First (p : α → Prop) (l : List α) (x : α) : Prop :=
  ∃ before after, l = before ++ x :: after ∧ p x ∧ ∀ y ∈ before, ¬p y

theorem not_first_nil : ¬First p [] x := by
  rintro ⟨before, after, h, -⟩
  simp at h

theorem first_cons : First p (a :: l) x ↔ p a ∧ x = a ∨ ¬p a ∧ First p l x := by
  constructor
  · rintro ⟨before, after, h, hx, hbefore⟩
    cases before with
    | nil =>
      cases h
      exact .inl ⟨hx, rfl⟩
    | cons b before =>
      rw [List.cons_append, List.cons.injEq] at h
      obtain ⟨rfl, rfl⟩ := h
      obtain ⟨ha, hbefore⟩ := List.forall_mem_cons.1 hbefore
      exact .inr ⟨ha, before, after, rfl, hx, hbefore⟩
  · rintro (⟨ha, rfl⟩ | ⟨ha, before, after, rfl, hx, hbefore⟩)
    · exact ⟨[], l, rfl, ha, nofun⟩
    · exact ⟨a :: before, after, rfl, hx, List.forall_mem_cons.2 ⟨ha, hbefore⟩⟩

theorem exists_first_iff : (∃ x, First p l x) ↔ ∃ x ∈ l, p x := by
  induction l with
  | nil => simp [not_first_nil]
  | cons a l ih =>
    by_cases ha : p a
    · simp [first_cons, ha]
    · simp [first_cons, ha, ih]

theorem exists_first_cons {F : α → β → Prop} {y : β} :
    (∃ x, First (fun x => ∃ y, F x y) (a :: l) x ∧ F x y) ↔
      F a y ∨ (¬∃ y, F a y) ∧ ∃ x, First (fun x => ∃ y, F x y) l x ∧ F x y := by
  by_cases ha : ∃ y, F a y
  · simp only [first_cons, ha, not_true_eq_false, false_and, or_false, true_and, exists_eq_left]
  · have hnone : ¬F a y := fun h => ha ⟨y, h⟩
    simp only [first_cons, ha, hnone, not_false_eq_true, false_and, false_or, true_and]

theorem find?_eq_some_iff_first {f : α → Bool} :
    l.find? f = some x ↔ First (f · = true) l x := by
  rw [List.find?_eq_some_iff_append, First]
  simp only [Bool.not_eq_true', Bool.not_eq_true]
  constructor
  · rintro ⟨hx, before, after, hl, hbefore⟩
    exact ⟨before, after, hl, hx, hbefore⟩
  · rintro ⟨before, after, hl, hx, hbefore⟩
    exact ⟨hx, before, after, hl, hbefore⟩

/-- The first of all members of some lists is the first member of the first list that has one. -/
theorem first_flatMap {q : β → Prop} {f : α → List β} {y : β} :
    First q (l.flatMap f) y ↔ ∃ x, First (fun x => ∃ y ∈ f x, q y) l x ∧ First q (f x) y := by
  induction l with
  | nil => simp [not_first_nil]
  | cons a l ih =>
    have happend : First q (f a ++ l.flatMap f) y ↔
        First q (f a) y ∨ (¬∃ y ∈ f a, q y) ∧ First q (l.flatMap f) y := by
      induction f a with
      | nil => simp [not_first_nil]
      | cons b bs ihb =>
        rw [List.cons_append, first_cons, first_cons, ihb]
        by_cases hb : q b <;> simp [hb]
    rw [List.flatMap_cons, happend, ih]
    by_cases ha : ∃ y ∈ f a, q y
    · simp only [first_cons, ha, true_and, not_true_eq_false, false_and, or_false, exists_eq_left]
    · have hnone : ¬First q (f a) y := fun h => ha (exists_first_iff.1 ⟨y, h⟩)
      simp only [first_cons, ha, hnone, false_and, false_or, not_false_eq_true, true_and]

end RabinReward
