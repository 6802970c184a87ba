/-!
# Nested parentheses

In a nested text every parenthesis that is opened is closed, and no other. Nested texts stay nested
side by side (`Nested.append`), and a nested text ends in front of the first parenthesis that closes
nothing in it (`Nested.append_closing_inj`).
-/

namespace RabinReward.Text

/-- Every parenthesis that is opened is closed, and no other. -/
inductive Nested : List Char → Prop where
  | nil : Nested []
  | char {c : Char} {u : List Char} : c ≠ '(' → c ≠ ')' → Nested u → Nested (c :: u)
  | group {u v : List Char} : Nested u → Nested v → Nested ('(' :: (u ++ ')' :: v))

variable {u v r s : List Char}

theorem Nested.of_flat (hopen : '(' ∉ u) (hclose : ')' ∉ u) : Nested u := by
  induction u with
  | nil => exact .nil
  | cons c u ih =>
    rw [List.mem_cons, not_or] at hopen hclose
    exact .char (Ne.symm hopen.1) (Ne.symm hclose.1) (ih hopen.2 hclose.2)

theorem Nested.append (hu : Nested u) (hv : Nested v) : Nested (u ++ v) := by
  induction hu with
  | nil => exact hv
  | char hopen hclose _ ih => exact .char hopen hclose ih
  | group hu _ _ ih =>
    rw [List.cons_append, List.append_assoc, List.cons_append]
    exact .group hu ih

/-- A nested text ends in front of the first parenthesis that closes nothing in it. -/
theorem Nested.append_closing_inj (hu : Nested u) (hv : Nested v)
    (h : u ++ ')' :: r = v ++ ')' :: s) : u = v ∧ r = s := by
  induction hu generalizing v r s with
  | nil =>
    cases hv with
    | nil => exact ⟨rfl, (List.cons.inj h).2⟩
    | char _ hclose _ => exact absurd (List.cons.inj h).1.symm hclose
    | group _ _ => exact absurd (List.cons.inj h).1 (by decide)
  | char hopen hclose _ ih =>
    cases hv with
    | nil => exact absurd (List.cons.inj h).1 hclose
    | char _ _ hv =>
      obtain ⟨rfl, htail⟩ := List.cons.inj h
      obtain ⟨rfl, hrest⟩ := ih hv htail
      exact ⟨rfl, hrest⟩
    | group _ _ => exact absurd (List.cons.inj h).1 hopen
  | group _ _ ihu ihv =>
    cases hv with
    | nil => exact absurd (List.cons.inj h).1 (by decide)
    | char hopen _ _ => exact absurd (List.cons.inj h).1.symm hopen
    | group hv hw =>
      simp only [List.cons_append, List.append_assoc, List.cons.injEq, true_and] at h
      obtain ⟨rfl, htail⟩ := ihu hv h
      obtain ⟨rfl, hrest⟩ := ihv hw htail
      exact ⟨rfl, hrest⟩

end RabinReward.Text
