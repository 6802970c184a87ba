/-!
# Finite sets as increasing lists

A `SortedSet` keeps its members in increasing order without repetition, so equal sets are equal
values and a set prints in one way. `insert` is one pass; `mem_insert` and `mem_ofList` say what it
holds.
-/

namespace RabinReward

/-- A finite set, listed in increasing order. -/
structure SortedSet (α : Type) [LT α] where
  toList : List α
  increasing : toList.Pairwise (· < ·)
  deriving DecidableEq

/-- Puts a value in its place of an increasing list, unless it is there. -/
def insertSorted {α : Type} [LT α] [DecidableLT α] (a : α) : List α → List α
  | [] => [a]
  | b :: l => if a < b then a :: b :: l else if b < a then b :: insertSorted a l else b :: l

section

variable {α : Type} [LE α] [LT α] [DecidableLT α] [Std.IsLinearOrder α] [Std.LawfulOrderLT α]

theorem mem_insertSorted {a x : α} {l : List α} : x ∈ insertSorted a l ↔ x = a ∨ x ∈ l := by
  induction l with
  | nil => simp [insertSorted]
  | cons b l ih =>
    unfold insertSorted
    split
    · simp
    · split
      · simp only [List.mem_cons, ih]
        constructor
        · rintro (h | h | h) <;> simp [h]
        · rintro (h | h | h) <;> simp [h]
      · rename_i h₁ h₂
        have : a = b := Std.le_antisymm (Std.not_lt.1 h₂) (Std.not_lt.1 h₁)
        simp [this]

theorem insertSorted_increasing {a : α} {l : List α} (h : l.Pairwise (· < ·)) :
    (insertSorted a l).Pairwise (· < ·) := by
  induction l with
  | nil => simp [insertSorted]
  | cons b l ih =>
    rw [List.pairwise_cons] at h
    unfold insertSorted
    split
    · rename_i hab
      refine List.pairwise_cons.2 ⟨fun x hx => ?_, List.pairwise_cons.2 h⟩
      rcases List.mem_cons.1 hx with rfl | hx
      · exact hab
      · exact Std.lt_trans hab (h.1 x hx)
    · split
      · rename_i hba
        refine List.pairwise_cons.2 ⟨fun x hx => ?_, ih h.2⟩
        rcases mem_insertSorted.1 hx with rfl | hx
        · exact hba
        · exact h.1 x hx
      · exact List.pairwise_cons.2 h

end

namespace SortedSet

variable {α : Type} [LT α]

instance : Membership α (SortedSet α) := ⟨fun s a => a ∈ s.toList⟩

def empty : SortedSet α := ⟨[], .nil⟩

instance : Inhabited (SortedSet α) := ⟨empty⟩

theorem mem_def {s : SortedSet α} {a : α} : a ∈ s ↔ a ∈ s.toList := Iff.rfl

/-- Whether two sets have a member in common. -/
def meets [DecidableEq α] (s t : SortedSet α) : Bool := s.toList.any (t.toList.contains ·)

theorem meets_iff [DecidableEq α] {s t : SortedSet α} :
    s.meets t = true ↔ ∃ a, a ∈ s ∧ a ∈ t := by
  simp [meets, mem_def]

variable [LE α] [DecidableLT α] [Std.IsLinearOrder α] [Std.LawfulOrderLT α]

def insert (a : α) (s : SortedSet α) : SortedSet α :=
  ⟨insertSorted a s.toList, insertSorted_increasing s.increasing⟩

def ofList (l : List α) : SortedSet α := l.foldr insert empty

theorem mem_insert {a x : α} {s : SortedSet α} : x ∈ s.insert a ↔ x = a ∨ x ∈ s :=
  mem_insertSorted

theorem mem_ofList {x : α} {l : List α} : x ∈ ofList l ↔ x ∈ l := by
  induction l with
  | nil => simp [ofList, empty, mem_def]
  | cons a l ih =>
    have h : ofList (a :: l) = (ofList l).insert a := rfl
    simp [h, mem_insert, ih]

omit [DecidableLT α] [Std.IsLinearOrder α] in
theorem nodup_toList (s : SortedSet α) : s.toList.Nodup := by
  refine s.increasing.imp ?_
  rintro a b hab rfl
  exact Std.lt_irrefl hab

omit [DecidableLT α] in
/-- Sets with the same members are equal. -/
theorem ext_mem {s t : SortedSet α} (h : ∀ x, x ∈ s ↔ x ∈ t) : s = t := by
  have hperm := (List.perm_ext_iff_of_nodup s.nodup_toList t.nodup_toList).2 h
  have heq := hperm.eq_of_pairwise
    (fun _ _ _ _ hab hba => (Std.lt_irrefl (Std.lt_trans hab hba)).elim) s.increasing t.increasing
  cases s
  cases t
  cases heq
  rfl

end SortedSet

end RabinReward
