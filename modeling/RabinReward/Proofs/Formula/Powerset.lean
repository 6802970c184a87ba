import RabinReward.Formula.Closure
import Mathlib.Algebra.GroupWithZero.Nat
import Mathlib.Data.List.Lex
import Mathlib.Data.List.Sort

/-!
# The powerset in order

A search that has chosen some members goes on with those that stand behind them. Each fact is proved
of all that the search lists from a choice on (`extensions`), by induction on what is left to choose
from, and read off at the empty choice. Lists that correspond member by member have subsets that
correspond, so the subsets of a list are what the subsets of its indices select
(`forall₂_subsets`); these are exactly the increasing lists of indices, in lexicographic order.
-/

namespace RabinReward

variable {α β : Type} {R : α → β → Prop} {chosen s l : List α}

/-! ## What a search lists -/

theorem mem_extensions :
    s ∈ extensions chosen l ↔ ∃ t, t ≠ [] ∧ t.Sublist l ∧ s = chosen ++ t := by
  induction l generalizing chosen with
  | nil =>
    simp only [extensions, List.not_mem_nil, List.sublist_nil, false_iff]
    rintro ⟨t, hne, rfl, -⟩
    exact hne rfl
  | cons a l ih =>
    simp only [extensions, List.cons_append, List.mem_cons, List.mem_append, ih]
    constructor
    · rintro (rfl | ⟨t, -, ht, rfl⟩ | ⟨t, hne, ht, rfl⟩)
      · exact ⟨[a], List.cons_ne_nil a [], (List.nil_sublist l).cons_cons a, rfl⟩
      · exact ⟨a :: t, List.cons_ne_nil a t, ht.cons_cons a, List.append_assoc ..⟩
      · exact ⟨t, hne, ht.cons a, rfl⟩
    · rintro ⟨t, hne, ht, rfl⟩
      cases ht with
      | cons _ ht => exact .inr (.inr ⟨t, hne, ht, rfl⟩)
      | @cons_cons t _ _ ht =>
        cases t with
        | nil => exact .inl rfl
        | cons b t =>
          exact .inr (.inl ⟨b :: t, List.cons_ne_nil b t, ht, List.append_cons chosen a _⟩)

theorem length_extensions (chosen l : List α) :
    (extensions chosen l).length + 1 = 2 ^ l.length := by
  induction l generalizing chosen with
  | nil => rfl
  | cons a l ih =>
    have htaken := ih (chosen ++ [a])
    have hleft := ih chosen
    rw [extensions, List.cons_append, List.length_cons, List.length_append, List.length_cons,
      Nat.pow_succ]
    omega

theorem forall₂_extensions {chosen' l' : List β} (hchosen : List.Forall₂ R chosen chosen')
    (h : List.Forall₂ R l l') :
    List.Forall₂ (List.Forall₂ R) (extensions chosen l) (extensions chosen' l') := by
  induction h generalizing chosen chosen' with
  | nil => exact .nil
  | cons ha _ ih =>
    have htaken := List.rel_append hchosen (.cons ha .nil)
    exact List.rel_append (.cons htaken (ih htaken)) (ih hchosen)

theorem lex_of_mem_extensions {r : α → α → Prop} (h : s ∈ extensions chosen l) :
    List.Lex r chosen s := by
  obtain ⟨t, hne, -, rfl⟩ := mem_extensions.1 h
  obtain ⟨b, t, rfl⟩ := List.exists_cons_of_ne_nil hne
  have hnil : List.Lex r [] (b :: t) := .nil
  have happend := hnil.append_left r chosen
  rwa [List.append_nil] at happend

/-- A choice stands before its extensions, and what takes a member before what passes it over. -/
theorem pairwise_extensions {r : α → α → Prop} (h : l.Pairwise r) (chosen : List α) :
    (chosen :: extensions chosen l).Pairwise (List.Lex r) := by
  induction l generalizing chosen with
  | nil => exact List.pairwise_singleton _ _
  | cons a l ih =>
    obtain ⟨hfirst, hrest⟩ := List.pairwise_cons.1 h
    refine List.pairwise_cons.2 ⟨fun x hx => lex_of_mem_extensions hx, ?_⟩
    refine List.pairwise_append.2 ⟨ih hrest (chosen ++ [a]), (ih hrest chosen).of_cons, ?_⟩
    intro x hx y hy
    obtain ⟨u, rfl⟩ : ∃ u, x = chosen ++ a :: u := by
      rcases List.mem_cons.1 hx with rfl | hx
      · exact ⟨[], rfl⟩
      · obtain ⟨u, -, -, rfl⟩ := mem_extensions.1 hx
        exact ⟨u, (List.append_cons chosen a u).symm⟩
    obtain ⟨v, hne, hv, rfl⟩ := mem_extensions.1 hy
    obtain ⟨b, v, rfl⟩ := List.exists_cons_of_ne_nil hne
    have hab : r a b := hfirst b (hv.subset List.mem_cons_self)
    exact List.Lex.append_left r (.rel hab) chosen

/-! ## All subsets -/

theorem mem_subsets : s ∈ subsets l ↔ s.Sublist l := by
  rw [subsets, List.mem_cons, mem_extensions]
  constructor
  · rintro (rfl | ⟨t, -, ht, rfl⟩)
    · exact List.nil_sublist l
    · exact ht
  · intro h
    by_cases hs : s = []
    · exact .inl hs
    · exact .inr ⟨s, hs, h, rfl⟩

theorem length_subsets (l : List α) : (subsets l).length = 2 ^ l.length :=
  length_extensions [] l

theorem forall₂_subsets {l' : List β} (h : List.Forall₂ R l l') :
    List.Forall₂ (List.Forall₂ R) (subsets l) (subsets l') :=
  .cons .nil (forall₂_extensions .nil h)

theorem sublist_range_iff {x : List Nat} {n : Nat} :
    x.Sublist (List.range n) ↔ x.Pairwise (· < ·) ∧ ∀ i ∈ x, i < n := by
  constructor
  · exact fun h => ⟨List.pairwise_lt_range.sublist h, fun i hi => List.mem_range.1 (h.subset hi)⟩
  · rintro ⟨hx, hlt⟩
    have hsub : x.Subperm (List.range n) :=
      List.subperm_of_subset (hx.imp Nat.ne_of_lt) fun i hi => List.mem_range.2 (hlt i hi)
    exact List.sublist_of_subperm_of_pairwise hsub hx List.pairwise_lt_range

theorem forall₂_range (l : List α) :
    List.Forall₂ (fun i a => l[i]? = some a) (List.range l.length) l := by
  rw [List.forall₂_iff_get]
  refine ⟨List.length_range, fun i hi hi' => ?_⟩
  simp

/-- **The powerset is listed in order, without loss or repetition.** The lists of indices that
increase and stay below the length of the list, each of them once and in lexicographic order, a list
before its extensions, select the subsets one after the other. There are `2 ^ n` of them, and they
are the sublists. -/
theorem subsets_enumerated (l : List α) :
    ∃ choices : List (List Nat),
      (∀ x, x ∈ choices ↔ x.Pairwise (· < ·) ∧ ∀ i ∈ x, i < l.length) ∧ choices.Nodup ∧
      choices.Pairwise (List.Lex (· < ·)) ∧
      List.Forall₂ (List.Forall₂ fun i a => l[i]? = some a) choices (subsets l) ∧
      (subsets l).length = 2 ^ l.length ∧ ∀ s, s ∈ subsets l ↔ s.Sublist l := by
  have hlex : (subsets (List.range l.length)).Pairwise (List.Lex (· < ·)) :=
    pairwise_extensions List.pairwise_lt_range []
  refine ⟨subsets (List.range l.length), fun x => mem_subsets.trans sublist_range_iff, ?_, hlex,
    forall₂_subsets (forall₂_range l), length_subsets l, fun s => mem_subsets⟩
  refine hlex.imp fun hxy heq => ?_
  exact List.Lex.to_ne (hxy.imp fun _ _ => Nat.ne_of_lt) heq

example : subsets ["a", "b", "c"] =
    [[], ["a"], ["a", "b"], ["a", "b", "c"], ["a", "c"], ["b"], ["b", "c"], ["c"]] := rfl

end RabinReward
