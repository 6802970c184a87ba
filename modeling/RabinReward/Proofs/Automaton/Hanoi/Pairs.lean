import RabinReward.Proofs.Automaton.Hanoi.Line
import Mathlib.Data.List.Forall2

/-!
# The pairs of an acceptance condition

The scan for pairs passes over what it has read: a whole pair, or the `Fin(` of a broken one. Three
laws say how it goes on (`rabinPairs_of_not_begins`, `rabinPairs_of_broken`, `PairText.rabinPairs`).
It misses nothing, because a pair begins at an `F` and neither the rest of `Fin(` nor the rest of a
pair holds another one. So the scan comes to the same as a trial at every place (`rabinPairs_cons`),
and the pairs that it finds are those that begin somewhere (`pairs_located`).
-/

namespace RabinReward.Hanoi

open Text

variable {c : Char} {cs u : List Char} {i j k : Nat}

/-! ## How the scan goes on -/

/-- What a scan passes over does not matter. -/
theorem scanPairs_eq_drop (skip : Nat) (cs : List Char) :
    scanPairs skip cs = rabinPairs (cs.drop skip) := by
  induction cs generalizing skip with
  | nil => cases skip <;> rfl
  | cons c cs ih =>
    cases skip with
    | zero => rfl
    | succ skip => exact ih skip

theorem rabinPairs_of_not_begins (h : ¬"Fin(".toList <+: c :: cs) :
    rabinPairs (c :: cs) = rabinPairs cs := by
  rw [rabinPairs, scanPairs, if_neg (mt after?_isSome_iff.1 h), rabinPairs]

/-- The scan goes on behind the `Fin(` of a broken pair. -/
theorem rabinPairs_of_broken (h : "Fin(".toList <+: c :: cs) (hpair : rabinPair? (c :: cs) = none) :
    rabinPairs (c :: cs) = rabinPairs (cs.drop 3) := by
  rw [rabinPairs, scanPairs, if_pos (after?_isSome_iff.2 h), hpair]
  exact scanPairs_eq_drop 3 cs

theorem PairText.begins (h : PairText i j u) : "Fin(".toList <+: u := by
  obtain ⟨-, -, ds, sp, sp', es, rfl, -⟩ := h
  exact List.prefix_append _ _

theorem PairText.rabinPairs (h : PairText i j u) (rest : List Char) :
    rabinPairs (u ++ rest) = (i, j) :: rabinPairs rest := by
  have hpair : rabinPair? (u ++ rest) = some ((i, j), rest) :=
    rabinPair?_eq_some_iff.2 ⟨u, rfl, h⟩
  have hbegins := h.begins.trans (List.prefix_append u rest)
  cases u with
  | nil => exact absurd h.begins (by decide)
  | cons c u =>
    rw [List.cons_append] at hpair hbegins ⊢
    rw [Hanoi.rabinPairs, scanPairs, if_pos (after?_isSome_iff.2 hbegins), hpair]
    have hskip : (u ++ rest).drop ((u ++ rest).length - rest.length) = rest := by simp
    simp only [scanPairs_eq_drop, hskip]

/-! ## Where pairs begin -/

theorem Spaces.not_mem {sp : List Char} (h : Spaces sp) : 'F' ∉ sp :=
  fun hF => absurd (h 'F' hF) (by decide)

theorem not_mem_numeral {n : Nat} {ds : List Char} (h : IsNumeral n ds) : 'F' ∉ ds :=
  fun hF => absurd (h.digits 'F' hF) (by decide)

theorem PairText.not_mem_tail (h : PairText i j u) : 'F' ∉ u.tail := by
  obtain ⟨-, -, ds, sp, sp', es, rfl, hds, hsp, hsp', hes⟩ := h
  simp [hsp.not_mem, hsp'.not_mem, not_mem_numeral hds, not_mem_numeral hes]

theorem rabinPairs_cons_of_ne (hc : c ≠ 'F') (cs : List Char) :
    rabinPairs (c :: cs) = rabinPairs cs := by
  refine rabinPairs_of_not_begins ?_
  rintro ⟨v, hv⟩
  exact hc (List.cons.inj hv).1.symm

theorem rabinPairs_append (hu : 'F' ∉ u) (cs : List Char) :
    rabinPairs (u ++ cs) = rabinPairs cs := by
  induction u with
  | nil => rfl
  | cons c u ih =>
    rw [List.mem_cons, not_or] at hu
    rw [List.cons_append, rabinPairs_cons_of_ne (Ne.symm hu.1), ih hu.2]

/-- The scan finds what a trial at every place finds. -/
theorem rabinPairs_cons (c : Char) (cs : List Char) :
    rabinPairs (c :: cs) = ((rabinPair? (c :: cs)).map Prod.fst).toList ++ rabinPairs cs := by
  cases hpair : rabinPair? (c :: cs) with
  | none =>
    by_cases hbegins : "Fin(".toList <+: c :: cs
    · obtain ⟨v, hv⟩ := hbegins
      cases hv
      rw [rabinPairs_of_broken (List.prefix_append _ _) hpair]
      exact (rabinPairs_append (u := "in(".toList) (by decide) v).symm
    · exact rabinPairs_of_not_begins hbegins
  | some found =>
    obtain ⟨⟨i, j⟩, r⟩ := found
    obtain ⟨u, hu, htext⟩ := rabinPair?_eq_some_iff.1 hpair
    obtain ⟨v, rfl⟩ := htext.begins
    have htail := rabinPairs_append htext.not_mem_tail r
    rw [hu, htext.rabinPairs]
    cases hu
    exact congrArg _ htail.symm

/-! ## Places -/

/-- The pair that begins at a place, if any. -/
def pairAt? (cs : List Char) (k : Nat) : Option (Nat × Nat) :=
  (rabinPair? (cs.drop k)).map Prod.fst

def PairAt (cs : List Char) (k i j : Nat) : Prop := ∃ u r, cs.drop k = u ++ r ∧ PairText i j u

theorem pairAt?_eq_some_iff : pairAt? cs k = some (i, j) ↔ PairAt cs k i j := by
  rw [pairAt?, Option.map_eq_some_iff]
  constructor
  · rintro ⟨⟨_, r⟩, hpair, rfl⟩
    obtain ⟨u, hu, htext⟩ := rabinPair?_eq_some_iff.1 hpair
    exact ⟨u, r, hu, htext⟩
  · rintro ⟨u, r, hu, htext⟩
    exact ⟨((i, j), r), rabinPair?_eq_some_iff.2 ⟨u, hu, htext⟩, rfl⟩

theorem PairAt.lt_length (h : PairAt cs k i j) : k < cs.length := by
  obtain ⟨u, r, hu, htext⟩ := h
  by_contra hk
  rw [List.drop_eq_nil_of_le (Nat.not_lt.1 hk), eq_comm, List.append_eq_nil_iff] at hu
  exact absurd (hu.1 ▸ htext.begins) (by decide)

theorem rabinPairs_eq_filterMap (cs : List Char) :
    rabinPairs cs = (List.range cs.length).filterMap (pairAt? cs) := by
  induction cs with
  | nil => rfl
  | cons c cs ih =>
    have htail : pairAt? (c :: cs) ∘ Nat.succ = pairAt? cs := rfl
    have hhead : pairAt? (c :: cs) 0 = (rabinPair? (c :: cs)).map Prod.fst := rfl
    rw [rabinPairs_cons, ih, List.length_cons, List.range_succ_eq_map, List.filterMap_cons,
      List.filterMap_map, htail, hhead]
    cases rabinPair? (c :: cs) <;> rfl

theorem forall₂_filter_filterMap {α β : Type} (f : α → Option β) (l : List α) :
    List.Forall₂ (fun a b => f a = some b) (l.filter fun a => (f a).isSome) (l.filterMap f) := by
  induction l with
  | nil => exact .nil
  | cons a l ih =>
    cases ha : f a with
    | none =>
      rw [List.filter_cons_of_neg (by simp [ha]), List.filterMap_cons_none ha]
      exact ih
    | some b =>
      rw [List.filter_cons_of_pos (by simp [ha]), List.filterMap_cons_some ha]
      exact .cons ha ih

/-- **Every pair is found, and found once.** There is one result for each place at which the text
`Fin(i)&Inf(j)` of a pair begins, namely that pair, in the order of the places. -/
theorem pairs_located (cs : List Char) :
    ∃ places : List Nat, places.Pairwise (· < ·) ∧
      (∀ k, k ∈ places ↔ ∃ i j, PairAt cs k i j) ∧
      List.Forall₂ (fun k pair => ∀ i j, PairAt cs k i j ↔ (i, j) = pair) places
        (rabinPairs cs) := by
  refine ⟨(List.range cs.length).filter fun k => (pairAt? cs k).isSome,
    List.pairwise_lt_range.filter _, fun k => ?_, ?_⟩
  · simp only [List.mem_filter, List.mem_range, Option.isSome_iff_exists, Prod.exists,
      pairAt?_eq_some_iff]
    refine ⟨And.right, ?_⟩
    rintro ⟨i, j, h⟩
    exact ⟨h.lt_length, i, j, h⟩
  · rw [rabinPairs_eq_filterMap]
    refine (forall₂_filter_filterMap (pairAt? cs) _).imp fun k pair hpair i j => ?_
    rw [← pairAt?_eq_some_iff, hpair, Option.some.injEq, eq_comm]

/-- Neither a `Fin(` that is not closed nor a number of too many digits hides the next pair. -/
example :
    rabinPairs
      "Fin(0 Fin(Fin(1)& Inf(2) Fin(99999999999999999999)&Inf(3)Fin(4) &Inf(05)".toList =
    [(1, 2), (4, 5)] := by
  decide +kernel

end RabinReward.Hanoi
