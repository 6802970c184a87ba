import RabinReward.Machine.Tick
import RabinReward.Proofs.Robustness.Order
import Mathlib.Data.List.Induction

/-!
# The transition of a tick

`FirstBest` says that a rated value is the first whose robustness is the largest of a list, `nan`
passed over. The selection loop finds it (`mostRobust_spec`) unless every robustness is
`nan`, and a step takes the transition that it finds (`exists_firstBest`).
-/

namespace RabinReward

variable {α : Type}

/-- The first value of a list whose robustness is the largest, `nan` passed over. -/
inductive FirstBest : List (α × Robustness) → α × Robustness → Prop where
  | intro {before after : List (α × Robustness)} {b : α × Robustness} : b.2 ≠ .nan →
      (∀ y ∈ before, y.2 ≠ .nan → y.2 < b.2) → (∀ y ∈ after, y.2 ≠ .nan → y.2 ≤ b.2) →
      FirstBest (before ++ b :: after) b

theorem FirstBest.ne_nan {l : List (α × Robustness)} {b : α × Robustness} (h : FirstBest l b) :
    b.2 ≠ .nan := by
  cases h
  assumption

theorem FirstBest.le {l : List (α × Robustness)} {b y : α × Robustness} (h : FirstBest l b)
    (hy : y ∈ l) (hnan : y.2 ≠ .nan) : y.2 ≤ b.2 := by
  obtain ⟨hb, hbefore, hafter⟩ := h
  rcases List.mem_append.1 hy with hy | hy
  · exact Robustness.le_of_lt (hbefore y hy hnan)
  rcases List.mem_cons.1 hy with rfl | hy
  · exact Robustness.le_refl hb
  · exact hafter y hy hnan

/-- The first best value has the least index among those of its robustness. -/
theorem FirstBest.exists_index {l : List (α × Robustness)} {b : α × Robustness}
    (h : FirstBest l b) : ∃ i : Nat, l[i]? = some b ∧
      ∀ j < i, ∀ y, l[j]? = some y → y.2 ≠ .nan → y.2 < b.2 := by
  obtain @⟨before, after, b, -, hbefore, -⟩ := h
  refine ⟨before.length, by simp, fun j hj y hy hnan => ?_⟩
  rw [List.getElem?_append_left hj] at hy
  exact hbefore y (List.mem_of_getElem? hy) hnan

theorem FirstBest.mem {l : List (α × Robustness)} {b : α × Robustness} (h : FirstBest l b) :
    b ∈ l := by
  obtain ⟨i, hi, -⟩ := h.exists_index
  exact List.mem_of_getElem? hi

theorem FirstBest.unique {l : List (α × Robustness)} {b b' : α × Robustness}
    (h : FirstBest l b) (h' : FirstBest l b') : b = b' := by
  obtain ⟨i, hi, hbefore⟩ := h.exists_index
  obtain ⟨j, hj, hbefore'⟩ := h'.exists_index
  rcases Nat.lt_trichotomy i j with hlt | rfl | hgt
  · have hworse := hbefore' i hlt b hi h.ne_nan
    exact absurd hworse ((Robustness.not_lt h.ne_nan h'.ne_nan).2 (h.le h'.mem h'.ne_nan))
  · rw [hi] at hj
    exact Option.some.inj hj
  · have hworse := hbefore j hgt b' hj h'.ne_nan
    exact absurd hworse ((Robustness.not_lt h'.ne_nan h.ne_nan).2 (h'.le h.mem h.ne_nan))

theorem FirstBest.append_le {l : List (α × Robustness)} {b x : α × Robustness}
    (h : FirstBest l b) (hx : x.2 ≠ .nan → x.2 ≤ b.2) : FirstBest (l ++ [x]) b := by
  obtain ⟨hb, hbefore, hafter⟩ := h
  rw [List.append_assoc, List.cons_append]
  refine .intro hb hbefore fun y hy hy' => ?_
  rcases List.mem_append.1 hy with hy | hy
  · exact hafter y hy hy'
  · rw [List.mem_singleton.1 hy] at hy' ⊢
    exact hx hy'

/-! ## The loop -/

theorem mostRobust_append_singleton (l : List (α × Robustness)) (x : α × Robustness) :
    mostRobust (l ++ [x]) = moreRobust (mostRobust l) x := by
  rw [mostRobust, List.foldl_append]
  rfl

theorem moreRobust_nan {x : α × Robustness} (hx : x.2 = .nan) (best : Option (α × Robustness)) :
    moreRobust best x = best := by
  simp only [moreRobust, hx, Robustness.isNan, ↓reduceIte]

theorem moreRobust_none {x : α × Robustness} (hx : x.2 ≠ .nan) : moreRobust none x = some x := by
  simp only [moreRobust, Robustness.isNan_eq_false hx, Bool.false_eq_true, ↓reduceIte]

theorem moreRobust_some {x : α × Robustness} (hx : x.2 ≠ .nan) (b : α × Robustness) :
    moreRobust (some b) x = if x.2 ≤ b.2 then some b else some x := by
  simp only [moreRobust, Robustness.isNan_eq_false hx, Bool.false_eq_true, ↓reduceIte]

/-- What the loop holds after a list: the first best value, or nothing while all are `nan`. -/
theorem mostRobust_spec (l : List (α × Robustness)) :
    (mostRobust l = none ∧ ∀ y ∈ l, y.2 = .nan) ∨ ∃ b, mostRobust l = some b ∧ FirstBest l b := by
  -- the loop runs from the left, so the list grows at its end
  induction l using List.reverseRecOn with
  | nil => exact .inl ⟨rfl, nofun⟩
  | append_singleton l x ih =>
    rw [mostRobust_append_singleton]
    by_cases hx : x.2 = .nan
    · rw [moreRobust_nan hx]
      rcases ih with ⟨hnone, hnan⟩ | ⟨b, hsome, hbest⟩
      · exact .inl ⟨hnone, List.forall_mem_append.2 ⟨hnan, List.forall_mem_singleton.2 hx⟩⟩
      · exact .inr ⟨b, hsome, hbest.append_le fun hx' => absurd hx hx'⟩
    · right
      rcases ih with ⟨hnone, hnan⟩ | ⟨b, hsome, hbest⟩
      · rw [hnone, moreRobust_none hx]
        exact ⟨x, rfl, .intro hx (fun y hy hy' => absurd (hnan y hy) hy') nofun⟩
      · rw [hsome, moreRobust_some hx]
        split
        · rename_i hle
          exact ⟨b, rfl, hbest.append_le fun _ => hle⟩
        · rename_i hle
          have hlt := (Robustness.not_le hx hbest.ne_nan).1 hle
          exact ⟨x, rfl, .intro hx
            (fun y hy hy' => Robustness.lt_of_le_of_lt (hbest.le hy hy') hlt) nofun⟩

/-! ## Ticks -/

namespace Machine

def rated (m : Machine) (values : List Robustness) (s : Snapshot) :
    List (Transition Predicate × Robustness) :=
  (m.transitions s.active).zip values

def guardValues (m : Machine) (ρ : Rounding) (r : Readings) (s : Snapshot) : List Robustness :=
  (m.transitions s.active).map fun t => t.guard.robustness ρ r

/-- The reward and the snapshot that taking a transition `t` of robustness `x` leads to. -/
def take (m : Machine) (ρ : Rounding) (values : List Robustness) (s : Snapshot)
    (t : Transition Predicate) (x : Robustness) : Robustness × Snapshot :=
  let o := m.outcome ρ s t x (m.nearMiss s.active (m.rated values s))
  (o.2, s.advance t.destination o.1 o.2)

theorem tick_eq_step (m : Machine) (ρ : Rounding) (r : Readings) (s : Snapshot) :
    m.tick ρ r s = m.step ρ (m.guardValues ρ r s) s := rfl

/-- One step of a machine that is not halted, by what the selection finds. -/
theorem step_eq {m : Machine} {s : Snapshot} (hs : m.halted s = false) (ρ : Rounding)
    (values : List Robustness) : m.step ρ values s =
      match mostRobust (m.rated values s) with
      | none =>
        (0, s.advance s.active
          (if (m.transitions s.active).isEmpty then .rejected else s.status) 0)
      | some (t, x) => m.take ρ values s t x := by
  rw [step, hs]
  rfl

theorem step_halted {m : Machine} {s : Snapshot} (hs : m.halted s = true) (ρ : Rounding)
    (values : List Robustness) : m.step ρ values s = (0, s) := by
  rw [step, hs, if_pos rfl]

theorem exists_firstBest {m : Machine} {s : Snapshot} (hs : m.halted s = false) (ρ : Rounding)
    {values : List Robustness} {y : Transition Predicate × Robustness}
    (hy : y ∈ m.rated values s) (hnan : y.2 ≠ .nan) :
    ∃ t x, FirstBest (m.rated values s) (t, x) ∧ m.step ρ values s = m.take ρ values s t x := by
  rw [step_eq hs]
  rcases mostRobust_spec (m.rated values s) with ⟨-, hall⟩ | ⟨⟨t, x⟩, hsome, hbest⟩
  · exact absurd (hall y hy) hnan
  · rw [hsome]
    exact ⟨t, x, hbest, rfl⟩

theorem step_of_firstBest {m : Machine} {ρ : Rounding} {values : List Robustness} {s : Snapshot}
    {t : Transition Predicate} {x : Robustness} (hs : m.halted s = false)
    (h : FirstBest (m.rated values s) (t, x)) : m.step ρ values s = m.take ρ values s t x := by
  obtain ⟨t', x', h', hstep⟩ := exists_firstBest hs ρ h.mem h.ne_nan
  cases h'.unique h
  exact hstep

end Machine

end RabinReward
