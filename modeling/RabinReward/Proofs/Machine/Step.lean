import RabinReward.Proofs.Machine.Construction
import RabinReward.Proofs.Machine.Selection

/-!
# What a tick can do

`StepCase` lists the outcomes of a tick, each with what it requires and what it leads to; `stepCase`
says that there are no others, so an invariant is one case analysis. `Ticks` is a tick under
arbitrary robustness values of the guards, `Later` is any number of ticks without a reset and
`Reachable` is any history of ticks and resets. The machine itself is a parameter of all of them: a
tick or a reset makes a new snapshot and nothing else.
-/

namespace RabinReward

namespace Machine

variable {m : Machine} {ρ : Rounding} {values : List Robustness} {s s' : Snapshot}
  {reward : Robustness}

/-! ## Near misses -/

theorem mem_rated {y : Transition Predicate × Robustness} (h : y ∈ m.rated values s) :
    y.1 ∈ m.transitions s.active :=
  (List.of_mem_zip h).1

theorem mem_transitions_of_firstBest {t : Transition Predicate} {x : Robustness}
    (h : FirstBest (m.rated values s) (t, x)) : t ∈ m.transitions s.active :=
  mem_rated h.mem

theorem exists_rated {t : Transition Predicate}
    (hlen : values.length = (m.transitions s.active).length) (ht : t ∈ m.transitions s.active) :
    ∃ x ∈ values, (t, x) ∈ m.rated values s := by
  obtain ⟨i, hi, rfl⟩ := List.getElem_of_mem ht
  have hvalue : i < values.length := by omega
  have hrated : i < (m.rated values s).length := by
    rw [rated, List.length_zip]
    omega
  refine ⟨values[i], List.getElem_mem hvalue, ?_⟩
  have hzip : (m.rated values s)[i] = ((m.transitions s.active)[i], values[i]) := List.getElem_zip
  exact hzip ▸ List.getElem_mem hrated

/-- A near miss is the largest robustness among the transitions that lead closer. -/
theorem firstBest_of_nearMiss_eq_some {i : Nat} {rated : List (Transition Predicate × Robustness)}
    {x : Robustness} (h : m.nearMiss i rated = some x) :
    ∃ t, FirstBest (rated.filter fun x => m.distance x.1.destination < m.distance i) (t, x) := by
  unfold nearMiss at h
  rcases mostRobust_spec (rated.filter fun x => m.distance x.1.destination < m.distance i) with
    ⟨hnone, -⟩ | ⟨⟨t, y⟩, hsome, hbest⟩
  · rw [hnone] at h
    cases h
  · rw [hsome] at h
    cases h
    exact ⟨t, hbest⟩

theorem exists_of_nearMiss_eq_some {i : Nat} {rated : List (Transition Predicate × Robustness)}
    {x : Robustness} (h : m.nearMiss i rated = some x) :
    x ≠ .nan ∧ ∃ y ∈ rated, m.distance y.1.destination < m.distance i ∧ y.2 = x := by
  obtain ⟨t, hbest⟩ := firstBest_of_nearMiss_eq_some h
  obtain ⟨hmem, hcloser⟩ := List.mem_filter.1 hbest.mem
  exact ⟨hbest.ne_nan, (t, x), hmem, of_decide_eq_true hcloser, rfl⟩

theorem nearMiss_eq_none_iff {i : Nat} {rated : List (Transition Predicate × Robustness)} :
    m.nearMiss i rated = none ↔
      ∀ y ∈ rated, y.2 ≠ .nan → ¬m.distance y.1.destination < m.distance i := by
  unfold nearMiss
  rw [Option.map_eq_none_iff]
  rcases mostRobust_spec (rated.filter fun x => m.distance x.1.destination < m.distance i) with
    ⟨hnone, hnan⟩ | ⟨b, hsome, hbest⟩
  · refine iff_of_true hnone fun y hy hdefined hcloser => hdefined (hnan y ?_)
    exact List.mem_filter.2 ⟨hy, decide_eq_true hcloser⟩
  · obtain ⟨hmem, hcloser⟩ := List.mem_filter.1 hbest.mem
    rw [hsome]
    exact iff_of_false nofun fun h => h b hmem hbest.ne_nan (of_decide_eq_true hcloser)

/-! ## One tick -/

/-- The outcomes of a tick. -/
inductive StepCase (m : Machine) (ρ : Rounding) (values : List Robustness) (s : Snapshot) :
    Robustness → Snapshot → Prop where
  /-- A verdict keeps the machine where it is. -/
  | halted : m.halted s = true → StepCase m ρ values s 0 s
  /-- No transition leaves the active state. -/
  | stuck : m.halted s = false → m.transitions s.active = [] →
      StepCase m ρ values s 0 (s.advance s.active .rejected 0)
  /-- No transition has a defined robustness. -/
  | undefined : m.halted s = false → m.transitions s.active ≠ [] →
      (∀ y ∈ m.rated values s, y.2 = .nan) →
      StepCase m ρ values s 0 (s.advance s.active s.status 0)
  | moved {t : Transition Predicate} {x : Robustness} : m.halted s = false →
      FirstBest (m.rated values s) (t, x) → t.destination ≠ s.active →
      StepCase m ρ values s (m.progress ρ t.destination)
        (s.advance t.destination s.status (m.progress ρ t.destination))
  /-- A loop was taken while another transition led closer. -/
  | nearMissed {t : Transition Predicate} {x y : Robustness} : m.halted s = false →
      FirstBest (m.rated values s) (t, x) → t.destination = s.active →
      m.nearMiss s.active (m.rated values s) = some y →
      StepCase m ρ values s (ρ.add (m.progress ρ s.active) (m.nearMissReward ρ y))
        (s.advance s.active s.status (ρ.add (m.progress ρ s.active) (m.nearMissReward ρ y)))
  /-- An accepting loop halts the machine and earns the progress made. -/
  | accepted {t : Transition Predicate} {x : Robustness} : m.halted s = false →
      FirstBest (m.rated values s) (t, x) → t.destination = s.active →
      m.nearMiss s.active (m.rated values s) = none → t.accepting m.pairs = true →
      m.config.stopOnAcceptance = true →
      StepCase m ρ values s (m.progress ρ s.active)
        (s.advance s.active .accepted (m.progress ρ s.active))
  /-- An accepting loop that does not halt the machine earns its robustness as well. -/
  | acceptedOn {t : Transition Predicate} {x : Robustness} : m.halted s = false →
      FirstBest (m.rated values s) (t, x) → t.destination = s.active →
      m.nearMiss s.active (m.rated values s) = none → t.accepting m.pairs = true →
      m.config.stopOnAcceptance = false →
      StepCase m ρ values s (ρ.add (m.progress ρ s.active) x)
        (s.advance s.active .accepted (ρ.add (m.progress ρ s.active) x))
  | rejected {t : Transition Predicate} {x : Robustness} : m.halted s = false →
      FirstBest (m.rated values s) (t, x) → t.destination = s.active →
      m.nearMiss s.active (m.rated values s) = none → t.accepting m.pairs = false →
      StepCase m ρ values s 0 (s.advance s.active .rejected 0)

theorem stepCase_take (hs : m.halted s = false) {t : Transition Predicate} {x : Robustness}
    (hbest : FirstBest (m.rated values s) (t, x)) :
    StepCase m ρ values s (m.take ρ values s t x).1 (m.take ρ values s t x).2 := by
  simp only [take, outcome]
  by_cases hmove : t.destination = s.active
  · rw [if_neg (not_not_intro hmove), hmove]
    cases hnear : m.nearMiss s.active (m.rated values s) with
    | some y => exact .nearMissed hs hbest hmove hnear
    | none =>
      cases haccept : t.accepting m.pairs with
      | false => exact .rejected hs hbest hmove hnear haccept
      | true =>
        cases hstop : m.config.stopOnAcceptance with
        | true => exact .accepted hs hbest hmove hnear haccept hstop
        | false => exact .acceptedOn hs hbest hmove hnear haccept hstop
  · rw [if_pos hmove]
    exact .moved hs hbest hmove

/-- A tick has no other outcomes. -/
theorem stepCase (h : m.step ρ values s = (reward, s')) : StepCase m ρ values s reward s' := by
  cases hs : m.halted s with
  | true =>
    rw [step_halted hs] at h
    cases h
    exact .halted hs
  | false =>
    rw [step_eq hs] at h
    rcases mostRobust_spec (m.rated values s) with ⟨hnone, hnan⟩ | ⟨⟨t, x⟩, hsome, hbest⟩
    · rw [hnone] at h
      cases htrans : m.transitions s.active with
      | nil =>
        rw [htrans] at h
        cases h
        exact .stuck hs htrans
      | cons t ts =>
        rw [htrans] at h
        cases h
        exact .undefined hs (htrans ▸ List.cons_ne_nil t ts) hnan
    · rw [hsome] at h
      have hcase := stepCase_take (ρ := ρ) hs hbest
      rw [show m.take ρ values s t x = (reward, s') from h] at hcase
      exact hcase

/-! ## Histories -/

/-- A tick with a reward from one snapshot to the next. The guards of the active state show any
values, one for each transition. -/
def Ticks (m : Machine) (ρ : Rounding) (s : Snapshot) (reward : Robustness) (s' : Snapshot) :
    Prop :=
  ∃ values : List Robustness, values.length = (m.transitions s.active).length ∧
    m.step ρ values s = (reward, s')

theorem Ticks.stepCase (h : m.Ticks ρ s reward s') :
    ∃ values, StepCase m ρ values s reward s' := by
  obtain ⟨values, -, h⟩ := h
  exact ⟨values, Machine.stepCase h⟩

inductive Later (m : Machine) (ρ : Rounding) (s : Snapshot) : Snapshot → Prop where
  | refl : Later m ρ s s
  | tick {s' s'' : Snapshot} {reward : Robustness} : Later m ρ s s' → m.Ticks ρ s' reward s'' →
      Later m ρ s s''

theorem Ticks.active_lt (hm : m.WellFormed) (hs : s.active < m.states.length)
    (h : m.Ticks ρ s reward s') : s'.active < m.states.length := by
  obtain ⟨values, h⟩ := h.stepCase
  cases h with
  | moved _ hbest _ => exact hm.destination_lt_of_mem (mem_transitions_of_firstBest hbest)
  | halted | stuck | undefined | nearMissed | accepted | acceptedOn | rejected => exact hs

theorem Later.active_lt (hm : m.WellFormed) (hs : s.active < m.states.length)
    (h : m.Later ρ s s') : s'.active < m.states.length := by
  induction h with
  | refl => exact hs
  | tick _ htick ih => exact htick.active_lt hm ih

/-- The snapshots that ticks and resets lead to from the start. -/
inductive Reachable (m : Machine) (ρ : Rounding) : Snapshot → Prop where
  | start : Reachable m ρ m.start
  | tick {s s' : Snapshot} {reward : Robustness} : Reachable m ρ s → m.Ticks ρ s reward s' →
      Reachable m ρ s'
  | reset {s : Snapshot} (sensors : Array Sensor) : Reachable m ρ s →
      Reachable m ρ (m.reset sensors).1

theorem Reachable.active_lt (hm : m.WellFormed) (h : m.Reachable ρ s) :
    s.active < m.states.length := by
  induction h with
  | start | reset => exact hm.initial_lt
  | tick _ htick ih => exact htick.active_lt hm ih

end Machine

end RabinReward
