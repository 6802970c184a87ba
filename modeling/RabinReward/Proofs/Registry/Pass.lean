import RabinReward.Machine.Binding
import RabinReward.Proofs.Registry.Resolution

/-!
# Passes over propositions

A pass hands the blackboard and the next unused identity from one factory to the next. It ends with
the predicates of all propositions (`Makes`) or at the first proposition that fails on what the
factories before it have left, and then no later factory runs (`FailsFirst`). What every factory
keeps of the blackboard a pass keeps as well; the factories of kinds keep all of it
(`instantiateAllBy_factory`).
-/

namespace RabinReward

namespace Registry

/-- The factories make these predicates of the propositions, one after the other. -/
inductive Makes (r : Registry) (factory : Kind → Factory) : Blackboard → Identity →
    List Proposition → List Predicate → Blackboard → Identity → Prop where
  | nil (board : Blackboard) (fresh : Identity) : Makes r factory board fresh [] [] board fresh
  | cons {board board' board'' : Blackboard} {fresh n next : Identity} {p : Proposition}
      {ps : List Proposition} {q : Predicate} {made : List Predicate} :
      r.instantiateBy factory board p fresh = (.ok (q, n), board') →
      Makes r factory board' n ps made board'' next →
      Makes r factory board fresh (p :: ps) (q :: made) board'' next

/-- A proposition fails after all before it have been made. -/
def FailsFirst (r : Registry) (factory : Kind → Factory) (board : Blackboard) (fresh : Identity)
    (ps : List Proposition) (e : ResolutionError) (board'' : Blackboard) : Prop :=
  ∃ before p after made board' n, ps = before ++ p :: after ∧
    r.Makes factory board fresh before made board' n ∧
    r.instantiateBy factory board' p n = (.error e, board'')

variable {r : Registry} {factory : Kind → Factory} {board board' board'' : Blackboard}
  {p : Proposition} {ps : List Proposition} {q : Predicate} {made : List Predicate}
  {fresh n next : Identity} {e : ResolutionError}

theorem Makes.length_eq (h : r.Makes factory board fresh ps made board' next) :
    made.length = ps.length := by
  induction h with
  | nil => rfl
  | cons _ _ ih => rw [List.length_cons, List.length_cons, ih]

/-- Each predicate is made on the blackboard that the factories of those before it have left. -/
theorem Makes.exists_instantiateBy (h : r.Makes factory board fresh ps made board'' next) {k : Nat}
    (hp : ps[k]? = some p) : ∃ before board₁ n q board₂ n', made[k]? = some q ∧
      r.Makes factory board fresh (ps.take k) before board₁ n ∧
      r.instantiateBy factory board₁ p n = (.ok (q, n'), board₂) := by
  induction h generalizing k with
  | nil => cases hp
  | @cons board _ _ fresh _ _ _ _ q _ hfirst _ ih =>
    cases k with
    | zero =>
      cases hp
      exact ⟨[], board, fresh, q, _, _, rfl, .nil board fresh, hfirst⟩
    | succ k =>
      obtain ⟨before, board₁, n, q', board₂, n', hq', hbefore, hmade⟩ := ih hp
      exact ⟨q :: before, board₁, n, q', board₂, n', hq', .cons hfirst hbefore, hmade⟩

theorem FailsFirst.cons (hfirst : r.instantiateBy factory board p fresh = (.ok (q, n), board'))
    (h : r.FailsFirst factory board' n ps e board'') :
    r.FailsFirst factory board fresh (p :: ps) e board'' := by
  obtain ⟨before, p', after, made, board₁, n', rfl, hbefore, hfails⟩ := h
  exact ⟨p :: before, p', after, q :: made, board₁, n', rfl, .cons hfirst hbefore, hfails⟩

theorem instantiateAllBy_cons_of_error
    (h : r.instantiateBy factory board p fresh = (.error e, board')) :
    r.instantiateAllBy factory board fresh (p :: ps) = (.error e, board') := by
  rw [instantiateAllBy, h]

theorem instantiateAllBy_cons_of_ok
    (h : r.instantiateBy factory board p fresh = (.ok (q, n), board')) :
    r.instantiateAllBy factory board fresh (p :: ps) =
      ((r.instantiateAllBy factory board' n ps).1.map fun (qs, n) => (q :: qs, n),
        (r.instantiateAllBy factory board' n ps).2) := by
  rw [instantiateAllBy, h]

theorem Makes.instantiateAllBy_eq (h : r.Makes factory board fresh ps made board' next) :
    r.instantiateAllBy factory board fresh ps = (.ok (made, next), board') := by
  induction h with
  | nil => rfl
  | cons hfirst _ ih =>
    rw [instantiateAllBy_cons_of_ok hfirst, ih]
    rfl

theorem FailsFirst.instantiateAllBy_eq (h : r.FailsFirst factory board fresh ps e board'') :
    r.instantiateAllBy factory board fresh ps = (.error e, board'') := by
  obtain ⟨before, p, after, made, board', n, rfl, hbefore, hfails⟩ := h
  induction hbefore with
  | nil => exact instantiateAllBy_cons_of_error hfails
  | cons hfirst _ ih =>
    rw [List.cons_append, instantiateAllBy_cons_of_ok hfirst, ih hfails]
    rfl

theorem makes_or_failsFirst (r : Registry) (factory : Kind → Factory) (board : Blackboard)
    (fresh : Identity) (ps : List Proposition) :
    (∃ made board' next, r.Makes factory board fresh ps made board' next) ∨
      ∃ e board', r.FailsFirst factory board fresh ps e board' := by
  induction ps generalizing board fresh with
  | nil => exact .inl ⟨[], board, fresh, .nil board fresh⟩
  | cons p ps ih =>
    match h : r.instantiateBy factory board p fresh with
    | (.error e, board') =>
      exact .inr ⟨e, board', [], p, ps, [], board, fresh, rfl, .nil board fresh, h⟩
    | (.ok (q, n), board') =>
      rcases ih board' n with ⟨made, board'', next, hmade⟩ | ⟨e, board'', hfails⟩
      · exact .inl ⟨q :: made, board'', next, .cons h hmade⟩
      · exact .inr ⟨e, board'', hfails.cons h⟩

theorem instantiateBy_keeps {P : Blackboard → Prop}
    (hkeeps : ∀ k bound fresh board, P board → P (factory k bound fresh board).2)
    (hboard : P board) : P (r.instantiateBy factory board p fresh).2 := by
  unfold instantiateBy
  split
  · exact hboard
  · exact hkeeps _ _ _ _ hboard

/-- What every factory keeps of a blackboard a pass keeps, also one that fails. -/
theorem instantiateAllBy_keeps {P : Blackboard → Prop}
    (hkeeps : ∀ k bound fresh board, P board → P (factory k bound fresh board).2)
    (hboard : P board) : P (r.instantiateAllBy factory board fresh ps).2 := by
  induction ps generalizing board fresh with
  | nil => exact hboard
  | cons p ps ih =>
    have hfirst : P (r.instantiateBy factory board p fresh).2 := instantiateBy_keeps hkeeps hboard
    match hp : r.instantiateBy factory board p fresh with
    | (.error e, board') =>
      rw [hp] at hfirst
      rwa [instantiateAllBy_cons_of_error hp]
    | (.ok (q, n), board') =>
      rw [hp] at hfirst
      rw [instantiateAllBy_cons_of_ok hp]
      exact ih hfirst

/-- The factories of kinds leave the blackboard alone. -/
theorem instantiateAllBy_factory : r.instantiateAllBy Kind.factory board fresh ps =
    (r.instantiateAll board fresh ps, board) :=
  Prod.ext rfl (instantiateAllBy_keeps (P := (· = board)) (fun _ _ _ _ h => h) rfl)

theorem instantiateBy_factory_eq :
    r.instantiateBy Kind.factory board p fresh = (r.instantiate board p fresh, board) :=
  Prod.ext rfl (by rw [instantiateBy_factory])

theorem instantiateAll_nil : r.instantiateAll board fresh [] = .ok ([], fresh) := rfl

theorem instantiateAll_cons : r.instantiateAll board fresh (p :: ps) = do
    let (q, n) ← r.instantiate board p fresh
    let (qs, n) ← r.instantiateAll board n ps
    return (q :: qs, n) := by
  cases h : r.instantiate board p fresh with
  | error e =>
    rw [instantiateAll, instantiateAllBy_cons_of_error (instantiateBy_factory_eq.trans (by rw [h]))]
    rfl
  | ok qn =>
    obtain ⟨q, n⟩ := qn
    rw [instantiateAll, instantiateAllBy_cons_of_ok (instantiateBy_factory_eq.trans (by rw [h])),
      instantiateAllBy_factory]
    change _ = r.instantiateAll board n ps >>= fun (qs, n) => pure (q :: qs, n)
    cases r.instantiateAll board n ps <;> rfl

theorem instantiateAll_eq_ok {ps : List Proposition} {qs : List Predicate}
    (h : r.instantiateAll board fresh ps = .ok (qs, next)) :
    qs.length = ps.length ∧ next = fresh + ps.length ∧
      ∀ k p, ps[k]? = some p → ∃ q, qs[k]? = some q ∧
        r.instantiate board p (fresh + k) = .ok (q, fresh + k + 1) := by
  induction ps generalizing fresh qs with
  | nil =>
    cases h
    exact ⟨rfl, rfl, nofun⟩
  | cons p ps ih =>
    rw [instantiateAll_cons] at h
    obtain ⟨⟨q, n⟩, hq, h⟩ := bind_eq_ok.1 h
    obtain ⟨⟨rest, l⟩, hrest, h⟩ := bind_eq_ok.1 h
    cases h
    obtain rfl := (identity_of_instantiate hq).2
    obtain ⟨hlength, rfl, hall⟩ := ih hrest
    refine ⟨congrArg (· + 1) hlength, Nat.succ_add_eq_add_succ fresh ps.length,
      fun k p' hp' => ?_⟩
    cases k with
    | zero =>
      cases hp'
      exact ⟨q, rfl, hq⟩
    | succ k =>
      rw [← Nat.succ_add_eq_add_succ fresh k]
      exact hall k p' hp'

end Registry

/-! ## Building -/

namespace Description

variable {d : Description} {props : List Proposition} {r : Registry} {factory : Kind → Factory}
  {board board' : Blackboard} {config : Config} {fresh n : Identity} {made : List Predicate}
  {e : ResolutionError}

theorem buildBy_of_makes (h : r.Makes factory board fresh props made board' n) :
    d.buildBy props r factory board config fresh = (d.materialize made config n, board') := by
  rw [buildBy, h.instantiateAllBy_eq]

theorem buildBy_of_failsFirst (h : r.FailsFirst factory board fresh props e board') :
    d.buildBy props r factory board config fresh = (.error (.resolution e), board') := by
  rw [buildBy, h.instantiateAllBy_eq]

theorem build_eq : d.build props r board config fresh =
    match r.instantiateAll board fresh props with
    | .error e => .error (.resolution e)
    | .ok (handles, n) => d.materialize handles config n := by
  rw [build, buildBy, Registry.instantiateAllBy_factory]
  cases r.instantiateAll board fresh props <;> rfl

theorem buildBy_factory : d.buildBy props r Kind.factory board config fresh =
    (d.build props r board config fresh, board) := by
  rw [build, buildBy, Registry.instantiateAllBy_factory]
  cases r.instantiateAll board fresh props <;> rfl

end Description

end RabinReward
