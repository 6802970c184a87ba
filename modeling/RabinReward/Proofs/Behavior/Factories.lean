import RabinReward.Proofs.Behavior.Alignment
import RabinReward.Proofs.Machine.Defect

/-!
# Building over the factories of a host

A host may register kinds whose factories read the blackboard, write to it, or answer with a handle
that exists already. What holds of building over new predicates holds here with every proposition
instantiated on what the factories before it have left: the first defect is reported, and the guards
share what the factories have made (`buildBy_outcome`).
-/

namespace RabinReward.Description

variable {d : Description} {props : List Proposition} {r : Registry} {factory : Kind → Factory}
  {board board' : Blackboard} {config : Config} {fresh next : Identity} {m : Machine}
  {e : BuildError}

/-- Some proposition cannot be instantiated where the factories before it have left the blackboard;
the first of them says why. -/
def UninstantiableBy (props : List Proposition) (r : Registry) (factory : Kind → Factory)
    (board : Blackboard) (fresh : Identity) (e : BuildError) : Prop :=
  ∃ source board', r.FailsFirst factory board fresh props source board' ∧ e = .resolution source

theorem buildBy_eq_error_iff : (d.buildBy props r factory board config fresh).1 = .error e ↔
    Leading (UninstantiableBy props r factory board fresh :: d.Unbound props.length ::
      d.structureDefects) e := by
  rcases r.makes_or_failsFirst factory board fresh props with
    ⟨made, board', n, hmade⟩ | ⟨source, board', hfails⟩
  · rw [buildBy_of_makes hmade, leading_of_absent, ← hmade.length_eq, materialize_eq_error_iff]
    rintro e ⟨source, board'', hfails, rfl⟩
    cases hmade.instantiateAllBy_eq.symm.trans hfails.instantiateAllBy_eq
  · rw [buildBy_of_failsFirst hfails]
    refine error_eq_iff_leading fun e => ⟨?_, fun h => h ▸ ⟨source, board', hfails, rfl⟩⟩
    rintro ⟨source', board'', hfails', rfl⟩
    cases hfails.instantiateAllBy_eq.symm.trans hfails'.instantiateAllBy_eq
    rfl

theorem exists_makes_of_buildBy
    (h : d.buildBy props r factory board config fresh = (.ok (m, next), board')) :
    ∃ made n, r.Makes factory board fresh props made board' n ∧
      ∀ s, List.Forall₂ (fun t t' => t.guard.Binds made t'.guard) (d.transitions s)
        (m.transitions s) := by
  rcases r.makes_or_failsFirst factory board fresh props with
    ⟨made, board'', n, hmade⟩ | ⟨e, board'', hfails⟩
  · rw [buildBy_of_makes hmade, Prod.mk.injEq] at h
    obtain ⟨hbuild, rfl⟩ := h
    obtain ⟨-, hstates, -, -, -⟩ := materialize_eq_ok hbuild
    exact ⟨made, n, hmade, fun s =>
      (forall₂_transitions hstates s).imp fun _ _ hbinds => hbinds.guard_binds⟩
  · rw [buildBy_of_failsFirst hfails] at h
    cases h

/-- **Building over the factories of a host.** It fails exactly when something is wrong, with what
comes first in the order of precedence. Otherwise the guards share one predicate for each
proposition, made by its factory on the blackboard that the factories before it have left. Over new
predicates the blackboard stays as it is. -/
theorem buildBy_outcome (d : Description) (props : List Proposition) (r : Registry)
    (factory : Kind → Factory) (board : Blackboard) (config : Config) (fresh : Identity) :
    (∀ e, (d.buildBy props r factory board config fresh).1 = .error e ↔
      Leading (UninstantiableBy props r factory board fresh :: d.Unbound props.length ::
        d.structureDefects) e) ∧
    (∀ m next board', d.buildBy props r factory board config fresh = (.ok (m, next), board') →
      ∃ made, made.length = props.length ∧
        (∀ k p, props[k]? = some p → ∃ before board₁ n q board₂ n', made[k]? = some q ∧
          r.Makes factory board fresh (props.take k) before board₁ n ∧
          r.instantiateBy factory board₁ p n = (.ok (q, n'), board₂)) ∧
        ∀ s, List.Forall₂ (fun t t' => t.guard.Binds made t'.guard) (d.transitions s)
          (m.transitions s)) ∧
    d.buildBy props r Kind.factory board config fresh =
      (d.build props r board config fresh, board) := by
  refine ⟨fun e => buildBy_eq_error_iff, fun m next board' h => ?_, buildBy_factory⟩
  obtain ⟨made, n, hmade, hguards⟩ := exists_makes_of_buildBy h
  exact ⟨made, hmade.length_eq, fun k p => hmade.exists_instantiateBy, hguards⟩

end RabinReward.Description
