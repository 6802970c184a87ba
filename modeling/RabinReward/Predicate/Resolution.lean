import RabinReward.Predicate.Visit
import RabinReward.Guard.Basic

/-!
# Binding guards to predicates

A guard over propositions becomes a predicate over the handles that stand for them. Literals and
operators get handles of their own, numbered from `fresh` upwards; an index becomes the handle that
it names, so guards that mention the same proposition share it. `ResolutionError` says why a name
did not lead to a predicate.
-/

namespace RabinReward

inductive ResolutionError where
  | unknownKind (kind : String)
  | missingParameter (kind param : String)
  | missingEntry (param entry : String)
  | typeMismatch (param entry : String) (expected found : ValueKind)
  | unknownProposition (index : UInt32) (count : Nat)
  deriving DecidableEq, Repr

def ResolutionError.message : ResolutionError → String
  | .unknownKind k => s!"Unknown predicate kind \"{k}\""
  | .missingParameter k p =>
    s!"Predicate kind \"{k}\" requires parameter \"{p}\" but it is not bound"
  | .missingEntry p e => s!"Parameter \"{p}\" is bound to missing blackboard entry \"{e}\""
  | .typeMismatch p e expected found =>
    s!"Parameter \"{p}\" expects a {expected.name} value, entry \"{e}\" holds a {found.name}"
  | .unknownProposition i n =>
    s!"Guard references atomic proposition {i} but only {n} are defined"

namespace Guard

/-- The predicate of a guard and the next unused identity. -/
def toPredicate (props : List Predicate) (fresh : Identity) :
    Guard → Except ResolutionError (Predicate × Identity)
  | .literal true => .ok (.shared fresh .always, fresh + 1)
  | .literal false => .ok (.shared (fresh + 1) (.not (.shared fresh .always)), fresh + 2)
  | .prop i =>
    match props[i.toNat]? with
    | some p => .ok (p, fresh)
    | none => .error (.unknownProposition i props.length)
  | .not g => do
    let (p, n) ← g.toPredicate props fresh
    return (.shared n (.not p), n + 1)
  | .and l r => do
    let (p, n) ← l.toPredicate props fresh
    let (q, n) ← r.toPredicate props n
    return (.shared n (.and p q), n + 1)
  | .or l r => do
    let (p, n) ← l.toPredicate props fresh
    let (q, n) ← r.toPredicate props n
    return (.shared n (.or p q), n + 1)

end Guard

end RabinReward
