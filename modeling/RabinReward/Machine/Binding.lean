import RabinReward.Machine.Basic
import RabinReward.Registry

/-!
# Machines from descriptions

Binding a description to handles for its propositions turns every guard into a predicate, state by
state and transition by transition, and keeps everything else. New handles are numbered from
`fresh` upwards; the next unused number is returned. `Description.build` makes the handles first,
one for each proposition; a host may have factories of its own make them (`Description.buildBy`).
-/

namespace RabinReward

def bindTransitions (props : List Predicate) (fresh : Identity) :
    List (Transition Guard) → Except ResolutionError (List (Transition Predicate) × Identity)
  | [] => .ok ([], fresh)
  | t :: ts => do
    let (p, n) ← t.guard.toPredicate props fresh
    let (ts, n) ← bindTransitions props n ts
    return (⟨p, t.destination, t.tokens⟩ :: ts, n)

def bindStates (props : List Predicate) (fresh : Identity) :
    List (State Guard) → Except ResolutionError (List (State Predicate) × Identity)
  | [] => .ok ([], fresh)
  | s :: ss => do
    let (ts, n) ← bindTransitions props fresh s.transitions
    let (ss, n) ← bindStates props n ss
    return (⟨s.label, ts⟩ :: ss, n)

namespace Description

/-- The machine of a description whose proposition `k` is the handle `props[k]`. -/
def materialize (d : Description) (props : List Predicate) (config : Config) (fresh : Identity) :
    Except BuildError (Machine × Identity) :=
  match bindStates props fresh d.states with
  | .error e => .error (.resolution e)
  | .ok (states, n) => (Machine.ofStates states d.initial d.pairs config).map (·, n)

/-- The machine of a description over predicates that factories make for its propositions, with the
blackboard as the factories leave it. -/
def buildBy (d : Description) (props : List Proposition) (r : Registry) (factory : Kind → Factory)
    (board : Blackboard) (config : Config) (fresh : Identity) :
    Except BuildError (Machine × Identity) × Blackboard :=
  match r.instantiateAllBy factory board fresh props with
  | (.error e, board) => (.error (.resolution e), board)
  | (.ok (handles, n), board) => (d.materialize handles config n, board)

/-- The machine of a description over new predicates for its propositions. -/
def build (d : Description) (props : List Proposition) (r : Registry) (board : Blackboard)
    (config : Config) (fresh : Identity) : Except BuildError (Machine × Identity) :=
  (d.buildBy props r Kind.factory board config fresh).1

end Description

end RabinReward
