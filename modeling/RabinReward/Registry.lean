import RabinReward.Blackboard.Basic
import RabinReward.Predicate.Resolution

/-!
# Predicate kinds

A kind declares the parameters that a predicate needs and makes the predicate from the blackboard
entries bound to them. Instantiation resolves the parameters in the order of declaration and
reports the first that fails; the predicate gets a handle of its own. A registry finds kinds by
name, the latest registration first. The blackboard goes from one factory to the next, since those
of a host may write to it.
-/

namespace RabinReward

/-- Binds a parameter to the name of a blackboard entry. -/
structure Binding where
  param : String
  entry : String
  deriving DecidableEq, Repr

/-- The kind and the bindings of an atomic proposition. -/
structure Proposition where
  kind : String
  inputs : List Binding
  deriving DecidableEq, Repr

/-- The entries that the parameters of one predicate resolved to. -/
structure Bound where
  kind : String
  params : List (String × EntryId)
  deriving DecidableEq, Repr

def Bound.get (b : Bound) (param : String) : Except ResolutionError EntryId :=
  match b.params.lookup param with
  | some e => .ok e
  | none => .error (.missingParameter b.kind param)

/-- What makes the predicates of a kind. It is given the next unused identity, and a factory of the
host may read and write entries meanwhile, or answer with a handle that exists already. -/
abbrev Factory :=
  Bound → Identity → Blackboard → Except ResolutionError (Predicate × Identity) × Blackboard

structure Kind where
  name : String
  params : List (String × ValueKind)
  make : Bound → Except ResolutionError Predicate

namespace Kind

/-- The factory that makes predicates under handles of their own and leaves the blackboard alone. -/
def factory (k : Kind) : Factory := fun bound fresh board =>
  ((k.make bound).map fun q => (.shared fresh q, fresh + 1), board)

def always : Kind := ⟨"Conditions/True", [], fun _ => .ok .always⟩

def flag : Kind :=
  ⟨"Conditions/Boolean Condition", [("Value", .bool)], fun b => return .flag (← b.get "Value")⟩

def lessThan : Kind :=
  ⟨"Conditions/Less Than", [("A", .float), ("B", .float)],
    fun b => return .lessThan (← b.get "A") (← b.get "B")⟩

end Kind

/-- A parameter of kind `float` also takes integers. -/
def ValueKind.accepts (expected found : ValueKind) : Bool :=
  expected = found || (expected = .float && found = .int)

/-- The entry that the first binding of a parameter names. -/
def resolveParam (board : Blackboard) (kind : String) (inputs : List Binding) (param : String)
    (expected : ValueKind) : Except ResolutionError EntryId :=
  match inputs.find? (·.param = param) with
  | none => .error (.missingParameter kind param)
  | some input =>
    match board.get? input.entry with
    | none => .error (.missingEntry param input.entry)
    | some e =>
      match board.value? e with
      | none => .error (.missingEntry param input.entry)
      | some v =>
        if expected.accepts v.kind then .ok e
        else .error (.typeMismatch param input.entry expected v.kind)

/-- The entries of declared parameters, in the order of declaration. -/
def resolveParams (board : Blackboard) (kind : String) (inputs : List Binding) :
    List (String × ValueKind) → Except ResolutionError (List (String × EntryId))
  | [] => .ok []
  | (param, expected) :: rest => do
    let e ← resolveParam board kind inputs param expected
    return (param, e) :: (← resolveParams board kind inputs rest)

/-- Kinds, the latest registered first. -/
abbrev Registry := List Kind

namespace Registry

def builtins : Registry := [.lessThan, .flag, .always]

/-- Replaces any kind of the same name. -/
def register (r : Registry) (k : Kind) : Registry := k :: r.filter (·.name ≠ k.name)

def get? (r : Registry) (name : String) : Option Kind := r.find? (·.name = name)

/-- The kind of a proposition, and what its parameters resolve to. -/
def resolve (r : Registry) (board : Blackboard) (p : Proposition) :
    Except ResolutionError (Kind × Bound) :=
  match r.get? p.kind with
  | none => .error (.unknownKind p.kind)
  | some k => do return (k, ⟨p.kind, ← resolveParams board p.kind p.inputs k.params⟩)

/-- A predicate of the kind's factory, with the blackboard as the factory leaves it. -/
def instantiateBy (r : Registry) (factory : Kind → Factory) (board : Blackboard) (p : Proposition)
    (fresh : Identity) : Except ResolutionError (Predicate × Identity) × Blackboard :=
  match r.resolve board p with
  | .error e => (.error e, board)
  | .ok (k, bound) => factory k bound fresh board

/-- A new predicate of a kind, under the handle `fresh`. -/
def instantiate (r : Registry) (board : Blackboard) (p : Proposition) (fresh : Identity) :
    Except ResolutionError (Predicate × Identity) :=
  (r.instantiateBy Kind.factory board p fresh).1

/-- A predicate for every proposition, in order, each on the blackboard that the last factory
left. -/
def instantiateAllBy (r : Registry) (factory : Kind → Factory) (board : Blackboard)
    (fresh : Identity) :
    List Proposition → Except ResolutionError (List Predicate × Identity) × Blackboard
  | [] => (.ok ([], fresh), board)
  | p :: ps =>
    match r.instantiateBy factory board p fresh with
    | (.error e, board) => (.error e, board)
    | (.ok (q, n), board) =>
      let (made, board) := r.instantiateAllBy factory board n ps
      (made.map fun (qs, n) => (q :: qs, n), board)

/-- A new predicate for every proposition, in order. -/
def instantiateAll (r : Registry) (board : Blackboard) (fresh : Identity)
    (ps : List Proposition) : Except ResolutionError (List Predicate × Identity) :=
  (r.instantiateAllBy Kind.factory board fresh ps).1

end Registry

/-- What a host with these sensors and this blackboard shows. -/
def Readings.ofHost (sensors : Array Sensor) (board : Blackboard) : Readings :=
  ⟨fun s => (sensors[s]?.map Sensor.value).getD .nan, board.value?⟩

end RabinReward
