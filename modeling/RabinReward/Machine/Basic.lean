import RabinReward.Automaton.Distance
import RabinReward.Predicate.Resolution

/-!
# Reward machines

A machine is an automaton over predicates together with the distance of every state to acceptance
and the largest finite distance, which is the scale that progress is measured on.
`Machine.ofStates` checks that indices are in range and that there is progress to measure.
-/

namespace RabinReward

structure Config where
  /-- A verdict halts the machine until it is reset. -/
  stopOnAcceptance : Bool
  /-- A near miss counts at least `-1` and at most `0`. -/
  clampNearMiss : Bool
  deriving DecidableEq, Repr

def Config.default : Config := ⟨true, false⟩

inductive BuildError where
  | noStates
  | initialStateOutOfRange (index count : Nat)
  | destinationOutOfRange (state destination count : Nat)
  | noProgressMetric
  | resolution (source : ResolutionError)
  deriving DecidableEq, Repr

def BuildError.message : BuildError → String
  | .noStates => "Automaton has no states"
  | .initialStateOutOfRange i n => s!"Initial state {i} is out of range for {n} states"
  | .destinationOutOfRange s d n =>
    s!"Transition of state {s} leads to state {d}, only {n} states exist"
  | .noProgressMetric => "No state is a positive finite distance away from acceptance"
  | .resolution e => s!"Could not resolve predicate: {e.message}"

structure Machine where
  states : List (State Predicate)
  pairs : List RabinPair
  initial : Nat
  distances : Array Distance
  /-- The largest finite distance. -/
  scale : Nat
  config : Config
  deriving DecidableEq

variable {γ : Type}

/-- The first transition that leads outside the given number of states, and the state it leaves;
states are numbered from `index`. -/
def firstDangling (count index : Nat) : List (State γ) → Option (Nat × Nat)
  | [] => none
  | s :: rest =>
    match s.transitions.find? (fun t => count ≤ t.destination) with
    | some t => some (index, t.destination)
    | none => firstDangling count (index + 1) rest

namespace Machine

def ofStates (states : List (State Predicate)) (initial : Nat) (pairs : List RabinPair)
    (config : Config) : Except BuildError Machine :=
  let count := states.length
  if count = 0 then .error .noStates
  else if count ≤ initial then .error (.initialStateOutOfRange initial count)
  else
    match firstDangling count 0 states with
    | some (s, d) => .error (.destinationOutOfRange s d count)
    | none =>
      let distances := Distance.toGoal pairs states
      let scale := Distance.largest distances
      if scale = 0 then .error .noProgressMetric
      else .ok ⟨states, pairs, initial, distances, scale, config⟩

/-- The transitions that leave a state. -/
def transitions (m : Machine) (s : Nat) : List (Transition Predicate) :=
  (m.states[s]?.map State.transitions).getD []

/-- The distance of a state to acceptance. -/
def distance (m : Machine) (s : Nat) : Distance := m.distances[s]?.getD .infinite

/-- The guards of all transitions, state by state. -/
def guards (m : Machine) : List Predicate := m.states.flatMap fun s => s.transitions.map (·.guard)

end Machine

end RabinReward
