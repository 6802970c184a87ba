import RabinReward.Machine.Basic

/-!
# Ticks

In a tick the machine follows the most robust transition that leaves its active state, and is paid
by how close to acceptance that leads. Staying in place while a transition to a smaller distance
was possible is paid in addition for how nearly that transition was taken (`nearMiss`). Staying in
place with nothing to gain is a verdict: accepted if the transition is, rejected otherwise.

`step` says this over arbitrary robustness values of the transitions; `tick` measures the guards
and steps.
-/

namespace RabinReward

inductive Status where
  | running
  | accepted
  | rejected
  deriving DecidableEq, Repr

def Status.name : Status → String
  | .running => "running"
  | .accepted => "accepted"
  | .rejected => "rejected"

/-- Where a machine stands: what changes from tick to tick. -/
structure Snapshot where
  active : Nat
  status : Status
  ticks : Nat
  /-- The reward of the last tick. -/
  last : Robustness
  /-- The largest reward of a tick so far. -/
  best : Robustness
  deriving DecidableEq, Repr

/-- Enters a state at the end of a tick. -/
def Snapshot.advance (s : Snapshot) (state : Nat) (status : Status) (reward : Robustness) :
    Snapshot :=
  ⟨state, status, s.ticks + 1, reward, s.best.max reward⟩

variable {α : Type}

/-- The more robust of two rated values; `nan` is passed over and the earlier wins a tie. -/
def moreRobust (best : Option (α × Robustness)) (x : α × Robustness) : Option (α × Robustness) :=
  if x.2.isNan then best
  else
    match best with
    | none => some x
    | some b => if x.2 ≤ b.2 then best else some x

/-- The first value whose robustness is the largest of those that are not `nan`. -/
def mostRobust (rated : List (α × Robustness)) : Option (α × Robustness) :=
  rated.foldl moreRobust none

namespace Machine

def start (m : Machine) : Snapshot := ⟨m.initial, .running, 0, 0, 0⟩

/-- Whether ticks leave the snapshot alone until a reset. -/
def halted (m : Machine) (s : Snapshot) : Bool :=
  s.status != .running && m.config.stopOnAcceptance

/-- The reward of being in a state: the share of the scale that has been covered. -/
def progress (m : Machine) (ρ : Rounding) (state : Nat) : Robustness :=
  match m.distance state with
  | .finite hops => ρ.div (ρ.round ((m.scale - hops : Nat) : Rat)) (ρ.round m.scale)
  | .infinite => 0

/-- The largest robustness among the transitions that lead closer to acceptance. -/
def nearMiss (m : Machine) (state : Nat) (rated : List (Transition Predicate × Robustness)) :
    Option Robustness :=
  (mostRobust (rated.filter fun x => m.distance x.1.destination < m.distance state)).map (·.2)

/-- The share of the scale that a near miss is worth. -/
def nearMissReward (m : Machine) (ρ : Rounding) (x : Robustness) : Robustness :=
  let x := if m.config.clampNearMiss then x.clamp (-1) 0 else x
  ρ.div (ρ.add 1 x) (ρ.round m.scale)

/-- The status and the reward after a transition of the given robustness has been chosen. -/
def outcome (m : Machine) (ρ : Rounding) (s : Snapshot) (t : Transition Predicate)
    (x : Robustness) (near : Option Robustness) : Status × Robustness :=
  let reward := m.progress ρ t.destination
  if t.destination ≠ s.active then (s.status, reward)
  else
    match near with
    | some y => (s.status, ρ.add reward (m.nearMissReward ρ y))
    | none =>
      if t.accepting m.pairs then
        (.accepted, if m.config.stopOnAcceptance then reward else ρ.add reward x)
      else (.rejected, 0)

/-- One tick with the given robustness values of the transitions that leave the active state. -/
def step (m : Machine) (ρ : Rounding) (values : List Robustness) (s : Snapshot) :
    Robustness × Snapshot :=
  if m.halted s then (0, s)
  else
    let rated := (m.transitions s.active).zip values
    match mostRobust rated with
    | none =>
      let status := if (m.transitions s.active).isEmpty then .rejected else s.status
      (0, s.advance s.active status 0)
    | some (t, x) =>
      let (status, reward) := m.outcome ρ s t x (m.nearMiss s.active rated)
      (reward, s.advance t.destination status reward)

/-- One tick: the reward and what it leads to. -/
def tick (m : Machine) (ρ : Rounding) (r : Readings) (s : Snapshot) : Robustness × Snapshot :=
  m.step ρ ((m.transitions s.active).map fun t => t.guard.robustness ρ r) s

/-- What a reset visits: every predicate below a guard, each handle once. -/
def resetVisits (m : Machine) : List Predicate := Predicate.visit m.guards

/-- Back to the start; the sensors below the guards are reset. -/
def reset (m : Machine) (sensors : Array Sensor) : Snapshot × Array Sensor :=
  (m.start, resetAll sensors m.resetVisits)

/-- One at the active state, zero elsewhere. -/
def oneHot (m : Machine) (s : Snapshot) : List Robustness :=
  (List.range m.states.length).map fun i => if i = s.active then 1 else 0

end Machine

end RabinReward
