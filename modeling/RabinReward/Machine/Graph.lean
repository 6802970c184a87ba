import RabinReward.Graph
import RabinReward.Machine.Basic

/-!
# The state graph

The states of a machine and, for every pair of states that transitions join, one edge weighted with
the number of those transitions. The graph is built one transition at a time: a transition raises
the weight of its edge, or adds the edge with weight one.
-/

namespace RabinReward

namespace Graph

/-- One more transition from `i` to `j`. -/
def join (g : Graph) (i j : Nat) : Graph :=
  match g.weight? i j with
  | some w => g.addEdge ⟨i, j, w + 1⟩
  | none => g.addEdge ⟨i, j, 1⟩

variable {γ : Type}

/-- A state and the transitions that leave it. -/
def addState (g : Graph) (i : Nat) (s : State γ) : Graph :=
  s.transitions.foldl (fun g t => g.join i t.destination) (g.addNode i)

def ofStates (states : List (State γ)) : Graph :=
  states.zipIdx.foldl (fun g (s, i) => g.addState i s) empty

end Graph

namespace Machine

def graph (m : Machine) : Graph := .ofStates m.states

/-- The edges of the graph in order. -/
def edges (m : Machine) : List Edge := m.graph.edges.mergeSort Edge.le

end Machine

end RabinReward
