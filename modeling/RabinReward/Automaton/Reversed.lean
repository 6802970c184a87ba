import RabinReward.Automaton.Distance
import RabinReward.Graph

/-!
# The search from the goal

The distances of all states come out of one search. It runs on a graph in which every transition is
turned around and a goal, numbered after the states, leads to every state that accepts. The edges
of the goal cost nothing and all others one, so a state is reached from the goal at the number of
transitions that lead from it to acceptance.

The search settles the cheapest node of the frontier at a time (`Graph.dijkstra`). The destinations
are states: the constructor of a machine refuses others before it measures distances.
-/

namespace RabinReward

/-- Nodes with what it costs to reach them. -/
abbrev Costs := List (Nat × Nat)

namespace Graph

/-- The nodes one edge beyond the settled ones, once for each such edge. -/
def frontier (g : Graph) (cost : Edge → Nat) (settled : Costs) : Costs :=
  settled.flatMap fun (i, c) =>
    (g.edges.filter fun e => e.source = i ∧ settled.lookup e.destination = none).map
      fun e => (e.destination, c + cost e)

/-- Settles at most the given number of nodes. -/
def settle (g : Graph) (cost : Edge → Nat) : Nat → Costs → Costs
  | 0, settled => settled
  | n + 1, settled =>
    match (g.frontier cost settled).minOn? Prod.snd with
    | none => settled
    | some x => g.settle cost n (x :: settled)

/-- The nodes that can be reached from the start, with the least costs. -/
def dijkstra (g : Graph) (start : Nat) (cost : Edge → Nat) : Costs :=
  g.settle cost g.nodes.length [(start, 0)]

variable {γ : Type}

/-- A state, with an edge from each of its destinations and one from the goal if it accepts. -/
def addReversed (pairs : List RabinPair) (goal : Nat) (g : Graph) (i : Nat) (s : State γ) : Graph :=
  let g := s.transitions.foldl (fun g t => g.addEdge ⟨t.destination, i, 1⟩) (g.addNode i)
  if s.accepting pairs then g.addEdge ⟨goal, i, 1⟩ else g

def reversed (pairs : List RabinPair) (states : List (State γ)) : Graph :=
  let goal := states.length
  (states.zipIdx.foldl (fun g (s, i) => g.addReversed pairs goal i s) empty).addNode goal

end Graph

namespace Distance

/-- What an edge costs. -/
def hop (goal : Nat) (e : Edge) : Nat := if e.source = goal then 0 else 1

/-- The distances of all states, and the largest finite one. -/
def search {γ : Type} (pairs : List RabinPair) (states : List (State γ)) : Array Distance × Nat :=
  let goal := states.length
  let hops := (Graph.reversed pairs states).dijkstra goal (hop goal)
  let distances := (List.range goal).map fun i => (hops.lookup i).elim .infinite .finite
  (distances.toArray, (distances.filterMap finite?).max?.getD 0)

end Distance

end RabinReward
