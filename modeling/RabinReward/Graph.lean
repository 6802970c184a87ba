/-!
# Weighted graphs

A graph holds at most one edge for each ordered pair of nodes, and its edges join nodes that it
holds.
-/

namespace RabinReward

/-- An element goes to the end of a list that does not hold it yet. -/
def appendNew {α : Type} [DecidableEq α] (a : α) (l : List α) : List α :=
  if a ∈ l then l else l ++ [a]

section appendNew

variable {α : Type} [DecidableEq α] {a b : α} {l : List α}

@[simp] theorem mem_appendNew : b ∈ appendNew a l ↔ b ∈ l ∨ b = a := by
  unfold appendNew
  split
  · next ha => exact ⟨.inl, fun h => h.elim id fun hb => hb ▸ ha⟩
  · rw [List.mem_append, List.mem_singleton]

theorem nodup_appendNew (h : l.Nodup) : (appendNew a l).Nodup := by
  unfold appendNew
  split
  · exact h
  · next ha =>
    refine List.nodup_append.2 ⟨h, List.nodup_cons.2 ⟨nofun, .nil⟩, fun x hx y hy hxy => ?_⟩
    exact ha (List.mem_singleton.1 hy ▸ hxy ▸ hx)

end appendNew

/-- Parallel transitions between two states. -/
structure Edge where
  source : Nat
  destination : Nat
  weight : Nat
  deriving DecidableEq, Repr

namespace Edge

/-- The nodes that an edge leads from and to. -/
def ends (e : Edge) : Nat × Nat := (e.source, e.destination)

/-- Edges are listed by source, then by destination. -/
def le (a b : Edge) : Bool :=
  a.source < b.source || a.source == b.source && a.destination ≤ b.destination

/-- An edge takes the place of the one with the same ends. -/
def put (e : Edge) : List Edge → List Edge
  | [] => [e]
  | x :: es => if x.ends = e.ends then e :: es else x :: put e es

theorem ends_put (e : Edge) (es : List Edge) :
    (put e es).map ends = appendNew e.ends (es.map ends) := by
  induction es with
  | nil => rfl
  | cons x es ih =>
    by_cases hx : x.ends = e.ends
    · simp only [put, List.map_cons, appendNew, hx, List.mem_cons_self, if_true]
    · have hne : e.ends ≠ x.ends := fun h => hx h.symm
      simp only [put, if_neg hx, List.map_cons, ih, appendNew, List.mem_cons, hne, false_or]
      split <;> rfl

end Edge

/-- Nodes, and weighted edges between them. -/
structure Graph where
  nodes : List Nat
  edges : List Edge
  nodup_nodes : nodes.Nodup
  /-- There is at most one edge for each ordered pair of nodes. -/
  nodup_ends : (edges.map Edge.ends).Nodup
  ends_mem : ∀ p ∈ edges.map Edge.ends, p.1 ∈ nodes ∧ p.2 ∈ nodes

namespace Graph

def empty : Graph := ⟨[], [], .nil, .nil, nofun⟩

def addNode (g : Graph) (i : Nat) : Graph where
  nodes := appendNew i g.nodes
  edges := g.edges
  nodup_nodes := nodup_appendNew g.nodup_nodes
  nodup_ends := g.nodup_ends
  ends_mem p hp := (g.ends_mem p hp).imp (mem_appendNew.2 ∘ .inl) (mem_appendNew.2 ∘ .inl)

/-- An edge, in the place of the one with the same ends, and the nodes that it joins. -/
def addEdge (g : Graph) (e : Edge) : Graph where
  nodes := appendNew e.destination (appendNew e.source g.nodes)
  edges := e.put g.edges
  nodup_nodes := nodup_appendNew (nodup_appendNew g.nodup_nodes)
  nodup_ends := by
    rw [Edge.ends_put]
    exact nodup_appendNew g.nodup_ends
  ends_mem p hp := by
    rw [Edge.ends_put, mem_appendNew] at hp
    simp only [mem_appendNew]
    obtain hp | rfl := hp
    · exact (g.ends_mem p hp).imp (.inl ∘ .inl) (.inl ∘ .inl)
    · exact ⟨.inl (.inr rfl), .inr rfl⟩

/-- The weight of the edge from `i` to `j`. -/
def weight? (g : Graph) (i j : Nat) : Option Nat :=
  (g.edges.find? (·.ends = (i, j))).map (·.weight)

end Graph

end RabinReward
