import RabinReward.Machine.Graph
import RabinReward.Proofs.Machine.DeadState
import Mathlib.Algebra.GroupWithZero.Nat

/-!
# The state graph is faithful

After a prefix of the transitions the graph has an edge for each pair of states that the prefix
joins, weighted with the number of its transitions between them (`Graph.Records`). One more
transition keeps this (`Records.join`), so the graph of all states counts all transitions
(`records_ofStates`). The paths of the graph are the walks along transitions that distances are
measured by (`path_iff_walk`).
-/

namespace RabinReward

/-! ## Edges by their ends -/

namespace Edge

theorem find?_put (e : Edge) (es : List Edge) (p : Nat × Nat) :
    (put e es).find? (·.ends = p) = if e.ends = p then some e else es.find? (·.ends = p) := by
  induction es with
  | nil =>
    by_cases hp : e.ends = p
    · simp only [put, List.find?_cons, hp, decide_true, if_true]
    · simp only [put, List.find?_cons, hp, decide_false, if_false]
  | cons x es ih =>
    unfold put
    by_cases hx : x.ends = e.ends
    · rw [if_pos hx]
      by_cases hp : e.ends = p
      · simp only [List.find?_cons, hp, decide_true, if_true]
      · simp only [List.find?_cons, hx, hp, decide_false, if_false]
    · rw [if_neg hx, List.find?_cons, List.find?_cons, ih]
      by_cases hp : x.ends = p
      · have he : e.ends ≠ p := fun h => hx (hp.trans h.symm)
        simp only [hp, decide_true, he, if_false]
      · simp only [hp, decide_false]

/-- The total weight changes by the difference to the edge that is replaced. -/
theorem sum_weight_put (e : Edge) (es : List Edge) :
    ((put e es).map weight).sum + ((es.find? (·.ends = e.ends)).map weight).getD 0 =
      (es.map weight).sum + e.weight := by
  induction es with
  | nil => exact (Nat.zero_add e.weight).symm
  | cons x es ih =>
    by_cases hx : x.ends = e.ends
    · simp only [put, hx, if_true, List.find?_cons, decide_true, Option.map_some, Option.getD_some,
        List.map_cons, List.sum_cons]
      omega
    · simp only [put, hx, if_false, List.find?_cons, decide_false, List.map_cons, List.sum_cons]
      omega

end Edge

namespace Graph

variable {γ : Type} {g : Graph} {i j k : Nat}

/-! ## Weights -/

theorem weight?_eq_some_iff {w : Nat} : g.weight? i j = some w ↔ ⟨i, j, w⟩ ∈ g.edges := by
  rw [weight?, Option.map_eq_some_iff]
  constructor
  · rintro ⟨e, he, rfl⟩
    have hends := List.find?_some he
    obtain ⟨rfl, rfl⟩ := Prod.mk.inj (of_decide_eq_true hends)
    exact List.mem_of_find?_eq_some he
  · intro hmem
    cases hfind : g.edges.find? (·.ends = (i, j)) with
    | none => exact absurd (decide_eq_true rfl) (List.find?_eq_none.1 hfind _ hmem)
    | some e =>
      have hends := List.find?_some hfind
      have he := List.inj_on_of_nodup_map g.nodup_ends (List.mem_of_find?_eq_some hfind) hmem
        (of_decide_eq_true hends)
      exact ⟨e, rfl, congrArg Edge.weight he⟩

theorem weight?_addEdge (g : Graph) (e : Edge) :
    (g.addEdge e).weight? i j = if e.ends = (i, j) then some e.weight else g.weight? i j := by
  simp only [weight?, addEdge, Edge.find?_put]
  split <;> rfl

theorem join_eq (g : Graph) (i j : Nat) :
    g.join i j = g.addEdge ⟨i, j, (g.weight? i j).getD 0 + 1⟩ := by
  unfold join
  cases g.weight? i j <;> rfl

theorem mem_nodes_join : k ∈ (g.join i j).nodes ↔ (k ∈ g.nodes ∨ k = i) ∨ k = j := by
  rw [join_eq, addEdge, mem_appendNew, mem_appendNew]

theorem weight?_join {i' j' : Nat} : (g.join i j).weight? i' j' =
    if (i, j) = (i', j') then some ((g.weight? i j).getD 0 + 1) else g.weight? i' j' := by
  rw [join_eq, weight?_addEdge]
  rfl

theorem sum_weight_join :
    ((g.join i j).edges.map Edge.weight).sum = (g.edges.map Edge.weight).sum + 1 := by
  have h : ((g.join i j).edges.map Edge.weight).sum + (g.weight? i j).getD 0 =
      (g.edges.map Edge.weight).sum + ((g.weight? i j).getD 0 + 1) := by
    rw [join_eq]
    exact Edge.sum_weight_put ⟨i, j, (g.weight? i j).getD 0 + 1⟩ g.edges
  omega

/-! ## The graph of a prefix -/

/-- The weight of an edge for a number of transitions: there is no edge for none. -/
def weightOf : Nat → Option Nat
  | 0 => none
  | n + 1 => some (n + 1)

@[simp] theorem getD_weightOf (n : Nat) : (weightOf n).getD 0 = n := by cases n <;> rfl

theorem weightOf_eq_some_iff {n w : Nat} : weightOf n = some w ↔ 0 < n ∧ n = w := by
  cases n with
  | zero => exact ⟨nofun, fun h => absurd h.1 (Nat.lt_irrefl 0)⟩
  | succ n => rw [weightOf, Option.some_inj, and_iff_right (Nat.succ_pos n)]

/-- The graph of the states `visited` and of transitions that lead between the given ends. -/
structure Records (g : Graph) (visited : List Nat) (ends : List (Nat × Nat)) : Prop where
  nodes : ∀ k, k ∈ g.nodes ↔ k ∈ visited ∨ ∃ p ∈ ends, p.1 = k ∨ p.2 = k
  weight? : ∀ i j, g.weight? i j = weightOf (ends.count (i, j))
  total : (g.edges.map Edge.weight).sum = ends.length

variable {visited : List Nat} {ends : List (Nat × Nat)}

theorem records_empty : empty.Records [] [] :=
  ⟨fun _ => by simp [empty], fun _ _ => rfl, rfl⟩

theorem Records.addNode (h : g.Records visited ends) (i : Nat) :
    (g.addNode i).Records (visited ++ [i]) ends where
  nodes k := by
    rw [Graph.addNode, mem_appendNew, h.nodes, List.mem_append, List.mem_singleton, or_right_comm]
  weight? := h.weight?
  total := h.total

theorem Records.join (h : g.Records visited ends) (i j : Nat) :
    (g.join i j).Records visited (ends ++ [(i, j)]) where
  nodes k := by
    simp only [mem_nodes_join, h.nodes, List.mem_append, List.mem_singleton, or_and_right,
      exists_or, exists_eq_left, eq_comm (a := k), or_assoc]
  weight? i' j' := by
    rw [weight?_join, List.count_append, List.count_singleton]
    by_cases hp : (i, j) = (i', j')
    · obtain ⟨rfl, rfl⟩ := Prod.mk.inj hp
      rw [if_pos rfl, h.weight?, getD_weightOf, beq_self_eq_true, if_pos rfl, weightOf]
    · rw [if_neg hp, h.weight?, beq_false_of_ne hp, if_neg Bool.false_ne_true, Nat.add_zero]
  total := by
    rw [sum_weight_join, h.total, List.length_append, List.length_singleton]

def endsOf (i : Nat) (ts : List (Transition γ)) : List (Nat × Nat) :=
  ts.map fun t => (i, t.destination)

theorem count_endsOf (i j : Nat) (ts : List (Transition γ)) :
    (endsOf i ts).count (i, j) = ts.countP (·.destination = j) := by
  rw [endsOf, List.count_eq_countP, List.countP_map]
  refine List.countP_congr fun t _ => ?_
  simp only [Function.comp_apply, beq_iff_eq, Prod.mk.injEq, true_and, decide_eq_true_eq]

theorem count_endsOf_of_ne (h : i ≠ k) (j : Nat) (ts : List (Transition γ)) :
    (endsOf i ts).count (k, j) = 0 := by
  refine List.count_eq_zero_of_not_mem fun hmem => ?_
  obtain ⟨t, -, ht⟩ := List.mem_map.1 hmem
  exact h (Prod.mk.inj ht).1

theorem Records.joins (h : g.Records visited ends) (i : Nat) (ts : List (Transition γ)) :
    (ts.foldl (fun g t => g.join i t.destination) g).Records visited (ends ++ endsOf i ts) := by
  induction ts generalizing g ends with
  | nil =>
    rw [endsOf, List.map_nil, List.append_nil]
    exact h
  | cons t ts ih =>
    rw [endsOf, List.map_cons, List.append_cons]
    exact ih (h.join i t.destination)

theorem Records.addState (h : g.Records visited ends) (i : Nat) (s : State γ) :
    (g.addState i s).Records (visited ++ [i]) (ends ++ endsOf i s.transitions) :=
  (h.addNode i).joins i s.transitions

/-- The ends of all transitions; states are numbered from `n`. -/
def allEnds (n : Nat) : List (State γ) → List (Nat × Nat)
  | [] => []
  | s :: rest => endsOf n s.transitions ++ allEnds (n + 1) rest

theorem Records.addStates (h : g.Records visited ends) (n : Nat) (states : List (State γ)) :
    ((states.zipIdx n).foldl (fun g (s, i) => g.addState i s) g).Records
      (visited ++ List.range' n states.length) (ends ++ allEnds n states) := by
  induction states generalizing g visited ends n with
  | nil =>
    rw [allEnds, List.length_nil, List.range'_zero, List.append_nil, List.append_nil]
    exact h
  | cons s rest ih =>
    rw [allEnds, List.length_cons, List.range'_succ, List.append_cons visited,
      ← List.append_assoc ends]
    exact ih (h.addState n s) (n + 1)

theorem records_ofStates (states : List (State γ)) :
    (ofStates states).Records (List.range states.length) (allEnds 0 states) := by
  have h := records_empty.addStates 0 states
  rwa [List.nil_append, List.nil_append, ← List.range_eq_range'] at h

theorem le_of_mem_allEnds {n : Nat} {states : List (State γ)} {p : Nat × Nat}
    (h : p ∈ allEnds n states) : n ≤ p.1 := by
  induction states generalizing n with
  | nil => cases h
  | cons s rest ih =>
    obtain hs | hrest := List.mem_append.1 h
    · obtain ⟨t, -, rfl⟩ := List.mem_map.1 hs
      exact Nat.le_refl n
    · exact Nat.le_of_succ_le (ih hrest)

/-- There are as many pairs of ends `(n + i, j)` as parallel transitions. -/
theorem count_allEnds (n i j : Nat) (states : List (State γ)) :
    (allEnds n states).count (n + i, j) =
    ((states[i]?.map State.transitions).getD []).countP (·.destination = j) := by
  induction states generalizing n i with
  | nil => rfl
  | cons s rest ih =>
    rw [allEnds, List.count_append]
    cases i with
    | zero =>
      have hrest : (allEnds (n + 1) rest).count (n, j) = 0 :=
        List.count_eq_zero_of_not_mem fun h => Nat.not_succ_le_self n (le_of_mem_allEnds h)
      rw [Nat.add_zero, hrest, count_endsOf, Nat.add_zero]
      rfl
    | succ i =>
      rw [count_endsOf_of_ne (by omega), Nat.zero_add, List.getElem?_cons_succ, ← ih (n + 1) i]
      congr 2
      omega

theorem length_allEnds (n : Nat) (states : List (State γ)) :
    (allEnds n states).length = (states.flatMap State.transitions).length := by
  induction states generalizing n with
  | nil => rfl
  | cons s rest ih =>
    rw [allEnds, List.flatMap_cons, List.length_append, List.length_append, ih, endsOf,
      List.length_map]

/-! ## Paths -/

inductive Path (g : Graph) : Nat → Nat → Nat → Prop where
  | nil {i : Nat} : i ∈ g.nodes → Path g 0 i i
  | cons {k j : Nat} {e : Edge} : e ∈ g.edges → Path g k e.destination j → Path g (k + 1) e.source j

end Graph

namespace Machine

variable {m : Machine} {i j k : Nat}

def parallel (m : Machine) (i j : Nat) : Nat := (m.transitions i).countP (·.destination = j)

theorem parallel_pos_iff : 0 < m.parallel i j ↔ ∃ t ∈ m.transitions i, t.destination = j := by
  simp only [parallel, List.countP_pos_iff, decide_eq_true_eq]

theorem count_allEnds_states (m : Machine) (i j : Nat) :
    (Graph.allEnds 0 m.states).count (i, j) = m.parallel i j := by
  have h := Graph.count_allEnds 0 i j m.states
  rwa [Nat.zero_add] at h

theorem mem_graph_edges {e : Edge} :
    e ∈ m.graph.edges ↔ 0 < e.weight ∧ e.weight = m.parallel e.source e.destination := by
  rw [← Graph.weight?_eq_some_iff, graph, (Graph.records_ofStates m.states).weight?,
    count_allEnds_states, Graph.weightOf_eq_some_iff]
  constructor
  · rintro ⟨hpos, heq⟩
    exact ⟨heq ▸ hpos, heq.symm⟩
  · rintro ⟨hpos, heq⟩
    exact ⟨heq ▸ hpos, heq.symm⟩

theorem exists_edge_iff : (∃ e ∈ m.graph.edges, e.source = i ∧ e.destination = j) ↔
    ∃ t ∈ m.transitions i, t.destination = j := by
  rw [← parallel_pos_iff]
  constructor
  · rintro ⟨e, he, rfl, rfl⟩
    obtain ⟨hpos, heq⟩ := mem_graph_edges.1 he
    exact heq ▸ hpos
  · exact fun h => ⟨⟨i, j, m.parallel i j⟩, mem_graph_edges.2 ⟨h, rfl⟩, rfl, rfl⟩

theorem sum_weight_graph (m : Machine) :
    (m.graph.edges.map Edge.weight).sum = (m.states.flatMap State.transitions).length :=
  (Graph.records_ofStates m.states).total.trans (Graph.length_allEnds 0 m.states)

theorem WellFormed.mem_graph_nodes (hm : m.WellFormed) :
    i ∈ m.graph.nodes ↔ i < m.states.length := by
  rw [graph, (Graph.records_ofStates m.states).nodes, List.mem_range]
  refine ⟨?_, .inl⟩
  rintro (hi | ⟨⟨a, b⟩, hp, hends⟩)
  · exact hi
  · have hpos := List.count_pos_iff.2 hp
    rw [count_allEnds_states] at hpos
    obtain ⟨t, ht, rfl⟩ := parallel_pos_iff.1 hpos
    obtain rfl | rfl := hends
    · obtain ⟨s, hs, -⟩ := mem_transitions.1 ht
      exact (List.getElem?_eq_some_iff.1 hs).1
    · exact hm.destination_lt_of_mem ht

/-- The paths of the graph are the walks along transitions. -/
theorem WellFormed.path_iff_walk (hm : m.WellFormed) :
    m.graph.Path k i j ↔ i < m.states.length ∧ Walk m.states k i j := by
  constructor
  · intro h
    induction h with
    | nil hi => exact ⟨hm.mem_graph_nodes.1 hi, .refl _⟩
    | @cons _ _ e he _ ih =>
      obtain ⟨t, ht, hdest⟩ := exists_edge_iff.1 ⟨e, he, rfl, rfl⟩
      obtain ⟨s, hs, ht⟩ := mem_transitions.1 ht
      exact ⟨(List.getElem?_eq_some_iff.1 hs).1, .step hs ht (hdest ▸ ih.2)⟩
  · rintro ⟨hi, hw⟩
    induction hw with
    | refl => exact .nil (hm.mem_graph_nodes.2 hi)
    | step hs ht _ ih =>
      have ht := mem_transitions.2 ⟨_, hs, ht⟩
      obtain ⟨e, he, rfl, hdest⟩ := exists_edge_iff.2 ⟨_, ht, rfl⟩
      exact .cons he (hdest ▸ ih (hm.destination_lt_of_mem ht))

def PathToGoal (m : Machine) (k i : Nat) : Prop :=
  ∃ j, m.graph.Path k i j ∧ AcceptsAt m.pairs m.states j

theorem WellFormed.pathToGoal_iff (hm : m.WellFormed) :
    m.PathToGoal k i ↔ ReachesIn m.pairs m.states k i := by
  simp only [PathToGoal, hm.path_iff_walk]
  constructor
  · rintro ⟨j, ⟨-, hw⟩, hj⟩
    exact ⟨j, hw, hj⟩
  · intro h
    have hi := h.lt_length
    obtain ⟨j, hw, hj⟩ := h
    exact ⟨j, ⟨hi, hw⟩, hj⟩

/-- **The state graph is faithful.** Its nodes are the states, with one edge for each pair of states
that transitions join, weighted with the number of these transitions, so that the weights sum to the
number of all transitions. The distance of a state is the length of a shortest path of the graph to
an accepting state, and infinite if there is no such path. -/
theorem graph_faithful {states : List (State Predicate)} {initial : Nat} {pairs : List RabinPair}
    {config : Config} {m : Machine} (h : ofStates states initial pairs config = .ok m) :
    m.graph.nodes.Perm (List.range m.states.length) ∧
    (∀ i j, (∃ e ∈ m.graph.edges, e.source = i ∧ e.destination = j) ↔
      ∃ t ∈ m.transitions i, t.destination = j) ∧
    (m.graph.edges.map Edge.ends).Nodup ∧
    (∀ e ∈ m.graph.edges, e.weight = m.parallel e.source e.destination) ∧
    (m.graph.edges.map Edge.weight).sum = (m.states.flatMap State.transitions).length ∧
    m.edges.Perm m.graph.edges ∧
    (∀ i k, m.distances[i]? = some (.finite k) ↔ IsLeast {k | m.PathToGoal k i} k) ∧
    ∀ i, m.distances[i]? = some .infinite ↔ i < m.states.length ∧ ∀ k, ¬m.PathToGoal k i := by
  obtain ⟨hm, -, -, -, -⟩ := ofStates_eq_ok_iff.1 h
  simp only [hm.pathToGoal_iff]
  refine ⟨?_, fun i j => exists_edge_iff, m.graph.nodup_ends,
    fun e he => (mem_graph_edges.1 he).2, sum_weight_graph m, List.mergeSort_perm _ _,
    fun i k => ?_, fun i => ?_⟩
  · refine (List.perm_ext_iff_of_nodup m.graph.nodup_nodes List.nodup_range).2 fun i => ?_
    rw [hm.mem_graph_nodes, List.mem_range]
  · rw [hm.distances_eq]
    exact Distance.getElem?_toGoal_finite
  · rw [hm.getElem?_distances, hm.distance_eq_infinite_iff]

/-- State 0 of `fork` leads to states 1 and 2; the loop of state 2 counts twice. -/
theorem graph_faithful_fork :
    ofStates fork.states 0 fork.pairs ⟨false, false⟩ = .ok fork ∧
    fork.graph.nodes = [0, 1, 2] ∧
    fork.graph.edges = [⟨0, 1, 1⟩, ⟨0, 2, 1⟩, ⟨1, 1, 1⟩, ⟨2, 2, 2⟩] ∧
    (fork.graph.edges.map Edge.weight).sum = 5 ∧
    IsLeast {k | fork.PathToGoal k 0} 1 ∧ (∀ k, ¬fork.PathToGoal k 2) := by
  have hmade : ofStates fork.states 0 fork.pairs ⟨false, false⟩ = .ok fork := rfl
  obtain ⟨-, -, -, -, hsum, -, hfinite, hinfinite⟩ := graph_faithful hmade
  exact ⟨hmade, rfl, rfl, hsum, (hfinite 0 1).1 rfl, ((hinfinite 2).1 rfl).2⟩

end Machine

end RabinReward
