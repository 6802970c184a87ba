import RabinReward.Automaton.Reversed
import RabinReward.Proofs.Automaton.Distance
import Mathlib.Data.List.Perm.Subperm

/-!
# The search finds the distances

Dijkstra's algorithm keeps the least cost of every node that it has settled (`Graph.Settled`). A
path to any other node leaves the settled ones through the frontier, so it costs at least as much as
the cheapest node there (`Settled.exists_frontier_le`), which may be settled next. When nothing is
left of the frontier all nodes that can be reached are settled. On the reversed graph the costs from
the goal are the numbers of transitions that lead to acceptance (`reachesAt_reversed_iff`), so the
search computes the same table as relaxation (`search_eq`).
-/

namespace RabinReward

theorem Distance.hop_of_eq {goal : Nat} {e : Edge} (h : e.source = goal) : hop goal e = 0 :=
  if_pos h

theorem Distance.hop_of_ne {goal : Nat} {e : Edge} (h : e.source ≠ goal) : hop goal e = 1 :=
  if_neg h

namespace Graph

variable {g : Graph} {cost : Edge → Nat} {start i c : Nat} {settled : Costs}

inductive ReachesAt (g : Graph) (cost : Edge → Nat) (start : Nat) : Nat → Nat → Prop where
  | start : ReachesAt g cost start start 0
  | step {e : Edge} {c : Nat} : e ∈ g.edges → ReachesAt g cost start e.source c →
      ReachesAt g cost start e.destination (c + cost e)

abbrev costsTo (g : Graph) (cost : Edge → Nat) (start i : Nat) : Set Nat :=
  {c | ReachesAt g cost start i c}

theorem edge_mem_nodes {e : Edge} (he : e ∈ g.edges) : e.destination ∈ g.nodes :=
  (g.ends_mem e.ends (List.mem_map_of_mem he)).2

theorem mem_frontier {x : Nat × Nat} : x ∈ g.frontier cost settled ↔
    ∃ i c, (i, c) ∈ settled ∧ ∃ e ∈ g.edges, e.source = i ∧
      settled.lookup e.destination = none ∧ (e.destination, c + cost e) = x := by
  simp only [frontier, List.mem_flatMap, List.mem_map, List.mem_filter, Prod.exists,
    decide_eq_true_eq, and_assoc]

/-! ## Settled nodes -/

/-- What the search keeps. -/
structure Settled (g : Graph) (cost : Edge → Nat) (start : Nat) (settled : Costs) : Prop where
  nodup : (settled.map Prod.fst).Nodup
  mem_nodes : ∀ x ∈ settled, x.1 ∈ g.nodes
  start_mem : (start, 0) ∈ settled
  isLeast : ∀ x ∈ settled, IsLeast (g.costsTo cost start x.1) x.2

theorem Settled.singleton (hstart : start ∈ g.nodes) : g.Settled cost start [(start, 0)] where
  nodup := List.nodup_singleton start
  mem_nodes x hx := by
    obtain rfl := List.mem_singleton.1 hx
    exact hstart
  start_mem := List.mem_singleton_self _
  isLeast x hx := by
    obtain rfl := List.mem_singleton.1 hx
    exact ⟨.start, fun c _ => Nat.zero_le c⟩

theorem lookup_eq_none_iff : settled.lookup i = none ↔ ∀ c, (i, c) ∉ settled := by
  simp only [List.lookup_eq_none_iff, bne_iff_ne, Prod.forall]
  exact ⟨fun h c hc => h i c hc rfl, fun h a b hab hia => h b (hia ▸ hab)⟩

theorem Settled.lookup_eq_some_iff (h : g.Settled cost start settled) :
    settled.lookup i = some c ↔ (i, c) ∈ settled := by
  constructor
  · intro hlookup
    obtain ⟨l, l', rfl, -⟩ := List.lookup_eq_some_iff.1 hlookup
    exact List.mem_append_right l List.mem_cons_self
  · intro hmem
    cases hlookup : settled.lookup i with
    | none => exact absurd hmem (lookup_eq_none_iff.1 hlookup c)
    | some c' =>
      obtain ⟨l, l', rfl, -⟩ := List.lookup_eq_some_iff.1 hlookup
      have hmem' : (i, c') ∈ l ++ (i, c') :: l' := List.mem_append_right l List.mem_cons_self
      exact congrArg some (congrArg Prod.snd (List.inj_on_of_nodup_map h.nodup hmem' hmem rfl))

/-- A path to a node that is not settled leaves the settled ones through the frontier. -/
theorem Settled.exists_frontier_le (h : g.Settled cost start settled)
    (hreach : g.ReachesAt cost start i c) (hi : settled.lookup i = none) :
    ∃ x ∈ g.frontier cost settled, x.2 ≤ c := by
  induction hreach with
  | start => exact absurd h.start_mem (lookup_eq_none_iff.1 hi 0)
  | @step e c he hreach ih =>
    cases hsource : settled.lookup e.source with
    | none =>
      obtain ⟨x, hx, hle⟩ := ih hsource
      exact ⟨x, hx, Nat.le_add_right_of_le hle⟩
    | some c' =>
      have hmem := h.lookup_eq_some_iff.1 hsource
      have hle : c' ≤ c := (h.isLeast _ hmem).2 hreach
      exact ⟨_, mem_frontier.2 ⟨_, _, hmem, e, he, rfl, hi, rfl⟩, Nat.add_le_add_right hle _⟩

theorem snd_le_of_minOn? {l : Costs} {x y : Nat × Nat} (hx : l.minOn? Prod.snd = some x)
    (hy : y ∈ l) : x.2 ≤ y.2 := by
  have hle := List.apply_get_minOn?_le_of_mem (f := Prod.snd) hy
  simpa only [hx, Option.get_some] using hle

/-- The cheapest node of the frontier can be settled. -/
theorem Settled.cons (h : g.Settled cost start settled) {x : Nat × Nat}
    (hx : (g.frontier cost settled).minOn? Prod.snd = some x) :
    g.Settled cost start (x :: settled) := by
  obtain ⟨i, c, hmem, e, he, rfl, hnew, rfl⟩ := mem_frontier.1 (List.minOn?_mem hx)
  have hreach : g.ReachesAt cost start e.destination (c + cost e) :=
    .step he (h.isLeast _ hmem).1
  have hfresh : e.destination ∉ settled.map Prod.fst := fun hdup => by
    obtain ⟨⟨_, c'⟩, hc', rfl⟩ := List.mem_map.1 hdup
    exact lookup_eq_none_iff.1 hnew c' hc'
  have hcheapest : ∀ c', g.ReachesAt cost start e.destination c' → c + cost e ≤ c' := by
    intro c' hc'
    obtain ⟨y, hy, hle⟩ := h.exists_frontier_le hc' hnew
    exact Nat.le_trans (snd_le_of_minOn? hx hy) hle
  exact {
    nodup := List.nodup_cons.2 ⟨hfresh, h.nodup⟩
    mem_nodes := List.forall_mem_cons.2 ⟨edge_mem_nodes he, h.mem_nodes⟩
    start_mem := List.mem_cons_of_mem _ h.start_mem
    isLeast := List.forall_mem_cons.2 ⟨⟨hreach, hcheapest⟩, h.isLeast⟩ }

theorem Settled.length_le (h : g.Settled cost start settled) : settled.length ≤ g.nodes.length := by
  have hsubset : settled.map Prod.fst ⊆ g.nodes := fun i hi => by
    obtain ⟨x, hx, rfl⟩ := List.mem_map.1 hi
    exact h.mem_nodes x hx
  have hle := (List.subperm_of_subset h.nodup hsubset).length_le
  rwa [List.length_map] at hle

theorem Settled.settle (h : g.Settled cost start settled) {n : Nat}
    (hn : g.nodes.length < settled.length + n) :
    g.Settled cost start (g.settle cost n settled) ∧
      g.frontier cost (g.settle cost n settled) = [] := by
  induction n generalizing settled with
  | zero => exact absurd h.length_le (Nat.not_le_of_lt hn)
  | succ n ih =>
    rw [Graph.settle]
    split
    · next hnone =>
      refine ⟨h, by_contra fun hne => ?_⟩
      rw [List.minOn?_eq_some_minOn hne] at hnone
      cases hnone
    · next x hx =>
      refine ih (h.cons hx) ?_
      rw [List.length_cons]
      omega

/-- The search finds the least costs, of the nodes that can be reached and of no others. -/
theorem lookup_dijkstra_eq_some_iff (hstart : start ∈ g.nodes) :
    (g.dijkstra start cost).lookup i = some c ↔ IsLeast (g.costsTo cost start i) c := by
  have hsingle : g.Settled cost start [(start, 0)] := .singleton hstart
  obtain ⟨h, hdone⟩ := hsingle.settle (Nat.lt_add_of_pos_left Nat.one_pos)
  rw [dijkstra, h.lookup_eq_some_iff]
  refine ⟨fun hmem => h.isLeast _ hmem, fun hleast => ?_⟩
  cases hlookup : (g.settle cost g.nodes.length [(start, 0)]).lookup i with
  | none =>
    obtain ⟨x, hx, -⟩ := h.exists_frontier_le hleast.1 hlookup
    rw [hdone] at hx
    cases hx
  | some c' =>
    have hmem := h.lookup_eq_some_iff.1 hlookup
    rwa [hleast.unique (h.isLeast _ hmem)]

/-! ## The reversed graph -/

variable {γ : Type} {pairs : List RabinPair} {states : List (State γ)}

/-- Turned around, a transition of the state comes from the source; the goal leads to a state that
accepts. -/
def Reverses (pairs : List RabinPair) (goal : Nat) (s : State γ) (source : Nat) : Prop :=
  (∃ t ∈ s.transitions, t.destination = source) ∨ s.accepting pairs = true ∧ source = goal

theorem mem_ends_addEdge {e : Edge} {p : Nat × Nat} :
    p ∈ (g.addEdge e).edges.map Edge.ends ↔ p ∈ g.edges.map Edge.ends ∨ p = e.ends := by
  rw [addEdge, Edge.ends_put, mem_appendNew]

theorem mem_ends_addEdges {ts : List (Transition γ)} {i j k : Nat} :
    (j, k) ∈ (ts.foldl (fun g t => g.addEdge ⟨t.destination, i, 1⟩) g).edges.map Edge.ends ↔
      (j, k) ∈ g.edges.map Edge.ends ∨ k = i ∧ ∃ t ∈ ts, t.destination = j := by
  induction ts generalizing g with
  | nil => simp
  | cons t ts ih =>
    rw [List.foldl_cons, ih, mem_ends_addEdge, List.exists_mem_cons_iff, or_assoc, and_or_left]
    simp only [Edge.ends, Prod.mk.injEq, eq_comm (a := j), and_comm (a := k = i)]

theorem mem_ends_addReversed {goal i j k : Nat} {s : State γ} :
    (j, k) ∈ (g.addReversed pairs goal i s).edges.map Edge.ends ↔
      (j, k) ∈ g.edges.map Edge.ends ∨ k = i ∧ Reverses pairs goal s j := by
  unfold addReversed Reverses
  split
  · next haccept =>
    rw [mem_ends_addEdge, mem_ends_addEdges, addNode, haccept, and_or_left, or_assoc]
    simp only [Edge.ends, Prod.mk.injEq, true_and, and_comm (a := j = goal)]
  · next hreject =>
    rw [mem_ends_addEdges, addNode, Bool.eq_false_iff.2 hreject]
    simp only [Bool.false_eq_true, false_and, or_false]

theorem mem_ends_addAllReversed {l : List (State γ × Nat)} {goal j k : Nat} :
    (j, k) ∈ (l.foldl (fun g x => g.addReversed pairs goal x.2 x.1) g).edges.map Edge.ends ↔
      (j, k) ∈ g.edges.map Edge.ends ∨ ∃ s, (s, k) ∈ l ∧ Reverses pairs goal s j := by
  induction l generalizing g with
  | nil => simp
  | cons x l ih =>
    rw [List.foldl_cons, ih, mem_ends_addReversed, or_assoc]
    refine or_congr_right ⟨?_, ?_⟩
    · rintro (⟨rfl, hx⟩ | ⟨s, hs, hj⟩)
      · exact ⟨x.1, List.mem_cons_self, hx⟩
      · exact ⟨s, List.mem_cons_of_mem x hs, hj⟩
    · rintro ⟨s, hs, hj⟩
      rcases List.mem_cons.1 hs with rfl | hs
      · exact .inl ⟨rfl, hj⟩
      · exact .inr ⟨s, hs, hj⟩

theorem mem_ends_reversed {j k : Nat} :
    (j, k) ∈ (reversed pairs states).edges.map Edge.ends ↔
      ∃ s, states[k]? = some s ∧ Reverses pairs states.length s j := by
  rw [reversed, addNode, mem_ends_addAllReversed]
  simp only [empty, List.map_nil, List.not_mem_nil, false_or, List.mem_zipIdx_iff_getElem?]

theorem goal_mem_nodes : states.length ∈ (reversed pairs states).nodes := by
  rw [reversed, addNode, mem_appendNew]
  exact .inr rfl

theorem exists_edge_reversed {j k : Nat} {s : State γ} (hs : states[k]? = some s)
    (hj : Reverses pairs states.length s j) :
    ∃ e ∈ (reversed pairs states).edges, e.source = j ∧ e.destination = k := by
  obtain ⟨e, he, hends⟩ := List.mem_map.1 (mem_ends_reversed.2 ⟨s, hs, hj⟩)
  cases hends
  exact ⟨e, he, rfl, rfl⟩

theorem reachesIn_of_reachesAt
    (h : ∀ s ∈ states, ∀ t ∈ s.transitions, t.destination < states.length) {i c : Nat}
    (hreach : (reversed pairs states).ReachesAt (Distance.hop states.length) states.length i c) :
    i = states.length ∧ c = 0 ∨ ReachesIn pairs states c i := by
  induction hreach with
  | start => exact .inl ⟨rfl, rfl⟩
  | @step e c he _ ih =>
    obtain ⟨s, hs, ⟨t, ht, hsource⟩ | ⟨haccept, hsource⟩⟩ :=
      mem_ends_reversed.1 (List.mem_map_of_mem (f := Edge.ends) he)
    · have hlt : e.source < states.length := hsource ▸ h s (List.mem_of_getElem? hs) t ht
      rw [Distance.hop_of_ne hlt.ne]
      obtain ⟨hgoal, -⟩ | hreach := ih
      · exact absurd hgoal hlt.ne
      · exact .inr (reachesIn_succ.2 ⟨s, hs, t, ht, hsource ▸ hreach⟩)
    · rw [Distance.hop_of_eq hsource]
      obtain ⟨-, rfl⟩ | hreach := ih
      · exact .inr (reachesIn_zero.2 ⟨s, hs, haccept⟩)
      · exact absurd hreach.lt_length (Nat.not_lt_of_le (Nat.le_of_eq hsource.symm))

theorem reachesAt_of_reachesIn {i c : Nat} (hreach : ReachesIn pairs states c i) :
    (reversed pairs states).ReachesAt (Distance.hop states.length) states.length i c := by
  induction c generalizing i with
  | zero =>
    obtain ⟨s, hs, haccept⟩ := reachesIn_zero.1 hreach
    obtain ⟨e, he, hsource, rfl⟩ := exists_edge_reversed hs (.inr ⟨haccept, rfl⟩)
    have hstart : (reversed pairs states).ReachesAt (Distance.hop states.length) states.length
        e.source 0 := by
      rw [hsource]
      exact .start
    have hstep := ReachesAt.step he hstart
    rwa [Distance.hop_of_eq hsource] at hstep
  | succ c ih =>
    obtain ⟨s, hs, t, ht, hnext⟩ := reachesIn_succ.1 hreach
    obtain ⟨e, he, hsource, rfl⟩ := exists_edge_reversed hs (.inl ⟨t, ht, rfl⟩)
    have hstep := ReachesAt.step he (hsource ▸ ih hnext)
    rwa [Distance.hop_of_ne (hsource ▸ hnext.lt_length.ne)] at hstep

theorem reachesAt_reversed_iff
    (h : ∀ s ∈ states, ∀ t ∈ s.transitions, t.destination < states.length) {i c : Nat} :
    (reversed pairs states).ReachesAt (Distance.hop states.length) states.length i c ↔
      i = states.length ∧ c = 0 ∨ ReachesIn pairs states c i := by
  refine ⟨reachesIn_of_reachesAt h, ?_⟩
  rintro (⟨rfl, rfl⟩ | hreach)
  · exact .start
  · exact reachesAt_of_reachesIn hreach

end Graph

/-! ## The table -/

namespace Distance

variable {γ : Type} {pairs : List RabinPair} {states : List (State γ)}

theorem max?_finite_eq (l : List Distance) :
    (l.filterMap finite?).max?.getD 0 = largest l.toArray := by
  rw [largest_eq]
  induction l with
  | nil => rfl
  | cons d l ih =>
    cases d with
    | infinite =>
      rw [List.filterMap_cons_none rfl, ih]
      exact (Nat.zero_max _).symm
    | finite k =>
      rw [show (finite k :: l).filterMap finite? = k :: l.filterMap finite? from rfl,
        List.max?_cons, Option.getD_some, List.foldr_cons, ← ih]
      cases (l.filterMap finite?).max? with
      | none => exact (Nat.max_zero k).symm
      | some m => rfl

theorem lookup_search_eq (h : ∀ s ∈ states, ∀ t ∈ s.transitions, t.destination < states.length)
    {i : Nat} (hi : i < states.length) :
    (((Graph.reversed pairs states).dijkstra states.length (hop states.length)).lookup i).elim
      .infinite .finite = ((toGoal pairs states)[i]?).getD .infinite := by
  have hreach : ∀ c, (Graph.reversed pairs states).ReachesAt (hop states.length) states.length i c ↔
      ReachesIn pairs states c i := fun c =>
    (Graph.reachesAt_reversed_iff h).trans (or_iff_right fun hgoal => hi.ne hgoal.1)
  have hfound : ∀ c, ((Graph.reversed pairs states).dijkstra states.length
      (hop states.length)).lookup i = some c ↔ IsLeast (hopsFrom pairs states i) c := by
    intro c
    rw [Graph.lookup_dijkstra_eq_some_iff Graph.goal_mem_nodes, Graph.costsTo]
    simp only [hreach]
  cases hlookup : ((Graph.reversed pairs states).dijkstra states.length
      (hop states.length)).lookup i with
  | some c => exact (toGoal_eq_finite_iff.2 ((hfound c).1 hlookup)).symm
  | none =>
    refine (toGoal_eq_infinite_iff.2 fun k hk => ?_).symm
    classical
    have hex : ∃ k, ReachesIn pairs states k i := ⟨k, hk⟩
    have hleast : IsLeast (hopsFrom pairs states i) (Nat.find hex) :=
      ⟨Nat.find_spec hex, fun j hj => Nat.find_min' hex hj⟩
    rw [(hfound _).2 hleast] at hlookup
    cases hlookup

/-- **The search from the goal computes the table of distances.** -/
theorem search_eq (h : ∀ s ∈ states, ∀ t ∈ s.transitions, t.destination < states.length) :
    search pairs states = (toGoal pairs states, largest (toGoal pairs states)) := by
  have htable : ((List.range states.length).map fun i =>
      (((Graph.reversed pairs states).dijkstra states.length (hop states.length)).lookup i).elim
        Distance.infinite .finite).toArray = toGoal pairs states := by
    refine Array.ext (by simp [size_toGoal]) fun i hi hi' => ?_
    have hlt : i < states.length := by
      rwa [size_toGoal] at hi'
    simp only [List.getElem_toArray, List.getElem_map, List.getElem_range, lookup_search_eq h hlt,
      Array.getElem?_eq_getElem hi', Option.getD_some]
  simp only [search, max?_finite_eq, htable]

end Distance

end RabinReward
