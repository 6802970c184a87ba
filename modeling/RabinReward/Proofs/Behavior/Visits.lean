import RabinReward.Proofs.Behavior.Unfolding
import RabinReward.Proofs.Text.Numeral
import Mathlib.Data.List.Forall2
import Mathlib.Data.List.Nodup

/-!
# Visits of a behavior

A node that several ways lead to is visited once for each way (`Route`). The user predicates at the
ends of the routes from the root are numbered from left to right. So the atoms of the formula are
`p0`, `p1`, … in this order (`Unfolds.occurrences_eq`), and the atom of number `k` stands where the
route of the visit of number `k` leads (`Unfolds.exists_visits`): the numbering depends on the
visits alone, not on how nodes are shared.
-/

namespace RabinReward

namespace Behavior

variable {g : Behavior} {i j k input : String} {route : List String} {n : Node}

/-! ## Names -/

def propositionName (k : Nat) : String := "p" ++ Nat.repr k

theorem toList_propositionName (k : Nat) :
    (propositionName k).toList = 'p' :: (Nat.repr k).toList := by
  simp [propositionName]

theorem propositionName_injective : Function.Injective propositionName := by
  intro k l h
  have hdigits : (Nat.repr k).toList = (Nat.repr l).toList := by
    have := congrArg String.toList h
    simpa only [toList_propositionName, List.cons.injEq, true_and] using this
  rw [← (Text.isNumeral_repr k).value, hdigits, (Text.isNumeral_repr l).value]

theorem UnaryKind.occurrences {kind : String} {make : Formula → Formula} (h : UnaryKind kind make)
    (f : Formula) : (make f).occurrences = f.occurrences := by
  cases h <;> rfl

theorem BinaryKind.occurrences {kind a b : String} {make : Formula → Formula → Formula}
    (h : BinaryKind kind a b make) (l r : Formula) :
    (make l r).occurrences = l.occurrences ++ r.occurrences := by
  cases h <;> rfl

/-- The atoms of an unfolding are numbered from left to right. -/
theorem Unfolds.occurrences_eq {k : Nat} {f : Formula} {ps : List Proposition}
    (h : g.Unfolds k i f ps) :
    f.occurrences = (List.range' k ps.length).map propositionName := by
  induction h with
  | predicate => rfl
  | unary _ hkind _ _ ih => rw [hkind.occurrences, ih]
  | binary _ hkind _ _ _ _ ihl ihr =>
    rw [hkind.occurrences, ihl, ihr, List.length_append, ← List.range'_append_1, List.map_append]

/-! ## Routes -/

def UserNode (g : Behavior) (i : String) (n : Node) : Prop :=
  g.node? i = some n ∧ requiredInputs n.kind = []

inductive Route (g : Behavior) : String → List String → String → Prop where
  | nil (i : String) : Route g i [] i
  | cons {i j k input : String} {route : List String} {n : Node} : g.node? i = some n →
      input ∈ requiredInputs n.kind → n.connections.lookup input = some j → Route g j route k →
      Route g i (input :: route) k

theorem route_nil_iff : g.Route i [] j ↔ j = i := by
  constructor
  · intro h
    cases h
    rfl
  · rintro rfl
    exact .nil j

theorem route_cons_iff (hn : g.node? i = some n) : g.Route i (input :: route) k ↔
    input ∈ requiredInputs n.kind ∧
      ∃ j, n.connections.lookup input = some j ∧ g.Route j route k := by
  constructor
  · intro h
    cases h with
    | cons hn' hinput hj hroute =>
      obtain rfl := Option.some.inj (hn.symm.trans hn')
      exact ⟨hinput, _, hj, hroute⟩
  · rintro ⟨hinput, j, hj, hroute⟩
    exact .cons hn hinput hj hroute

theorem BinaryKind.ne {kind a b : String} {make : Formula → Formula → Formula}
    (h : BinaryKind kind a b make) : a ≠ b := by
  cases h <;> decide

/-- Where the node `i` reads as `f`, the node at the end of the route reads as the part `x`. -/
inductive Places (g : Behavior) : String → Formula → List String → Formula → Prop where
  | nil (i : String) (f : Formula) : Places g i f [] f
  | unary {i j : String} {n : Node} {make : Formula → Formula} {f x : Formula}
      {route : List String} : g.node? i = some n → UnaryKind n.kind make →
      n.connections.lookup "X" = some j → Places g j f route x →
      Places g i (make f) ("X" :: route) x
  | first {i j a b : String} {n : Node} {make : Formula → Formula → Formula} {l r x : Formula}
      {route : List String} : g.node? i = some n → BinaryKind n.kind a b make →
      n.connections.lookup a = some j → Places g j l route x →
      Places g i (make l r) (a :: route) x
  | second {i j a b : String} {n : Node} {make : Formula → Formula → Formula} {l r x : Formula}
      {route : List String} : g.node? i = some n → BinaryKind n.kind a b make →
      n.connections.lookup b = some j → Places g j r route x →
      Places g i (make l r) (b :: route) x

/-! ## Visits -/

def Visit (g : Behavior) (i : String) (v : List String × String) : Prop :=
  g.Route i v.1 v.2 ∧ ∃ n, g.UserNode v.2 n

/-- A visit from the node that an input leads to, seen from where the input is. -/
def through (input : String) (v : List String × String) : List String × String :=
  (input :: v.1, v.2)

theorem through_injective (input : String) : Function.Injective (through input) := by
  rintro ⟨route, j⟩ ⟨route', j'⟩ h
  simpa [through] using h

variable {v : List String × String}

theorem visit_user_iff (h : g.UserNode i n) : g.Visit i v ↔ v = ([], i) := by
  obtain ⟨route, j⟩ := v
  cases route with
  | nil =>
    rw [Visit, route_nil_iff, Prod.mk.injEq, eq_self, true_and]
    constructor
    · exact And.left
    · rintro rfl
      exact ⟨rfl, n, h⟩
  | cons input route =>
    rw [Visit, route_cons_iff h.1, h.2]
    simp

theorem visit_flow_iff (hn : g.node? i = some n) (hflow : requiredInputs n.kind ≠ []) :
    g.Visit i v ↔ ∃ input ∈ requiredInputs n.kind, ∃ j, n.connections.lookup input = some j ∧
      ∃ w, g.Visit j w ∧ through input w = v := by
  obtain ⟨route, k⟩ := v
  cases route with
  | nil =>
    refine iff_of_false ?_ ?_
    · rintro ⟨hroute, n', hn', hnone⟩
      rw [route_nil_iff.1 hroute, hn] at hn'
      obtain rfl := Option.some.inj hn'
      exact hflow hnone
    · rintro ⟨input, -, j, -, w, -, hw⟩
      cases hw
  | cons first rest =>
    rw [Visit, route_cons_iff hn]
    constructor
    · rintro ⟨⟨hinput, j, hj, hroute⟩, huser⟩
      exact ⟨first, hinput, j, hj, (rest, k), ⟨hroute, huser⟩, rfl⟩
    · rintro ⟨input, hinput, j, hj, w, ⟨hroute, huser⟩, ⟨⟩⟩
      exact ⟨⟨hinput, j, hj, hroute⟩, huser⟩

/-- All visits from the node `i`, listed as the propositions of its unfolding are. The propositions
begin with the number `k`. -/
structure Visits (g : Behavior) (k : Nat) (i : String) (f : Formula) (ps : List Proposition)
    (visits : List (List String × String)) : Prop where
  nodup : visits.Nodup
  mem_iff : ∀ {v}, v ∈ visits ↔ g.Visit i v
  /-- A visit binds the kind and the inputs of the node at its end. -/
  binds : List.Forall₂ (fun v p => ∃ n, g.UserNode v.2 n ∧ p = ⟨n.kind, n.inputs⟩) visits ps
  /-- Its atom stands where the route leads. -/
  places : ∀ {m : Nat} {v}, visits[m]? = some v →
    g.Places i f v.1 (.atom (propositionName (k + m)))

section
variable {m : Nat} {f l r : Formula} {ps qs : List Proposition}
  {vs ws : List (List String × String)}

theorem Visits.predicate (m : Nat) (h : g.UserNode i n) :
    g.Visits m i (.atom (propositionName m)) [⟨n.kind, n.inputs⟩] [([], i)] := by
  refine ⟨List.nodup_singleton _, fun {v} => ?_, .cons ⟨n, h, rfl⟩ .nil, fun {l v} hv => ?_⟩
  · rw [List.mem_singleton, visit_user_iff h]
  · cases l with
    | zero =>
      cases hv
      exact .nil i _
    | succ l => cases hv

theorem Visits.unary {make : Formula → Formula} (hn : g.node? i = some n)
    (hkind : UnaryKind n.kind make) (hj : n.connections.lookup "X" = some j)
    (h : g.Visits m j f ps vs) : g.Visits m i (make f) ps (vs.map (through "X")) := by
  refine ⟨h.nodup.map (through_injective "X"), fun {v} => ?_, ?_, fun {l v} hv => ?_⟩
  · rw [visit_flow_iff hn (by simp [hkind.shape.2]), hkind.shape.2]
    simp [hj, h.mem_iff]
  · rw [List.forall₂_map_left_iff]
    exact h.binds
  · rw [List.getElem?_map, Option.map_eq_some_iff] at hv
    obtain ⟨w, hw, rfl⟩ := hv
    exact .unary hn hkind hj (h.places hw)

theorem Visits.binary {a b : String} {jl jr : String} {make : Formula → Formula → Formula}
    (hn : g.node? i = some n) (hkind : BinaryKind n.kind a b make)
    (hjl : n.connections.lookup a = some jl) (hjr : n.connections.lookup b = some jr)
    (hl : g.Visits m jl l ps vs) (hr : g.Visits (m + ps.length) jr r qs ws) :
    g.Visits m i (make l r) (ps ++ qs) (vs.map (through a) ++ ws.map (through b)) := by
  refine ⟨?_, fun {v} => ?_, ?_, fun {p v} hv => ?_⟩
  · refine (hl.nodup.map (through_injective a)).append (hr.nodup.map (through_injective b)) ?_
    intro v hv hv'
    obtain ⟨v₁, -, rfl⟩ := List.mem_map.1 hv
    obtain ⟨v₂, -, heq⟩ := List.mem_map.1 hv'
    have hinput : b = a := (List.cons.inj (congrArg Prod.fst heq)).1
    exact hkind.ne hinput.symm
  · rw [visit_flow_iff hn (by simp [hkind.shape.2]), hkind.shape.2]
    simp [hjl, hjr, hl.mem_iff, hr.mem_iff]
  · refine List.rel_append ?_ ?_
    · rw [List.forall₂_map_left_iff]
      exact hl.binds
    · rw [List.forall₂_map_left_iff]
      exact hr.binds
  · have hlength : (vs.map (through a)).length = ps.length := by
      rw [List.length_map, hl.binds.length_eq]
    rcases Nat.lt_or_ge p ps.length with hp | hp
    · rw [List.getElem?_append_left (by omega), List.getElem?_map, Option.map_eq_some_iff] at hv
      obtain ⟨w, hw, rfl⟩ := hv
      exact .first hn hkind hjl (hl.places hw)
    · rw [List.getElem?_append_right (by omega), hlength, List.getElem?_map,
        Option.map_eq_some_iff] at hv
      obtain ⟨w, hw, rfl⟩ := hv
      have hplace := hr.places hw
      rw [show m + ps.length + (p - ps.length) = m + p by omega] at hplace
      exact .second hn hkind hjr hplace

end

/-- The propositions of an unfolding are those of all visits, each in its place. -/
theorem Unfolds.exists_visits {m : Nat} {f : Formula} {ps : List Proposition}
    (h : g.Unfolds m i f ps) : ∃ visits, g.Visits m i f ps visits := by
  induction h with
  | @predicate m i n hn hkind => exact ⟨_, .predicate m ⟨hn, hkind⟩⟩
  | unary hn hkind hj _ ih =>
    obtain ⟨vs, hvs⟩ := ih
    exact ⟨_, hvs.unary hn hkind hj⟩
  | binary hn hkind hjl hjr _ _ ihl ihr =>
    obtain ⟨vs, hvs⟩ := ihl
    obtain ⟨ws, hws⟩ := ihr
    exact ⟨_, hvs.binary hn hkind hjl hjr hws⟩

end Behavior

end RabinReward
