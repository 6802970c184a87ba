import RabinReward.Formula.Basic
import RabinReward.Registry

/-!
# Behavior graphs

A behavior is a graph of nodes with one output. A node's kind either is one of the flow kinds, which
combine the formulas at their inputs (`Shape`), or names a predicate kind; then the node becomes a
fresh proposition and its bindings are recorded.

`unfold` follows the inputs from the root. It carries the nodes on the way down, so a cycle is met
as a node that is on the way already, and a node reached along two ways is unfolded twice.
-/

namespace RabinReward

namespace Behavior

structure Node where
  id : String
  kind : String
  /-- Input names with the nodes that they are connected to. -/
  connections : List (String × String)
  /-- Parameters with the blackboard entries that they are bound to. -/
  inputs : List Binding
  deriving DecidableEq, Repr

/-- What a node of some kind does with its inputs. -/
inductive Shape where
  | unary (input : String) (make : Formula → Formula)
  | binary (first second : String) (make : Formula → Formula → Formula)
  | predicate

def Shape.ofKind (kind : String) : Shape :=
  match kind with
  | "Flow/Then" => .binary "A" "B" Formula.implies
  | "Flow/And" => .binary "A" "B" .and
  | "Flow/Or" => .binary "A" "B" .or
  | "Flow/Until" => .binary "P" "Q" .until
  | "Flow/Always" => .unary "X" .globally
  | "Flow/Eventually" => .unary "X" .eventually
  | "Flow/Next" => .unary "X" .next
  | "Transformations/Not" => .unary "X" .not
  | _ => .predicate

inductive GraphError where
  | missingRoot
  | unknownNode (id : String)
  | unconnectedInput (node input : String)
  | cycle (node : String)
  deriving DecidableEq, Repr

def GraphError.message : GraphError → String
  | .missingRoot => "Behavior graph has no root node"
  | .unknownNode id => s!"Reference to unknown node \"{id}\""
  | .unconnectedInput node input => s!"Input \"{input}\" of node \"{node}\" is not connected"
  | .cycle node => s!"Node \"{node}\" is part of a cycle"

/-- The node that an input is connected to. -/
def Node.source (n : Node) (input : String) : Except GraphError String :=
  match n.connections.lookup input with
  | some id => .ok id
  | none => .error (.unconnectedInput n.id input)

end Behavior

structure Behavior where
  nodes : List Behavior.Node
  root : Option String
  deriving DecidableEq, Repr

/-- A formula over the propositions `p0`, `p1`, … and what they stand for, in this order. -/
structure CompiledFormula where
  formula : Formula
  propositions : List Proposition
  deriving DecidableEq

namespace Behavior

/-- The first node with an id. -/
def node? (g : Behavior) (id : String) : Option Node := g.nodes.find? (·.id = id)

/-- Number of nodes whose id is not among the given ones. -/
def unseen (g : Behavior) (path : List String) : Nat := g.nodes.countP fun n => n.id ∉ path

theorem countP_lt {α : Type} {p q : α → Bool} {l : List α} (h : ∀ a ∈ l, p a = true → q a = true)
    {a : α} (ha : a ∈ l) (hp : p a = false) (hq : q a = true) : l.countP p < l.countP q := by
  induction l with
  | nil => cases ha
  | cons b l ih =>
    have hl : l.countP p ≤ l.countP q :=
      List.countP_mono_left fun x hx => h x (List.mem_cons_of_mem _ hx)
    simp only [List.countP_cons]
    rcases List.mem_cons.1 ha with rfl | ha
    · rw [hp, hq, if_neg Bool.false_ne_true, if_pos rfl]
      omega
    · have hlt := ih (fun x hx => h x (List.mem_cons_of_mem _ hx)) ha
      have hb := h b List.mem_cons_self
      by_cases hpb : p b = true
      · rw [if_pos hpb, if_pos (hb hpb)]
        omega
      · rw [if_neg hpb]
        split <;> omega

theorem unseen_cons_lt {g : Behavior} {path : List String} {id : String} {n : Node}
    (hn : g.node? id = some n) (hp : n.id ∉ path) : g.unseen (n.id :: path) < g.unseen path := by
  refine countP_lt (a := n) (fun x _ hx => ?_) (List.mem_of_find?_eq_some hn) ?_ ?_
  · simp only [decide_eq_true_eq, List.mem_cons, not_or] at hx ⊢
    exact hx.2
  · simp
  · simpa using hp

/-- The formula at a node, with the propositions of the nodes before it extended by those below it;
`path` holds the nodes on the way from the root. -/
def unfold (g : Behavior) (path : List String) (props : List Proposition) (id : String) :
    Except GraphError (Formula × List Proposition) :=
  match _hn : g.node? id with
  | none => .error (.unknownNode id)
  | some n =>
    if _hp : n.id ∈ path then .error (.cycle n.id)
    else
      match Shape.ofKind n.kind with
      | .predicate =>
        .ok (.atom ("p" ++ Nat.repr props.length), props ++ [⟨n.kind, n.inputs⟩])
      | .unary input make => do
        let (f, props) ← g.unfold (n.id :: path) props (← n.source input)
        return (make f, props)
      | .binary first second make => do
        let (l, props) ← g.unfold (n.id :: path) props (← n.source first)
        let (r, props) ← g.unfold (n.id :: path) props (← n.source second)
        return (make l r, props)
termination_by g.unseen path
decreasing_by all_goals exact unseen_cons_lt _hn _hp

/-- The formula of a behavior. -/
def compile (g : Behavior) : Except GraphError CompiledFormula :=
  match g.root with
  | none => .error .missingRoot
  | some id => (g.unfold [] [] id).map fun (f, props) => ⟨f, props⟩

end Behavior

end RabinReward
