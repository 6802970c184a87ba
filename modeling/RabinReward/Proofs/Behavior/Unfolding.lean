import RabinReward.Behavior.Graph
import Mathlib.Logic.Relation

/-!
# Unfolding of behavior graphs

`Uses` leads from a flow node to the nodes that its required inputs are first connected to, and
`Unfolds` reads a node as a formula by following those edges. Following them with the nodes on the
way in hand ends with the unfolding or with a fault below the node (`unfold_ends`): a node on the
way leads to the current one, so meeting it again closes a cycle, while a node shared by two ways is
no fault. An unfolding exists only where everything below is complete and acyclic
(`Unfolds.sound_below`), where in turn there is no fault to report.
-/

namespace RabinReward

namespace Behavior

variable {g : Behavior}

/-! ## Flow kinds -/

/-- The flow kinds with one input and what they make of the formula there. -/
inductive UnaryKind : String → (Formula → Formula) → Prop where
  | always : UnaryKind "Flow/Always" .globally
  | eventually : UnaryKind "Flow/Eventually" .eventually
  | next : UnaryKind "Flow/Next" .next
  | not : UnaryKind "Transformations/Not" .not

inductive BinaryKind : String → String → String → (Formula → Formula → Formula) → Prop where
  | implies : BinaryKind "Flow/Then" "A" "B" fun l r => .or (.not l) r
  | and : BinaryKind "Flow/And" "A" "B" .and
  | or : BinaryKind "Flow/Or" "A" "B" .or
  | until : BinaryKind "Flow/Until" "P" "Q" .until

def requiredInputs (kind : String) : List String :=
  match kind with
  | "Flow/Then" | "Flow/And" | "Flow/Or" => ["A", "B"]
  | "Flow/Until" => ["P", "Q"]
  | "Flow/Always" | "Flow/Eventually" | "Flow/Next" | "Transformations/Not" => ["X"]
  | _ => []

theorem UnaryKind.shape {kind : String} {make : Formula → Formula} (h : UnaryKind kind make) :
    Shape.ofKind kind = .unary "X" make ∧ requiredInputs kind = ["X"] := by
  cases h <;> exact ⟨rfl, rfl⟩

theorem BinaryKind.shape {kind a b : String} {make : Formula → Formula → Formula}
    (h : BinaryKind kind a b make) :
    Shape.ofKind kind = .binary a b make ∧ requiredInputs kind = [a, b] := by
  cases h <;> exact ⟨rfl, rfl⟩

theorem kind_cases (kind : String) :
    (Shape.ofKind kind = .predicate ∧ requiredInputs kind = []) ∨
    (∃ make, UnaryKind kind make) ∨ ∃ a b make, BinaryKind kind a b make := by
  unfold Shape.ofKind requiredInputs
  split
  · exact .inr (.inr ⟨_, _, _, .implies⟩)
  · exact .inr (.inr ⟨_, _, _, .and⟩)
  · exact .inr (.inr ⟨_, _, _, .or⟩)
  · exact .inr (.inr ⟨_, _, _, .until⟩)
  · exact .inr (.inl ⟨_, .always⟩)
  · exact .inr (.inl ⟨_, .eventually⟩)
  · exact .inr (.inl ⟨_, .next⟩)
  · exact .inr (.inl ⟨_, .not⟩)
  · left
    simp

/-! ## Edges -/

/-- A required input of the node `i` is first connected to `j`. -/
def Uses (g : Behavior) (i j : String) : Prop :=
  ∃ n, g.node? i = some n ∧ ∃ input ∈ requiredInputs n.kind, n.connections.lookup input = some j

theorem uses_iff {i j : String} {n : Node} (hn : g.node? i = some n) :
    g.Uses i j ↔ ∃ input ∈ requiredInputs n.kind, n.connections.lookup input = some j := by
  constructor
  · rintro ⟨n', hn', h⟩
    obtain rfl := Option.some.inj (hn.symm.trans hn')
    exact h
  · exact fun h => ⟨n, hn, h⟩

theorem not_uses_predicate {i j : String} {n : Node} (hn : g.node? i = some n)
    (hkind : requiredInputs n.kind = []) : ¬g.Uses i j := by
  rw [uses_iff hn, hkind]
  rintro ⟨input, hinput, -⟩
  cases hinput

theorem uses_unary_iff {i j j' : String} {n : Node} {make : Formula → Formula}
    (hn : g.node? i = some n) (hkind : UnaryKind n.kind make)
    (hj : n.connections.lookup "X" = some j) : g.Uses i j' ↔ j' = j := by
  simp only [uses_iff hn, hkind.shape.2, List.mem_singleton, exists_eq_left, hj, Option.some.injEq]
  exact eq_comm

theorem uses_binary_iff {i a b jl jr j : String} {n : Node}
    {make : Formula → Formula → Formula} (hn : g.node? i = some n)
    (hkind : BinaryKind n.kind a b make) (hjl : n.connections.lookup a = some jl)
    (hjr : n.connections.lookup b = some jr) : g.Uses i j ↔ j = jl ∨ j = jr := by
  simp only [uses_iff hn, hkind.shape.2, List.mem_cons, List.not_mem_nil, or_false,
    exists_eq_or_imp, exists_eq_left, hjl, hjr, Option.some.injEq]
  exact or_congr eq_comm eq_comm

def Complete (g : Behavior) (i : String) : Prop :=
  ∃ n, g.node? i = some n ∧
    ∀ input ∈ requiredInputs n.kind, ∃ j, n.connections.lookup input = some j

/-- Some way along used edges leads from `i` back to `i`. -/
def OnCycle (g : Behavior) (i : String) : Prop := Relation.TransGen g.Uses i i

/-- What can be wrong with a node that used edges lead to from `i`. -/
inductive Fault (g : Behavior) (i : String) : GraphError → Prop where
  | unknownNode {j : String} : Relation.ReflTransGen g.Uses i j → g.node? j = none →
      Fault g i (.unknownNode j)
  | unconnectedInput {j input : String} {n : Node} : Relation.ReflTransGen g.Uses i j →
      g.node? j = some n → input ∈ requiredInputs n.kind → n.connections.lookup input = none →
      Fault g i (.unconnectedInput j input)
  | cycle {j : String} : Relation.ReflTransGen g.Uses i j → g.OnCycle j → Fault g i (.cycle j)

theorem Fault.head {i j : String} {e : GraphError} (hij : g.Uses i j) (h : g.Fault j e) :
    g.Fault i e := by
  cases h with
  | unknownNode hreach hnone => exact .unknownNode (.head hij hreach) hnone
  | unconnectedInput hreach hn hinput hnone =>
    exact .unconnectedInput (.head hij hreach) hn hinput hnone
  | cycle hreach hcycle => exact .cycle (.head hij hreach) hcycle

theorem not_fault {i : String} {e : GraphError}
    (h : ∀ j, Relation.ReflTransGen g.Uses i j → g.Complete j ∧ ¬g.OnCycle j) : ¬g.Fault i e := by
  rintro (@⟨j, hreach, hnone⟩ | @⟨j, input, n, hreach, hn, hinput, hnone⟩ | @⟨j, hreach, hcycle⟩)
  · obtain ⟨n, hn, -⟩ := (h j hreach).1
    rw [hnone] at hn
    cases hn
  · obtain ⟨n', hn', hconnected⟩ := (h j hreach).1
    rw [hn, Option.some.injEq] at hn'
    subst hn'
    obtain ⟨j', hj'⟩ := hconnected input hinput
    rw [hnone] at hj'
    cases hj'
  · exact (h j hreach).2 hcycle

/-! ## Unfoldings -/

/-- The node `i` reads as a formula over the propositions `p<k>`, `p<k+1>`, …, which stand for the
listed user predicates: one for each time that a user predicate is met. -/
inductive Unfolds (g : Behavior) : Nat → String → Formula → List Proposition → Prop where
  | predicate {k : Nat} {i : String} {n : Node} : g.node? i = some n →
      requiredInputs n.kind = [] →
      Unfolds g k i (.atom ("p" ++ Nat.repr k)) [⟨n.kind, n.inputs⟩]
  | unary {k : Nat} {i j : String} {n : Node} {make : Formula → Formula} {f : Formula}
      {ps : List Proposition} : g.node? i = some n → UnaryKind n.kind make →
      n.connections.lookup "X" = some j → Unfolds g k j f ps → Unfolds g k i (make f) ps
  | binary {k : Nat} {i a b jl jr : String} {n : Node} {make : Formula → Formula → Formula}
      {l r : Formula} {ps qs : List Proposition} : g.node? i = some n →
      BinaryKind n.kind a b make → n.connections.lookup a = some jl →
      n.connections.lookup b = some jr → Unfolds g k jl l ps →
      Unfolds g (k + ps.length) jr r qs → Unfolds g k i (make l r) (ps ++ qs)

theorem Unfolds.complete {k : Nat} {i : String} {f : Formula} {ps : List Proposition}
    (h : g.Unfolds k i f ps) : g.Complete i := by
  cases h with
  | predicate hn hnone => exact ⟨_, hn, by rw [hnone]; nofun⟩
  | unary hn hkind hj _ =>
    refine ⟨_, hn, ?_⟩
    rw [hkind.shape.2, List.forall_mem_singleton]
    exact ⟨_, hj⟩
  | binary hn hkind hjl hjr _ _ =>
    refine ⟨_, hn, ?_⟩
    rw [hkind.shape.2, List.forall_mem_cons, List.forall_mem_singleton]
    exact ⟨⟨_, hjl⟩, ⟨_, hjr⟩⟩

theorem Unfolds.of_uses {k : Nat} {i j : String} {f : Formula} {ps : List Proposition}
    (h : g.Unfolds k i f ps) (hij : g.Uses i j) : ∃ k' f' ps', g.Unfolds k' j f' ps' := by
  cases h with
  | predicate hn hnone => exact absurd hij (not_uses_predicate hn hnone)
  | unary hn hkind hj hf =>
    obtain rfl := (uses_unary_iff hn hkind hj).1 hij
    exact ⟨_, _, _, hf⟩
  | binary hn hkind hjl hjr hl hr =>
    rcases (uses_binary_iff hn hkind hjl hjr).1 hij with rfl | rfl
    · exact ⟨_, _, _, hl⟩
    · exact ⟨_, _, _, hr⟩

theorem Unfolds.acc {k : Nat} {i : String} {f : Formula} {ps : List Proposition}
    (h : g.Unfolds k i f ps) : Acc (fun j i => g.Uses i j) i := by
  induction h with
  | predicate hn hnone => exact .intro _ fun j hj => absurd hj (not_uses_predicate hn hnone)
  | unary hn hkind hj _ ih =>
    refine .intro _ fun j' hj' => ?_
    obtain rfl := (uses_unary_iff hn hkind hj).1 hj'
    exact ih
  | binary hn hkind hjl hjr _ _ ihl ihr =>
    refine .intro _ fun j hj => ?_
    rcases (uses_binary_iff hn hkind hjl hjr).1 hj with rfl | rfl
    · exact ihl
    · exact ihr

theorem not_onCycle_of_acc {i : String} (h : Acc (fun j i => g.Uses i j) i) : ¬g.OnCycle i := by
  induction h with
  | intro i _ ih =>
    intro hcycle
    obtain ⟨j, hij, hji⟩ := Relation.TransGen.head'_iff.1 hcycle
    exact ih j hij (Relation.TransGen.tail' hji hij)

/-- Below a node that unfolds everything is complete and acyclic. -/
theorem Unfolds.sound_below {k : Nat} {i j : String} {f : Formula} {ps : List Proposition}
    (h : g.Unfolds k i f ps) (hij : Relation.ReflTransGen g.Uses i j) :
    g.Complete j ∧ ¬g.OnCycle j := by
  have hj : ∃ k' f' ps', g.Unfolds k' j f' ps' := by
    induction hij with
    | refl => exact ⟨_, _, _, h⟩
    | tail _ hstep ih =>
      obtain ⟨_, _, _, hj⟩ := ih
      exact hj.of_uses hstep
  obtain ⟨_, _, _, hj⟩ := hj
  exact ⟨hj.complete, not_onCycle_of_acc hj.acc⟩

/-! ## One visit -/

theorem id_of_node? {i : String} {n : Node} (hn : g.node? i = some n) : n.id = i := by
  simpa using List.find?_some hn

section
variable {path : List String} {props : List Proposition} {i : String} {n : Node}

theorem unfold_unknown (hn : g.node? i = none) :
    g.unfold path props i = .error (.unknownNode i) := by
  rw [unfold]
  split
  · rfl
  · simp_all

/-- A known node is refused on the way down from itself. -/
theorem unfold_known (hn : g.node? i = some n) : g.unfold path props i =
    if i ∈ path then .error (.cycle i)
    else
      match Shape.ofKind n.kind with
      | .predicate => .ok (.atom ("p" ++ Nat.repr props.length), props ++ [⟨n.kind, n.inputs⟩])
      | .unary input make => do
        let (f, qs) ← g.unfold (i :: path) props (← n.source input)
        return (make f, qs)
      | .binary first second make => do
        let (l, qs) ← g.unfold (i :: path) props (← n.source first)
        let (r, rs) ← g.unfold (i :: path) qs (← n.source second)
        return (make l r, rs) := by
  obtain rfl := id_of_node? hn
  rw [unfold]
  split
  · simp_all
  · rename_i n' hn'
    obtain rfl := Option.some.inj (hn.symm.trans hn')
    rfl

theorem unfold_met (hn : g.node? i = some n) (hp : i ∈ path) :
    g.unfold path props i = .error (.cycle i) := by
  rw [unfold_known hn, if_pos hp]

theorem unfold_predicate (hn : g.node? i = some n) (hp : i ∉ path)
    (hshape : Shape.ofKind n.kind = .predicate) : g.unfold path props i =
      .ok (.atom ("p" ++ Nat.repr props.length), props ++ [⟨n.kind, n.inputs⟩]) := by
  rw [unfold_known hn, if_neg hp, hshape]

theorem unfold_unary {make : Formula → Formula} (hn : g.node? i = some n) (hp : i ∉ path)
    (hkind : UnaryKind n.kind make) : g.unfold path props i = do
      let (f, qs) ← g.unfold (i :: path) props (← n.source "X")
      return (make f, qs) := by
  rw [unfold_known hn, if_neg hp, hkind.shape.1]

theorem unfold_binary {a b : String} {make : Formula → Formula → Formula}
    (hn : g.node? i = some n) (hp : i ∉ path) (hkind : BinaryKind n.kind a b make) :
    g.unfold path props i = do
      let (l, qs) ← g.unfold (i :: path) props (← n.source a)
      let (r, rs) ← g.unfold (i :: path) qs (← n.source b)
      return (make l r, rs) := by
  rw [unfold_known hn, if_neg hp, hkind.shape.1]

theorem source_of_lookup {input j : String} (h : n.connections.lookup input = some j) :
    n.source input = .ok j := by
  rw [Node.source, h]

end

/-! ## What a visit finds -/

/-- A computation ends with a value that satisfies `P` or with an error that satisfies `E`. -/
def Ends {α : Type} (P : α → Prop) (E : GraphError → Prop) : Except GraphError α → Prop
  | .ok a => P a
  | .error e => E e

theorem Ends.bind {α β : Type} {P : α → Prop} {Q : β → Prop} {E : GraphError → Prop}
    {x : Except GraphError α} {f : α → Except GraphError β} (hx : Ends P E x)
    (hf : ∀ a, P a → Ends Q E (f a)) : Ends Q E (x >>= f) := by
  cases x with
  | ok a => exact hf a hx
  | error e => exact hx

theorem Ends.imp_error {α : Type} {P : α → Prop} {E E' : GraphError → Prop}
    {x : Except GraphError α} (hx : Ends P E x) (h : ∀ e, E e → E' e) : Ends P E' x := by
  cases x with
  | ok a => exact hx
  | error e => exact h e hx

theorem source_ends {i input : String} {n : Node} (hn : g.node? i = some n)
    (hinput : input ∈ requiredInputs n.kind) :
    Ends (fun j => n.connections.lookup input = some j) (g.Fault i) (n.source input) := by
  unfold Node.source
  cases h : n.connections.lookup input with
  | some j => exact rfl
  | none =>
    rw [id_of_node? hn]
    exact .unconnectedInput .refl hn hinput h

theorem leads_cons {path : List String} {i j : String}
    (hpath : ∀ p ∈ path, Relation.TransGen g.Uses p i) (hij : g.Uses i j) :
    ∀ p ∈ i :: path, Relation.TransGen g.Uses p j :=
  List.forall_mem_cons.2 ⟨.single hij, fun p hp => (hpath p hp).tail hij⟩

/-- **A visit ends with the unfolding of its node or with a fault below it**, provided that the
nodes on the way lead to it. -/
theorem unfold_ends {path : List String} {i : String} (props : List Proposition)
    (hpath : ∀ p ∈ path, Relation.TransGen g.Uses p i) :
    Ends (fun (f, qs) => ∃ ps, qs = props ++ ps ∧ g.Unfolds props.length i f ps) (g.Fault i)
      (g.unfold path props i) := by
  induction hk : g.unseen path using Nat.strongRecOn generalizing path props i with
  | ind k ih =>
    subst hk
    cases hn : g.node? i with
    | none =>
      rw [unfold_unknown hn]
      exact .unknownNode .refl hn
    | some n =>
      by_cases hp : i ∈ path
      · rw [unfold_met hn hp]
        exact .cycle .refl (hpath i hp)
      have hlt : g.unseen (i :: path) < g.unseen path := by
        obtain rfl := id_of_node? hn
        exact unseen_cons_lt hn hp
      have visit : ∀ {j : String} (hij : g.Uses i j) (props : List Proposition),
          Ends (fun (f, qs) => ∃ ps, qs = props ++ ps ∧ g.Unfolds props.length j f ps) (g.Fault i)
            (g.unfold (i :: path) props j) := fun hij props =>
        (ih _ hlt props (leads_cons hpath hij) rfl).imp_error fun e he => he.head hij
      rcases kind_cases n.kind with ⟨hshape, hnone⟩ | ⟨make, hkind⟩ | ⟨a, b, make, hkind⟩
      · rw [unfold_predicate hn hp hshape]
        exact ⟨_, rfl, .predicate hn hnone⟩
      · rw [unfold_unary hn hp hkind]
        have hX : "X" ∈ requiredInputs n.kind := by simp [hkind.shape.2]
        refine (source_ends hn hX).bind fun j hj => ?_
        refine (visit ⟨n, hn, _, hX, hj⟩ props).bind ?_
        rintro ⟨f, qs⟩ ⟨ps, rfl, hf⟩
        exact ⟨ps, rfl, .unary hn hkind hj hf⟩
      · rw [unfold_binary hn hp hkind]
        have ha : a ∈ requiredInputs n.kind := by simp [hkind.shape.2]
        have hb : b ∈ requiredInputs n.kind := by simp [hkind.shape.2]
        refine (source_ends hn ha).bind fun jl hjl => ?_
        refine (visit ⟨n, hn, a, ha, hjl⟩ props).bind ?_
        rintro ⟨l, qs⟩ ⟨ps, rfl, hl⟩
        refine (source_ends hn hb).bind fun jr hjr => ?_
        refine (visit ⟨n, hn, b, hb, hjr⟩ _).bind ?_
        rintro ⟨r, rs⟩ ⟨qs, rfl, hr⟩
        rw [List.length_append] at hr
        exact ⟨ps ++ qs, List.append_assoc .., .binary hn hkind hjl hjr hl hr⟩

theorem Unfolds.not_mem {path : List String} {k : Nat} {i : String} {f : Formula}
    {ps : List Proposition} (h : g.Unfolds k i f ps)
    (hpath : ∀ p ∈ path, Relation.TransGen g.Uses p i) : i ∉ path :=
  fun hp => (h.sound_below .refl).2 (hpath i hp)

theorem unfold_of_unfolds {path : List String} {i : String} {props ps : List Proposition}
    {f : Formula} (hpath : ∀ p ∈ path, Relation.TransGen g.Uses p i)
    (h : g.Unfolds props.length i f ps) : g.unfold path props i = .ok (f, props ++ ps) := by
  generalize hk : props.length = k at h
  induction h generalizing path props with
  | predicate hn hnone =>
    have hnew := (Unfolds.predicate (k := k) hn hnone).not_mem hpath
    subst hk
    refine unfold_predicate hn hnew ?_
    rcases kind_cases _ with ⟨hshape, -⟩ | ⟨make, hkind⟩ | ⟨a, b, make, hkind⟩
    · exact hshape
    all_goals
      rw [hkind.shape.2] at hnone
      cases hnone
  | unary hn hkind hj hf ih =>
    have hnew := (Unfolds.unary hn hkind hj hf).not_mem hpath
    have hij := (uses_unary_iff hn hkind hj).2 rfl
    have hbelow := ih (leads_cons hpath hij) hk
    rw [unfold_unary hn hnew hkind, source_of_lookup hj]
    simp only [bind, Except.bind, hbelow]
    rfl
  | @binary k i a b jl jr n make l r ps qs hn hkind hjl hjr hl hr ihl ihr =>
    have hnew := (Unfolds.binary hn hkind hjl hjr hl hr).not_mem hpath
    have huses := uses_binary_iff (j := jl) hn hkind hjl hjr
    have hleft := ihl (leads_cons hpath ((uses_binary_iff hn hkind hjl hjr).2 (.inl rfl))) hk
    have hlength : (props ++ ps).length = k + ps.length := by rw [List.length_append, hk]
    have hright := ihr (leads_cons hpath ((uses_binary_iff hn hkind hjl hjr).2 (.inr rfl))) hlength
    rw [unfold_binary hn hnew hkind, source_of_lookup hjl, source_of_lookup hjr]
    simp only [bind, Except.bind, hleft, hright, List.append_assoc]
    rfl

/-! ## Main statement -/

/-- Visiting the second node, with the first ids on the way to it, is part of visiting the first. -/
def Nests (g : Behavior) (outer inner : List String × String) : Prop :=
  outer.2 ∉ outer.1 ∧ inner.1 = outer.2 :: outer.1 ∧ g.Uses outer.2 inner.2

theorem Nests.unseen_lt {outer inner : List String × String} (h : g.Nests outer inner) :
    g.unseen inner.1 < g.unseen outer.1 := by
  obtain ⟨hp, hinner, n, hn, -⟩ := h
  have hid := id_of_node? hn
  rw [hinner, ← hid]
  rw [← hid] at hn hp
  exact unseen_cons_lt hn hp

theorem compile_root {i : String} (hroot : g.root = some i) :
    g.compile = (g.unfold [] [] i).map fun r => ⟨r.1, r.2⟩ := by
  rw [compile, hroot]

theorem compile_ends {i : String} (hroot : g.root = some i) :
    Ends (fun c => g.Unfolds 0 i c.formula c.propositions) (g.Fault i) g.compile := by
  have hpath : ∀ p ∈ ([] : List String), Relation.TransGen g.Uses p i := nofun
  have h := unfold_ends [] hpath
  rw [compile_root hroot]
  cases hrun : g.unfold [] [] i with
  | ok r =>
    rw [hrun] at h
    obtain ⟨f, qs⟩ := r
    obtain ⟨ps, rfl, hunfolds⟩ := h
    exact hunfolds
  | error e =>
    rw [hrun] at h
    exact h

theorem compile_of_unfolds {i : String} {c : CompiledFormula} (hroot : g.root = some i)
    (h : g.Unfolds 0 i c.formula c.propositions) : g.compile = .ok c := by
  have hpath : ∀ p ∈ ([] : List String), Relation.TransGen g.Uses p i := nofun
  have hrun : g.unfold [] [] i = .ok (c.formula, [] ++ c.propositions) :=
    unfold_of_unfolds hpath h
  rw [compile_root hroot, hrun]
  rfl

theorem compile_eq_ok_iff {c : CompiledFormula} : g.compile = .ok c ↔
    ∃ i, g.root = some i ∧ g.Unfolds 0 i c.formula c.propositions := by
  constructor
  · intro h
    cases hroot : g.root with
    | none =>
      rw [compile, hroot] at h
      cases h
    | some i =>
      have hends := compile_ends hroot
      rw [h] at hends
      exact ⟨i, rfl, hends⟩
  · rintro ⟨i, hroot, h⟩
    exact compile_of_unfolds hroot h

theorem fault_of_compile {e : GraphError} (h : g.compile = .error e) :
    g.root = none ∧ e = .missingRoot ∨ ∃ i, g.root = some i ∧ g.Fault i e := by
  cases hroot : g.root with
  | none =>
    rw [compile, hroot] at h
    cases h
    exact .inl ⟨rfl, rfl⟩
  | some i =>
    have hends := compile_ends hroot
    rw [h] at hends
    exact .inr ⟨i, rfl, hends⟩

/-- **Compiling a behavior unfolds it.** Visits are nested finitely deep, whatever the graph. There
is a formula exactly if there is a root below which every node is known, has its required inputs
connected and lies on no cycle; it is the unfolding of the root. An error names something that is
wrong with the graph below the root. -/
theorem compile_eq_unfolding (g : Behavior) :
    (WellFounded fun inner outer => g.Nests outer inner) ∧
    ((∃ c, g.compile = .ok c) ↔ ∃ i, g.root = some i ∧
      ∀ j, Relation.ReflTransGen g.Uses i j → g.Complete j ∧ ¬g.OnCycle j) ∧
    (∀ c, g.compile = .ok c ↔
      ∃ i, g.root = some i ∧ g.Unfolds 0 i c.formula c.propositions) ∧
    ∀ e, g.compile = .error e →
      g.root = none ∧ e = .missingRoot ∨ ∃ i, g.root = some i ∧ g.Fault i e := by
  refine ⟨?_, ⟨?_, ?_⟩, fun c => compile_eq_ok_iff, fun e => fault_of_compile⟩
  · have hmeasure := (measure fun visit : List String × String => g.unseen visit.1).wf
    exact Subrelation.wf (fun h => h.unseen_lt) hmeasure
  · rintro ⟨c, hc⟩
    obtain ⟨i, hroot, h⟩ := compile_eq_ok_iff.1 hc
    exact ⟨i, hroot, fun j hij => h.sound_below hij⟩
  · rintro ⟨i, hroot, hsound⟩
    cases hc : g.compile with
    | ok c => exact ⟨c, rfl⟩
    | error e =>
      rcases fault_of_compile hc with ⟨hnone, -⟩ | ⟨i', hroot', hfault⟩
      · rw [hroot] at hnone
        cases hnone
      · rw [hroot, Option.some.injEq] at hroot'
        subst hroot'
        exact absurd hfault (not_fault hsound)

end Behavior

end RabinReward
