import RabinReward.Proofs.Blackboard.Session
import RabinReward.Proofs.First
import RabinReward.Proofs.Guard.Binding
import RabinReward.Proofs.Registry.Resolution
import Mathlib.Logic.Relation

/-!
# The outcome of an instantiation

A declared parameter can be wrong in three ways (`ParamFault`). Resolution reports the first
declared parameter that is wrong (`resolveParams_eq_error_iff`) and gives the factory the entries of
all of them otherwise (`BoundAs`). It looks at a list of bindings only through the first binding of
each declared parameter, so it does not notice an `Edit` that keeps these.
-/

namespace RabinReward

namespace Blackboard

def Backed (b : Blackboard) : Prop :=
  ∀ d n e, b.own? d n = some e → ∃ v, b.value? e = some v

theorem WellFormed.backed {b : Blackboard} (hb : b.WellFormed) : b.Backed := by
  intro d n e h
  obtain ⟨v, hv⟩ := hb.named h
  exact ⟨v, by rw [value?, hv]; rfl⟩

/-- The nearest layer that defines the name has it stand for the entry. -/
def Nearest (b : Blackboard) (n : String) (e : EntryId) : Prop :=
  ∃ d, b.own? d n = some e ∧ ∀ i, d < i → b.own? i n = none

theorem Backed.exists_value {b : Blackboard} (hb : b.Backed) {n : String} {e : EntryId}
    (h : b.get? n = some e) : ∃ v, b.value? e = some v := by
  obtain ⟨d, hd, -⟩ := get?_eq_some_iff.1 h
  exact hb d n e hd

end Blackboard

/-- A parameter of a declared kind takes values of this kind; one that is declared `float` takes
integers too. -/
def ValueKind.Takes (expected found : ValueKind) : Prop :=
  found = expected ∨ expected = .float ∧ found = .int

theorem ValueKind.accepts_iff {expected found : ValueKind} :
    expected.accepts found = true ↔ expected.Takes found := by
  simp only [accepts, Takes, Bool.or_eq_true, Bool.and_eq_true, decide_eq_true_eq,
    eq_comm (a := expected) (b := found)]

variable {board : Blackboard} {kind : String} {inputs inputs' : List Binding}
  {decl : String × ValueKind} {decls : List (String × ValueKind)} {e : EntryId}

/-! ## One parameter -/

/-- The first binding of the parameter names the entry. -/
def Names (board : Blackboard) (inputs : List Binding) (param : String) (e : EntryId) : Prop :=
  ∃ input, First (·.param = param) inputs input ∧ board.Nearest input.entry e

theorem find?_param_eq_some_iff {param : String} {input : Binding} :
    inputs.find? (·.param = param) = some input ↔ First (·.param = param) inputs input := by
  simp only [find?_eq_some_iff_first, decide_eq_true_eq]

theorem find?_param_eq_none_iff {param : String} :
    inputs.find? (·.param = param) = none ↔ ∀ input ∈ inputs, input.param ≠ param := by
  simp only [List.find?_eq_none, decide_eq_true_eq, ne_eq]

theorem resolves_iff : Resolves board inputs decl e ↔
    Names board inputs decl.1 e ∧ ∃ v, board.value? e = some v ∧ decl.2.Takes v.kind := by
  unfold Resolves Names Blackboard.Nearest
  simp only [find?_param_eq_some_iff, Blackboard.get?_eq_some_iff, ValueKind.accepts_iff]
  constructor
  · rintro ⟨input, v, hinput, hget, hv, htakes⟩
    exact ⟨⟨input, hinput, hget⟩, v, hv, htakes⟩
  · rintro ⟨⟨input, hinput, hget⟩, v, hv, htakes⟩
    exact ⟨input, v, hinput, hget, hv, htakes⟩

/-- What can be wrong with a declared parameter. -/
inductive ParamFault (board : Blackboard) (kind : String) (inputs : List Binding)
    (decl : String × ValueKind) : ResolutionError → Prop where
  | unbound : (∀ input ∈ inputs, input.param ≠ decl.1) →
      ParamFault board kind inputs decl (.missingParameter kind decl.1)
  | undefined {input : Binding} : First (·.param = decl.1) inputs input →
      (∀ d, board.own? d input.entry = none) →
      ParamFault board kind inputs decl (.missingEntry decl.1 input.entry)
  | mismatched {input : Binding} {e : EntryId} {v : Value} :
      First (·.param = decl.1) inputs input → board.Nearest input.entry e →
      board.value? e = some v → ¬decl.2.Takes v.kind →
      ParamFault board kind inputs decl (.typeMismatch decl.1 input.entry decl.2 v.kind)

theorem resolveParam_eq_error_iff (hb : board.Backed) {err : ResolutionError} :
    resolveParam board kind inputs decl.1 decl.2 = .error err ↔
      ParamFault board kind inputs decl err := by
  unfold resolveParam
  constructor
  · intro h
    split at h
    · next hinput =>
      cases h
      exact .unbound (find?_param_eq_none_iff.1 hinput)
    · next input hinput =>
      have hinput := find?_param_eq_some_iff.1 hinput
      split at h
      · next hget =>
        cases h
        exact .undefined hinput (Blackboard.get?_eq_none_iff.1 hget)
      · next e hget =>
        split at h
        · next hv =>
          obtain ⟨v, hv'⟩ := hb.exists_value hget
          rw [hv] at hv'
          cases hv'
        · next v hv =>
          split at h
          · cases h
          · next haccepts =>
            cases h
            exact .mismatched hinput (Blackboard.get?_eq_some_iff.1 hget) hv
              (mt ValueKind.accepts_iff.2 haccepts)
  · intro h
    cases h with
    | unbound hnone => simp only [find?_param_eq_none_iff.2 hnone]
    | undefined hinput hnone =>
      simp only [find?_param_eq_some_iff.2 hinput, Blackboard.get?_eq_none_iff.2 hnone]
    | mismatched hinput hget hv htakes =>
      simp only [find?_param_eq_some_iff.2 hinput, Blackboard.get?_eq_some_iff.2 hget, hv,
        mt ValueKind.accepts_iff.1 htakes, Bool.false_eq_true, if_false]

def Faulty (board : Blackboard) (kind : String) (inputs : List Binding)
    (decl : String × ValueKind) : Prop :=
  ∃ err, ParamFault board kind inputs decl err

/-! ## All parameters -/

/-- What is wrong with the first declared parameter that something is wrong with. -/
def FirstFault (board : Blackboard) (kind : String) (inputs : List Binding)
    (decls : List (String × ValueKind)) (err : ResolutionError) : Prop :=
  ∃ decl, First (Faulty board kind inputs) decls decl ∧ ParamFault board kind inputs decl err

theorem resolveParams_eq_error_iff (hb : board.Backed) {err : ResolutionError} :
    resolveParams board kind inputs decls = .error err ↔
      FirstFault board kind inputs decls err := by
  induction decls with
  | nil => simp [FirstFault, resolveParams, not_first_nil]
  | cons decl rest ih =>
    have hrest {e : EntryId} : ((do
          return (decl.1, e) :: (← resolveParams board kind inputs rest)) :
            Except ResolutionError (List (String × EntryId))) = .error err ↔
        FirstFault board kind inputs rest err := by
      rw [bind_eq_error_of_ne, ih]
      rintro _ h
      cases h
    rw [resolveParams, bind_eq_error_or (resolveParam_eq_error_iff hb) hrest]
    exact exists_first_cons.symm

/-! ## What the factory gets -/

theorem exists_resolvesAll_iff : (∃ params, ResolvesAll board inputs decls params) ↔
    ∀ decl ∈ decls, ∃ e, Resolves board inputs decl e := by
  induction decls with
  | nil => exact ⟨fun _ => nofun, fun _ => ⟨[], .nil⟩⟩
  | cons decl rest ih =>
    rw [List.forall_mem_cons, ← ih]
    constructor
    · rintro ⟨params, h⟩
      obtain ⟨x, tail, ⟨-, hx⟩, htail, -⟩ := List.forall₂_cons_left_iff.1 h
      exact ⟨⟨x.2, hx⟩, tail, htail⟩
    · rintro ⟨⟨e, he⟩, tail, htail⟩
      exact ⟨(decl.1, e) :: tail, .cons ⟨rfl, he⟩ htail⟩

theorem Names.unique {param : String} {e e' : EntryId} (h : Names board inputs param e)
    (h' : Names board inputs param e') : e = e' := by
  obtain ⟨input, hinput, hget⟩ := h
  obtain ⟨input', hinput', hget'⟩ := h'
  rw [← find?_param_eq_some_iff] at hinput hinput'
  obtain rfl := Option.some.inj (hinput.symm.trans hinput')
  exact Option.some.inj
    ((Blackboard.get?_eq_some_iff.2 hget).symm.trans (Blackboard.get?_eq_some_iff.2 hget'))

theorem ResolvesAll.lookup_eq_some_iff {params : List (String × EntryId)} {n : String}
    (h : ResolvesAll board inputs decls params) :
    params.lookup n = some e ↔ (∃ decl ∈ decls, decl.1 = n) ∧ Names board inputs n e := by
  induction h with
  | nil => simp
  | @cons decl x _ _ hx _ ih =>
    obtain ⟨hname, hresolves⟩ := hx
    obtain ⟨hnames, -⟩ := resolves_iff.1 hresolves
    rw [List.lookup_cons, hname]
    by_cases hn : n = decl.1
    · obtain rfl := hn
      simp only [beq_self_eq_true, Option.some.injEq]
      constructor
      · rintro rfl
        exact ⟨⟨decl, List.mem_cons_self, rfl⟩, hnames⟩
      · exact fun h => hnames.unique h.2
    · have hne : decl.1 ≠ n := Ne.symm hn
      simp only [beq_false_of_ne hn, ih, List.mem_cons, or_and_right, exists_or, exists_eq_left,
        hne, false_or]

/-- The declared parameters stand for the entries that their first bindings name. -/
structure BoundAs (board : Blackboard) (p : Proposition) (decls : List (String × ValueKind))
    (bound : Bound) : Prop where
  declared : ∀ decl ∈ decls, ∃ e, bound.get decl.1 = .ok e ∧ Names board p.inputs decl.1 e ∧
    ∃ v, board.value? e = some v ∧ decl.2.Takes v.kind
  undeclared : ∀ n, (∀ decl ∈ decls, decl.1 ≠ n) →
    bound.get n = .error (.missingParameter p.kind n)

theorem Bound.get_eq_ok_iff {bound : Bound} {n : String} :
    bound.get n = .ok e ↔ bound.params.lookup n = some e := by
  unfold Bound.get
  cases bound.params.lookup n <;> simp

theorem ResolvesAll.boundAs {p : Proposition} {params : List (String × EntryId)}
    (h : ResolvesAll board p.inputs decls params) : BoundAs board p decls ⟨p.kind, params⟩ where
  declared decl hdecl := by
    obtain ⟨e, he⟩ := exists_resolvesAll_iff.1 ⟨params, h⟩ decl hdecl
    obtain ⟨hnames, hvalue⟩ := resolves_iff.1 he
    have hlookup := h.lookup_eq_some_iff.2 ⟨⟨decl, hdecl, rfl⟩, hnames⟩
    exact ⟨e, Bound.get_eq_ok_iff.2 hlookup, hnames, hvalue⟩
  undeclared n hn := by
    unfold Bound.get
    split
    · next e he =>
      obtain ⟨⟨decl, hdecl, rfl⟩, -⟩ := h.lookup_eq_some_iff.1 he
      exact absurd rfl (hn decl hdecl)
    · rfl

/-! ## Edits of bindings -/

/-- A change to a list of bindings that keeps the first binding of every declared parameter. -/
inductive Edit (declared : String → Prop) : List Binding → List Binding → Prop where
  | undeclared (before after : List Binding) {b : Binding} : ¬declared b.param →
      Edit declared (before ++ after) (before ++ b :: after)
  | later (before after : List Binding) {first b : Binding} : first ∈ before →
      first.param = b.param → Edit declared (before ++ after) (before ++ b :: after)
  /-- The bindings of each parameter keep their order. -/
  | reordered {l l' : List Binding} :
      (∀ n, l.filter (·.param = n) = l'.filter (·.param = n)) → Edit declared l l'

abbrev Edits (declared : String → Prop) : List Binding → List Binding → Prop :=
  Relation.EqvGen (Edit declared)

variable {declared : String → Prop}

theorem Edit.find?_eq (h : Edit declared inputs inputs') {n : String} (hn : declared n) :
    inputs.find? (·.param = n) = inputs'.find? (·.param = n) := by
  cases h with
  | @undeclared before after b hb =>
    have hne : b.param ≠ n := fun h => hb (h ▸ hn)
    simp only [List.find?_append, List.find?_cons, hne, decide_false]
  | @later before after first b hfirst heq =>
    rw [List.find?_append, List.find?_append, List.find?_cons]
    by_cases hb : b.param = n
    · obtain ⟨x, hx⟩ : ∃ x, before.find? (·.param = n) = some x := by
        rw [← Option.isSome_iff_exists, List.find?_isSome]
        exact ⟨first, hfirst, decide_eq_true (heq.trans hb)⟩
      rw [hx, Option.some_or, Option.some_or]
    · simp only [hb, decide_false]
  | reordered hfilter => rw [← List.head?_filter, ← List.head?_filter, hfilter n]

theorem Edits.find?_eq (h : Edits declared inputs inputs') {n : String} (hn : declared n) :
    inputs.find? (·.param = n) = inputs'.find? (·.param = n) := by
  induction h with
  | rel _ _ h => exact h.find?_eq hn
  | refl => rfl
  | symm _ _ _ ih => exact ih.symm
  | trans _ _ _ _ _ ih ih' => exact ih.trans ih'

theorem resolveParams_congr (h : ∀ decl ∈ decls,
    inputs.find? (·.param = decl.1) = inputs'.find? (·.param = decl.1)) :
    resolveParams board kind inputs decls = resolveParams board kind inputs' decls := by
  induction decls with
  | nil => rfl
  | cons decl rest ih =>
    obtain ⟨hhead, htail⟩ := List.forall_mem_cons.1 h
    rw [resolveParams, resolveParams, resolveParam, resolveParam, hhead, ih htail]

/-! ## Instantiation -/

namespace Registry

variable {r : Registry} {factory : Kind → Factory} {p : Proposition} {fresh : Identity} {k : Kind}

theorem get?_eq_some_iff_first {name : String} :
    r.get? name = some k ↔ First (·.name = name) r k := by
  simp only [get?, find?_eq_some_iff_first, decide_eq_true_eq]

theorem resolve_of_get? (hk : r.get? p.kind = some k) : r.resolve board p =
    (resolveParams board p.kind p.inputs k.params).map fun params => (k, ⟨p.kind, params⟩) := by
  simp only [resolve, hk]
  cases resolveParams board p.kind p.inputs k.params <;> rfl

theorem resolve_unknown (h : r.get? p.kind = none) :
    r.resolve board p = .error (.unknownKind p.kind) := by
  simp only [resolve, h]

theorem instantiateBy_of_error {err : ResolutionError} (h : r.resolve board p = .error err) :
    r.instantiateBy factory board p fresh = (.error err, board) := by
  simp only [instantiateBy, h]

theorem instantiateBy_of_ok {bound : Bound} (h : r.resolve board p = .ok (k, bound)) :
    r.instantiateBy factory board p fresh = factory k bound fresh board := by
  simp only [instantiateBy, h]

/-- Of a known kind resolution succeeds exactly if all declared parameters resolve. -/
theorem exists_resolve_iff (hk : r.get? p.kind = some k) :
    (∃ bound, r.resolve board p = .ok (k, bound)) ↔
      ∀ decl ∈ k.params, ∃ e, Resolves board p.inputs decl e := by
  rw [← exists_resolvesAll_iff]
  constructor
  · rintro ⟨bound, h⟩
    obtain ⟨-, -, hall⟩ := resolve_eq_ok.1 h
    exact ⟨bound.params, hall⟩
  · rintro ⟨params, hall⟩
    exact ⟨⟨p.kind, params⟩, resolve_eq_ok.2 ⟨hk, rfl, hall⟩⟩

/-- Of a known kind resolution fails with what is wrong first. -/
theorem resolve_eq_error_iff (hb : board.Backed) (hk : r.get? p.kind = some k)
    {err : ResolutionError} : r.resolve board p = .error err ↔
      FirstFault board p.kind p.inputs k.params err := by
  rw [resolve_of_get? hk, ← resolveParams_eq_error_iff hb]
  cases resolveParams board p.kind p.inputs k.params <;> simp [Except.map]

theorem exists_bound (hb : board.Backed) (hk : r.get? p.kind = some k)
    (hnone : ∀ decl ∈ k.params, ¬Faulty board p.kind p.inputs decl) :
    ∃ bound, BoundAs board p k.params bound ∧ r.resolve board p = .ok (k, bound) := by
  rw [resolve_of_get? hk]
  cases h : resolveParams board p.kind p.inputs k.params with
  | error err =>
    obtain ⟨decl, hfirst, -⟩ := (resolveParams_eq_error_iff hb).1 h
    obtain ⟨decl, hdecl, hfault⟩ := exists_first_iff.1 ⟨decl, hfirst⟩
    exact absurd hfault (hnone decl hdecl)
  | ok params => exact ⟨_, (resolveParams_eq_ok.1 h).boundAs, rfl⟩

theorem resolve_edits (hk : r.get? p.kind = some k)
    (h : Edits (fun n => ∃ decl ∈ k.params, decl.1 = n) p.inputs inputs') :
    r.resolve board ⟨p.kind, inputs'⟩ = r.resolve board p := by
  have hfind : ∀ decl ∈ k.params,
      p.inputs.find? (·.param = decl.1) = inputs'.find? (·.param = decl.1) :=
    fun decl hdecl => h.find?_eq ⟨decl, hdecl, rfl⟩
  rw [resolve_of_get? hk, resolve_of_get? (p := ⟨p.kind, inputs'⟩) hk, resolveParams_congr hfind]

/-- **Parameters resolve in the order of declaration.** An unknown kind is reported as such. Of a
known kind the first declared parameter that does not resolve is reported; if all resolve, the
factory gets for each of them the entry that its first binding names on the nearest layer. The
outcome is the same after any edits that keep the first bindings of the declared parameters. No
entry changes unless the factory writes, and the factories of kinds themselves do not. -/
theorem instantiate_outcome {board : Blackboard} (hb : board.Backed) (r : Registry)
    (factory : Kind → Factory) (p : Proposition) (fresh : Identity) :
    ((∀ k ∈ r, k.name ≠ p.kind) →
      r.instantiateBy factory board p fresh = (.error (.unknownKind p.kind), board)) ∧
    (∀ k, First (·.name = p.kind) r k →
      ((∃ bound, r.resolve board p = .ok (k, bound)) ↔ ∀ decl ∈ k.params, ∃ e,
        Names board p.inputs decl.1 e ∧ ∃ v, board.value? e = some v ∧ decl.2.Takes v.kind) ∧
      (∀ decl err, First (Faulty board p.kind p.inputs) k.params decl →
        ParamFault board p.kind p.inputs decl err →
        r.instantiateBy factory board p fresh = (.error err, board)) ∧
      ((∀ decl ∈ k.params, ¬Faulty board p.kind p.inputs decl) →
        ∃ bound, BoundAs board p k.params bound ∧
          r.instantiateBy factory board p fresh = factory k bound fresh board) ∧
      ∀ inputs', Edits (fun n => ∃ decl ∈ k.params, decl.1 = n) p.inputs inputs' →
        r.instantiateBy factory board ⟨p.kind, inputs'⟩ fresh =
          r.instantiateBy factory board p fresh) ∧
    ((∀ k bound, First (·.name = p.kind) r k → (factory k bound fresh board).2 = board) →
      (r.instantiateBy factory board p fresh).2 = board) ∧
    r.instantiateBy Kind.factory board p fresh = (r.instantiate board p fresh, board) := by
  simp only [← get?_eq_some_iff_first, ← resolves_iff]
  refine ⟨fun hunknown => ?_, fun k hk => ⟨exists_resolve_iff hk, fun decl err hfirst hfault => ?_,
    fun hnone => ?_, fun inputs' hedits => ?_⟩, fun hreads => ?_, ?_⟩
  · have hnone : r.get? p.kind = none := by
      simpa only [get?, List.find?_eq_none, decide_eq_true_eq] using hunknown
    exact instantiateBy_of_error (resolve_unknown hnone)
  · exact instantiateBy_of_error ((resolve_eq_error_iff hb hk).2 ⟨decl, hfirst, hfault⟩)
  · obtain ⟨bound, hbound, h⟩ := exists_bound hb hk hnone
    exact ⟨bound, hbound, instantiateBy_of_ok h⟩
  · simp only [instantiateBy, resolve_edits hk hedits]
  · cases h : r.resolve board p with
    | error err => rw [instantiateBy_of_error h]
    | ok kb =>
      obtain ⟨k, bound⟩ := kb
      rw [instantiateBy_of_ok h]
      exact hreads k bound (resolve_eq_ok.1 h).1
  · rw [instantiate, instantiateBy_factory]

def gauges : Blackboard :=
  (Blackboard.Session.empty.performAll
    [.set "speed" (.float 5), .set "open" (.bool true), .push, .set "speed" (.int 3)]).board

theorem gauges_backed : gauges.Backed :=
  (Blackboard.Session.Reachable.wellFormed (Blackboard.Session.later_iff.2 ⟨_, rfl⟩)).backed

def misread : Proposition := ⟨"Conditions/Less Than", [⟨"B", "weight"⟩, ⟨"A", "open"⟩]⟩

def steady : Proposition := ⟨"Conditions/Less Than", [⟨"A", "speed"⟩, ⟨"B", "speed"⟩]⟩

/-- The bindings of `steady` in another order, with one that is not declared and one too many. -/
def steadyEdited : List Binding :=
  [⟨"C", "weight"⟩, ⟨"B", "speed"⟩, ⟨"A", "speed"⟩, ⟨"B", "open"⟩]

theorem edits_steady :
    Edits (fun n => ∃ decl ∈ Kind.lessThan.params, decl.1 = n) steady.inputs steadyEdited := by
  have hswap : Edit (fun n => ∃ decl ∈ Kind.lessThan.params, decl.1 = n) steady.inputs
      [⟨"B", "speed"⟩, ⟨"A", "speed"⟩] := by
    refine .reordered fun n => ?_
    by_cases hA : "A" = n
    · subst hA
      rfl
    · simp only [steady, List.filter_cons, hA, decide_false, Bool.false_eq_true, if_false,
        List.filter_nil]
  have hextra : ¬∃ decl ∈ Kind.lessThan.params, decl.1 = "C" := by decide
  have hagain : (⟨"B", "speed"⟩ : Binding) ∈ [⟨"C", "weight"⟩, ⟨"B", "speed"⟩, ⟨"A", "speed"⟩] := by
    decide
  exact .trans _ _ _ (.rel _ _ hswap) (.trans _ _ _ (.rel _ _ (.undeclared [] _ hextra))
    (.rel _ _ (.later _ [] hagain rfl)))

/-- The flag is reported although the other parameter is wrong too, and before a factory that
empties the board has run. -/
theorem instantiate_outcome_gauges :
    gauges.Backed ∧
    builtins.instantiateBy (fun k bound n _ => ((k.factory bound n .empty).1, .empty)) gauges
      misread 7 =
      (.error (.typeMismatch "A" "open" .float .bool), gauges) ∧
    builtins.instantiateBy Kind.factory gauges ⟨"Conditions/Less Than", steadyEdited⟩ 7 =
      (.ok (.shared 7 (.lessThan 2 2), 8), gauges) := by
  have hless {p : Proposition} (hp : p.kind = "Conditions/Less Than") :
      First (·.name = p.kind) builtins Kind.lessThan := ⟨[], _, rfl, hp.symm, nofun⟩
  refine ⟨gauges_backed, ?_, ?_⟩
  · obtain ⟨-, hknown, -⟩ := instantiate_outcome gauges_backed builtins
      (fun k bound n _ => ((k.factory bound n .empty).1, .empty)) misread 7
    obtain ⟨-, hfails, -⟩ := hknown Kind.lessThan (hless rfl)
    have hfault : ParamFault gauges "Conditions/Less Than" misread.inputs ("A", .float)
        (.typeMismatch "A" "open" .float .bool) := by
      have hfirst : First (·.param = "A") misread.inputs ⟨"A", "open"⟩ :=
        find?_param_eq_some_iff.1 rfl
      have hnearest : gauges.Nearest "open" 1 :=
        Blackboard.get?_eq_some_iff.1 (show gauges.get? "open" = some 1 by decide +kernel)
      have hvalue : gauges.value? 1 = some (.bool true) := by decide +kernel
      have htakes : ¬ValueKind.float.Takes (Value.bool true).kind := by
        rintro (h | ⟨-, h⟩) <;> cases h
      exact @ParamFault.mismatched gauges misread.kind misread.inputs ("A", .float) ⟨"A", "open"⟩ 1
        (.bool true) hfirst hnearest hvalue htakes
    exact hfails _ _ ⟨[], _, rfl, ⟨_, hfault⟩, nofun⟩ hfault
  · obtain ⟨-, hknown, -, hmade⟩ := instantiate_outcome gauges_backed builtins Kind.factory steady 7
    obtain ⟨-, -, -, hedited⟩ := hknown Kind.lessThan (hless rfl)
    rw [show steady.kind = "Conditions/Less Than" from rfl] at hedited
    rw [hedited _ edits_steady, hmade]
    refine congrArg (·, gauges) ?_
    decide +kernel

end Registry

end RabinReward
