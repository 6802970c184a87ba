import RabinReward.Registry
import RabinReward.Proofs.Guard.Value
import Mathlib.Data.List.Forall2

/-!
# Instantiation

What a parameter resolves to (`Resolves`), what a kind's factory is given (`resolveParams_eq_ok`)
and what instantiation returns (`instantiate_eq_ok`). A predicate measures nothing of a blackboard
but the values of its `entries` (`robustness_congr`); those of a built-in predicate are the entries
that its parameters resolved to.
-/

namespace RabinReward

/-! ## Parameters -/

/-- The first binding of a declared parameter names an entry whose value the parameter takes. -/
def Resolves (board : Blackboard) (inputs : List Binding) (decl : String × ValueKind)
    (e : EntryId) : Prop :=
  ∃ input v, inputs.find? (·.param = decl.1) = some input ∧ board.get? input.entry = some e ∧
    board.value? e = some v ∧ decl.2.accepts v.kind = true

/-- Declared parameters with what they resolve to, in the order of declaration. -/
abbrev ResolvesAll (board : Blackboard) (inputs : List Binding) :
    List (String × ValueKind) → List (String × EntryId) → Prop :=
  List.Forall₂ fun decl x => x.1 = decl.1 ∧ Resolves board inputs decl x.2

variable {board : Blackboard} {kind : String} {inputs : List Binding}

theorem resolveParam_eq_ok {param : String} {expected : ValueKind} {e : EntryId} :
    resolveParam board kind inputs param expected = .ok e ↔
      Resolves board inputs (param, expected) e := by
  unfold resolveParam
  constructor
  · intro h
    split at h
    · cases h
    rename_i input hinput
    split at h
    · cases h
    rename_i e' hget
    split at h
    · cases h
    rename_i v hvalue
    split at h
    · cases h
      exact ⟨input, v, hinput, hget, hvalue, ‹_›⟩
    · cases h
  · rintro ⟨input, v, hinput, hget, hvalue, haccepts⟩
    simp only [hinput, hget, hvalue, haccepts, if_true]

theorem resolveParams_eq_ok {decls : List (String × ValueKind)}
    {params : List (String × EntryId)} :
    resolveParams board kind inputs decls = .ok params ↔
      ResolvesAll board inputs decls params := by
  induction decls generalizing params with
  | nil =>
    rw [resolveParams, ResolvesAll, List.forall₂_nil_left_iff]
    exact ⟨fun h => (Except.ok.inj h).symm, fun h => h ▸ rfl⟩
  | cons decl rest ih =>
    rw [resolveParams, ResolvesAll, List.forall₂_cons_left_iff]
    constructor
    · intro h
      obtain ⟨e, he, h⟩ := bind_eq_ok.1 h
      obtain ⟨tail, htail, h⟩ := bind_eq_ok.1 h
      cases h
      exact ⟨_, _, ⟨rfl, resolveParam_eq_ok.1 he⟩, ih.1 htail, rfl⟩
    · rintro ⟨⟨_, e⟩, tail, ⟨rfl, he⟩, htail, rfl⟩
      exact bind_eq_ok.2 ⟨e, resolveParam_eq_ok.2 he, bind_eq_ok.2 ⟨tail, ih.2 htail, rfl⟩⟩

theorem ResolvesAll.exists_decl {decls : List (String × ValueKind)}
    {params : List (String × EntryId)} (h : ResolvesAll board inputs decls params)
    {x : String × EntryId} (hx : x ∈ params) :
    ∃ decl ∈ decls, x.1 = decl.1 ∧ Resolves board inputs decl x.2 := by
  induction h with
  | nil => cases hx
  | @cons decl y _ _ hfirst _ ih =>
    rcases List.mem_cons.1 hx with rfl | hx
    · exact ⟨decl, List.mem_cons_self, hfirst⟩
    · obtain ⟨decl', hdecl', hresolves⟩ := ih hx
      exact ⟨decl', List.mem_cons_of_mem decl hdecl', hresolves⟩

namespace Registry

variable {r : Registry} {p : Proposition} {fresh next : Identity} {q : Predicate}

theorem resolve_eq_ok {k : Kind} {bound : Bound} :
    r.resolve board p = .ok (k, bound) ↔ r.get? p.kind = some k ∧ bound.kind = p.kind ∧
      ResolvesAll board p.inputs k.params bound.params := by
  unfold resolve
  constructor
  · intro h
    split at h
    · cases h
    rename_i k' hk
    obtain ⟨params, hparams, h⟩ := bind_eq_ok.1 h
    cases h
    exact ⟨hk, rfl, resolveParams_eq_ok.1 hparams⟩
  · rintro ⟨hk, hkind, hparams⟩
    obtain ⟨_, params⟩ := bound
    obtain rfl := hkind
    simp only [hk]
    exact bind_eq_ok.2 ⟨params, resolveParams_eq_ok.2 hparams, rfl⟩

/-- A kind's own factory makes a predicate from what was resolved, and writes nothing. -/
theorem instantiateBy_factory : r.instantiateBy Kind.factory board p fresh =
    (do
      let (k, bound) ← r.resolve board p
      let made ← k.make bound
      return (.shared fresh made, fresh + 1), board) := by
  unfold instantiateBy
  split
  · next e h => rw [h]; rfl
  · next k bound h =>
    rw [h]
    cases hmade : k.make bound <;> simp [Kind.factory, hmade, Except.map, bind, Except.bind, pure,
      Except.pure]

theorem instantiate_eq_ok :
    r.instantiate board p fresh = .ok (q, next) ↔
      ∃ k params made, r.get? p.kind = some k ∧
        ResolvesAll board p.inputs k.params params ∧ k.make ⟨p.kind, params⟩ = .ok made ∧
        q = .shared fresh made ∧ next = fresh + 1 := by
  rw [instantiate, instantiateBy_factory]
  constructor
  · intro h
    obtain ⟨⟨k, kind, params⟩, hresolve, h⟩ := bind_eq_ok.1 h
    obtain ⟨hk, rfl, hparams⟩ := resolve_eq_ok.1 hresolve
    obtain ⟨made, hmade, h⟩ := bind_eq_ok.1 h
    cases h
    exact ⟨k, params, made, hk, hparams, hmade, rfl, rfl⟩
  · rintro ⟨k, params, made, hk, hparams, hmade, rfl, rfl⟩
    exact bind_eq_ok.2 ⟨(k, ⟨p.kind, params⟩), resolve_eq_ok.2 ⟨hk, rfl, hparams⟩,
      bind_eq_ok.2 ⟨made, hmade, rfl⟩⟩

theorem identity_of_instantiate (h : r.instantiate board p fresh = .ok (q, next)) :
    q.identity = some fresh ∧ next = fresh + 1 := by
  obtain ⟨k, params, made, -, -, -, rfl, rfl⟩ := instantiate_eq_ok.1 h
  exact ⟨rfl, rfl⟩

end Registry

/-! ## What predicates read -/

namespace Predicate

def entries : Predicate → List EntryId
  | .always | .sensor _ => []
  | .flag e => [e]
  | .lessThan a b => [a, b]
  | .not p => p.entries
  | .and l r | .or l r | .implies l r => l.entries ++ r.entries
  | .shared _ p => p.entries

/-- Nothing of a host matters to a predicate but its sensors and the entries that it reads. -/
theorem robustness_congr {ρ : Rounding} {r r' : Readings} {p : Predicate}
    (hsensor : r.sensor = r'.sensor) (hentry : ∀ e ∈ p.entries, r.entry e = r'.entry e) :
    p.robustness ρ r = p.robustness ρ r' := by
  induction p with
  | always => rfl
  | sensor s => rw [robustness, robustness, hsensor]
  | flag e => rw [robustness, robustness, hentry e (List.mem_singleton_self e)]
  | lessThan a b =>
    have ha := hentry a List.mem_cons_self
    have hb := hentry b (List.mem_cons_of_mem a (List.mem_singleton_self b))
    rw [robustness, robustness, Readings.number, Readings.number, Readings.number,
      Readings.number, ha, hb]
  | not p ih => rw [robustness, robustness, ih hentry]
  | and l r ihl ihr | or l r ihl ihr | implies l r ihl ihr =>
    rw [robustness, robustness, ihl fun e he => hentry e (List.mem_append_left _ he),
      ihr fun e he => hentry e (List.mem_append_right _ he)]
  | shared id p ih => rw [robustness, robustness, ih hentry]

end Predicate

/-! ## Built-in kinds -/

theorem make_flag {name : String} {params : List (String × EntryId)} {made : Predicate}
    (hparams : ResolvesAll board inputs Kind.flag.params params)
    (hmade : Kind.flag.make ⟨name, params⟩ = .ok made) :
    ∃ e, params = [("Value", e)] ∧ Resolves board inputs ("Value", .bool) e ∧ made = .flag e := by
  obtain ⟨⟨_, e⟩, tail, ⟨rfl, he⟩, htail, rfl⟩ := List.forall₂_cons_left_iff.1 hparams
  obtain rfl := List.forall₂_nil_left_iff.1 htail
  cases hmade
  exact ⟨e, rfl, he, rfl⟩

theorem make_lessThan {name : String} {params : List (String × EntryId)} {made : Predicate}
    (hparams : ResolvesAll board inputs Kind.lessThan.params params)
    (hmade : Kind.lessThan.make ⟨name, params⟩ = .ok made) :
    ∃ a b, params = [("A", a), ("B", b)] ∧ Resolves board inputs ("A", .float) a ∧
      Resolves board inputs ("B", .float) b ∧ made = .lessThan a b := by
  obtain ⟨⟨_, a⟩, rest, ⟨rfl, ha⟩, hrest, rfl⟩ := List.forall₂_cons_left_iff.1 hparams
  obtain ⟨⟨_, b⟩, tail, ⟨rfl, hb⟩, htail, rfl⟩ := List.forall₂_cons_left_iff.1 hrest
  obtain rfl := List.forall₂_nil_left_iff.1 htail
  cases hmade
  exact ⟨a, b, rfl, ha, hb, rfl⟩

theorem entries_of_builtin {k : Kind} (hk : k ∈ Registry.builtins) {name : String}
    {params : List (String × EntryId)} {made : Predicate}
    (hparams : ResolvesAll board inputs k.params params)
    (hmade : k.make ⟨name, params⟩ = .ok made) :
    made.entries = params.map Prod.snd := by
  simp only [Registry.builtins, List.mem_cons, List.not_mem_nil, or_false] at hk
  rcases hk with rfl | rfl | rfl
  · obtain ⟨a, b, rfl, -, -, rfl⟩ := make_lessThan hparams hmade
    rfl
  · obtain ⟨e, rfl, -, rfl⟩ := make_flag hparams hmade
    rfl
  · obtain rfl := List.forall₂_nil_left_iff.1 hparams
    cases hmade
    rfl

end RabinReward
