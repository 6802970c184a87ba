import RabinReward.Behavior.Build
import RabinReward.Proofs.Behavior.Visits
import RabinReward.Proofs.Machine.BooleanRun
import RabinReward.Proofs.Registry.Pass

/-!
# Aligned propositions

A proposition gets its number when a behavior is compiled, and a guard refers to it by that number
alone. Building a machine makes one predicate for each proposition, in order, and puts it into every
guard wherever the guard mentions the number (`Shares`). So what stands at a leaf of a guard is the
predicate of the visit of that number (`numbering_aligned`).
-/

namespace RabinReward

/-! ## Parts of guards -/

def Guard.operands : Guard → List Guard
  | .literal _ | .prop _ => []
  | .not g => [g]
  | .and l r | .or l r => [l, r]

/-- What stands at a place in a guard. A place gives the number of the operand at each step. -/
def Guard.part : List Nat → Guard → Option Guard
  | [], g => some g
  | k :: place, g => g.operands[k]?.bind (Guard.part place)

def Predicate.part : List Nat → Predicate → Option Predicate
  | [], p => some p
  | k :: place, p => p.children[k]?.bind (Predicate.part place)

namespace Guard

variable {props : List Predicate} {fresh n : Identity} {g : Guard} {p : Predicate}

theorem exists_operand (h : g.toPredicate props fresh = .ok (p, n)) {k : Nat} {x : Guard}
    (hx : g.operands[k]? = some x) :
    ∃ fresh' n' q, p.children[k]? = some q ∧ x.toPredicate props fresh' = .ok (q, n') := by
  cases g with
  | literal b | prop i => cases hx
  | not g =>
    obtain ⟨⟨q, l⟩, hq, h⟩ := bind_eq_ok.1 h
    cases h
    cases k with
    | zero =>
      cases hx
      exact ⟨fresh, l, q, rfl, hq⟩
    | succ k => cases hx
  | and l r | or l r =>
    obtain ⟨q, l', q', r', hl, hr, rfl, -⟩ := operands_eq_ok h
    match k with
    | 0 =>
      cases hx
      exact ⟨fresh, l', q, rfl, hl⟩
    | 1 =>
      cases hx
      exact ⟨l', r', q', rfl, hr⟩
    | k + 2 => cases hx

/-- Where the number of a proposition stands in a guard, its predicate stands below the predicate of
the guard. -/
theorem exists_part {place : List Nat} {i : UInt32} (h : g.toPredicate props fresh = .ok (p, n))
    (hi : g.part place = some (.prop i)) :
    ∃ q, props[i.toNat]? = some q ∧ p.part place = some q := by
  induction place generalizing g p fresh n with
  | nil =>
    cases hi
    simp only [toPredicate] at h
    split at h
    · rename_i q hq
      cases h
      exact ⟨p, hq, rfl⟩
    · cases h
  | cons k place ih =>
    obtain ⟨x, hx, hplace⟩ := Option.bind_eq_some_iff.1 hi
    obtain ⟨fresh', n', q, hq, hbound⟩ := exists_operand h hx
    obtain ⟨q', hprop, hpart⟩ := ih hbound hplace
    exact ⟨q', hprop, by rw [Predicate.part, hq]; exact hpart⟩

end Guard

/-! ## Building -/

/-- The predicate of a guard is bound to handles: wherever the guard mentions a number, the handle
of that number stands, and whatever the host shows later, the guard is measured by what the handles
show then. -/
structure Guard.Binds (handles : List Predicate) (g : Guard) (p : Predicate) : Prop where
  leaf : ∀ place k, g.part place = some (.prop k) →
    ∃ h, handles[k.toNat]? = some h ∧ p.part place = some h
  robustness : ∀ ρ sensors (later : Blackboard), p.robustness ρ (.ofHost sensors later) =
    g.value (Guard.row ρ (.ofHost sensors later) handles)

/-- The guards of the machine share one handle for each proposition, which has been made from the
proposition once and under an identity of its own. -/
structure Shares (d : Description) (props : List Proposition) (r : Registry) (board : Blackboard)
    (fresh : Identity) (m : Machine) (handles : List Predicate) : Prop where
  length_eq : handles.length = props.length
  instantiates : ∀ k p, props[k]? = some p → ∃ h, handles[k]? = some h ∧
    h.identity = some (fresh + k) ∧ r.instantiate board p (fresh + k) = .ok (h, fresh + k + 1)
  guards : ∀ s, List.Forall₂ (fun t t' => t.guard.Binds handles t'.guard) (d.transitions s)
    (m.transitions s)

theorem Transition.Binds.guard_binds {handles : List Predicate} {t : Transition Guard}
    {t' : Transition Predicate} (h : t.Binds handles t') : t.guard.Binds handles t'.guard := by
  refine ⟨fun place k hk => ?_, fun ρ sensors later => h.robustness_eq⟩
  obtain ⟨⟨fresh, n, hguard⟩, -, -⟩ := h
  exact Guard.exists_part hguard hk

theorem Description.exists_shares {d : Description} {props : List Proposition} {r : Registry}
    {board : Blackboard} {config : Config} {fresh next : Identity} {m : Machine}
    (h : d.build props r board config fresh = .ok (m, next)) :
    ∃ handles, Shares d props r board fresh m handles := by
  rw [build_eq] at h
  split at h
  · cases h
  rename_i handles n hhandles
  obtain ⟨hlength, -, hall⟩ := Registry.instantiateAll_eq_ok hhandles
  obtain ⟨-, hstates, -, -, -⟩ := materialize_eq_ok h
  refine ⟨handles, hlength, fun k p hp => ?_, fun s => ?_⟩
  · obtain ⟨q, hq, hmade⟩ := hall k p hp
    exact ⟨q, hq, (Registry.identity_of_instantiate hmade).1, hmade⟩
  · exact (forall₂_transitions hstates s).imp fun _ _ hbinds => hbinds.guard_binds

namespace Behavior

variable {g : Behavior} {c : CompiledFormula}

theorem mapError_eq_ok {ε ε' α : Type} {f : ε → ε'} {x : Except ε α} {a : α} :
    x.mapError f = .ok a ↔ x = .ok a := by
  cases x <;> simp [Except.mapError]

theorem exists_description (h : g.compile = .ok c) {convert : Converter} {r : Registry}
    {board : Blackboard} {config : Config} {fresh next : Identity} {m : Machine}
    (hbuild : g.build convert r board config fresh = .ok (m, next)) :
    ∃ text d, convert c.formula = .ok text ∧ Hanoi.parse text = .ok d ∧
      d.build c.propositions r board config fresh = .ok (m, next) := by
  obtain ⟨c', hc, hbuild⟩ := bind_eq_ok.1 hbuild
  obtain ⟨text, htext, hbuild⟩ := bind_eq_ok.1 hbuild
  obtain ⟨d, hd, hbuild⟩ := bind_eq_ok.1 hbuild
  rw [mapError_eq_ok] at hc htext hd hbuild
  cases h.symm.trans hc
  exact ⟨text, d, htext, hd, hbuild⟩

/-- **The numbering of propositions is kept from the graph to the guards.** The atoms of a compiled
formula are `p0`, `p1`, … from left to right, each once. There is one for each visit of a user
predicate from the root: proposition `k` is the kind and the bindings of the node that visit `k`
ends at, and its atom stands in the formula where the route of that visit leads. A machine built
from the behavior is built over these very propositions, and whichever description it is built from,
its guards share one predicate for each proposition, made from it once: a leaf of number `k` is the
predicate of proposition `k`, whatever the guard, and the guard is measured by what the predicates
show at the time. -/
theorem numbering_aligned (h : g.compile = .ok c) :
    (c.formula.occurrences = (List.range c.propositions.length).map propositionName ∧
      c.formula.occurrences.Nodup) ∧
    (∃ i visits, g.root = some i ∧ g.Visits 0 i c.formula c.propositions visits) ∧
    (∀ convert r board config fresh m next,
      g.build convert r board config fresh = .ok (m, next) →
        ∃ text d, convert c.formula = .ok text ∧ Hanoi.parse text = .ok d ∧
          d.build c.propositions r board config fresh = .ok (m, next)) ∧
    ∀ (d : Description) r board config fresh m next,
      d.build c.propositions r board config fresh = .ok (m, next) →
        ∃ handles, Shares d c.propositions r board fresh m handles := by
  obtain ⟨i, hroot, hunfolds⟩ := compile_eq_ok_iff.1 h
  have hatoms : c.formula.occurrences = (List.range c.propositions.length).map propositionName := by
    rw [hunfolds.occurrences_eq, List.range_eq_range']
  have hnodup : c.formula.occurrences.Nodup := by
    rw [hatoms]
    exact List.nodup_range.map propositionName_injective
  obtain ⟨visits, hvisits⟩ := hunfolds.exists_visits
  exact ⟨⟨hatoms, hnodup⟩, ⟨i, visits, hroot, hvisits⟩,
    fun _ _ _ _ _ _ _ hbuild => exists_description h hbuild,
    fun d _ _ _ _ _ _ hbuild => d.exists_shares hbuild⟩

/-- A condition that is to hold again later, both times read off one node. -/
def reply : Behavior :=
  ⟨[⟨"reply", "Flow/Then", [("A", "near"), ("B", "later")], []⟩,
      ⟨"later", "Flow/Eventually", [("X", "near")], []⟩,
      ⟨"near", "Conditions/Boolean Condition", [], [⟨"Value", "near"⟩]⟩],
    some "reply"⟩

def replyFormula : CompiledFormula :=
  ⟨.implies (.atom "p0") (.eventually (.atom "p1")),
    List.replicate 2 ⟨"Conditions/Boolean Condition", [⟨"Value", "near"⟩]⟩⟩

def replyText : String :=
  "States: 2\nAcceptance: 2 Fin(0) & Inf(1)\nStart: 0\n--BODY--\n" ++
  "State: 0\n[0 & !1] 0\n[1] 1\nState: 1\n[t] 1 \x7b1\x7d\n--END--"

def replyBoard : Blackboard := ⟨#[⟨"near", .bool false⟩], [("near", 0)], []⟩

def replyMachine : Machine :=
  let p : Predicate := .shared 0 (.flag 0)
  let q : Predicate := .shared 1 (.flag 0)
  ⟨[⟨"", [⟨.shared 3 (.and p (.shared 2 (.not q))), 0, .ofList []⟩, ⟨q, 1, .ofList []⟩]⟩,
      ⟨"", [⟨.shared 4 .always, 1, .ofList ["1"]⟩]⟩],
    [⟨.ofList ["0"], .ofList ["1"]⟩], 0, #[.finite 1, .finite 0], 1, .default⟩

theorem numbering_aligned_reply :
    reply.compile = .ok replyFormula ∧ replyFormula.formula.occurrences = ["p0", "p1"] ∧
    (∃ visits, reply.Visits 0 "reply" replyFormula.formula replyFormula.propositions visits ∧
      (["A"], "near") ∈ visits ∧ (["B", "X"], "near") ∈ visits) ∧
    reply.build (fun _ => .ok replyText) .builtins replyBoard .default 0 = .ok (replyMachine, 5) ∧
    ∃ d handles, Hanoi.parse replyText = .ok d ∧
      Shares d replyFormula.propositions .builtins replyBoard 0 replyMachine handles ∧
      handles[1]? = some (.shared 1 (.flag 0)) := by
  have hcompile : reply.compile = .ok replyFormula := by decide +kernel
  have hbuild : reply.build (fun _ => .ok replyText) .builtins replyBoard .default 0 =
      .ok (replyMachine, 5) := by
    decide +kernel
  obtain ⟨⟨hatoms, -⟩, ⟨i, visits, hroot, hvisits⟩, hpipeline, hshares⟩ :=
    numbering_aligned hcompile
  cases hroot
  have huser : ∃ n, reply.UserNode "near" n := ⟨_, rfl, rfl⟩
  have hfirst : reply.Route "reply" ["A"] "near" := .cons rfl (by decide) rfl (.nil _)
  have hsecond : reply.Route "reply" ["B", "X"] "near" :=
    .cons rfl (by decide) rfl (.cons rfl (by decide) rfl (.nil _))
  obtain ⟨text, d, ⟨⟩, hd, hmade⟩ := hpipeline _ _ _ _ _ _ _ hbuild
  obtain ⟨handles, hhandles⟩ := hshares d _ _ _ _ _ _ hmade
  obtain ⟨h, hget, -, hinstance⟩ := hhandles.instantiates 1 _ rfl
  have hflag : Registry.builtins.instantiate replyBoard
      ⟨"Conditions/Boolean Condition", [⟨"Value", "near"⟩]⟩ 1 = .ok (.shared 1 (.flag 0), 2) := by
    decide +kernel
  cases hflag.symm.trans hinstance
  exact ⟨hcompile, hatoms, ⟨visits, hvisits, hvisits.mem_iff.2 ⟨hfirst, huser⟩,
    hvisits.mem_iff.2 ⟨hsecond, huser⟩⟩, hbuild, d, handles, hd, hhandles, hget⟩

end Behavior

end RabinReward
