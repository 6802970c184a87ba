import RabinReward.Proofs.Predicate.Walk
import RabinReward.Proofs.Machine.Construction
import Mathlib.Data.List.Dedup

/-!
# What bound guards share

Binding makes predicates of its own for operators and literals and shares nothing but the handles
of the propositions. `Makes` says what has been made: the new predicates are numbered one after the
other, and what can be reached is these and the handles that the guards mention. It is kept when
guards are bound one after the other (`Makes.append`) and when a predicate is made over what is
there (`Makes.wrap`), so it holds of a guard, of the transitions of a state and of a whole
description. Since all that can be reached has an identity of its own, a visit counts it.
-/

namespace RabinReward

open Predicate

/-- Handles for leaves, each under an identity of its own that is in use. -/
structure LeafHandles (props : List Predicate) (fresh : Identity) : Prop where
  leaf : ∀ p ∈ props, p.children = []
  taken : ∀ p ∈ props, ∃ id < fresh, p.identity = some id
  distinct : (props.map Predicate.identity).Nodup

theorem mem_of_mem_filterMap {props : List Predicate} {indices : List UInt32} {q : Predicate}
    (h : q ∈ indices.filterMap (props[·.toNat]?)) : q ∈ props := by
  obtain ⟨i, -, hi⟩ := List.mem_filterMap.1 h
  exact List.mem_of_getElem? hi

/-- Different indices are bound to handles of different identities. -/
theorem LeafHandles.nodup_identities {props : List Predicate} {fresh : Identity}
    (h : LeafHandles props fresh) {indices : List UInt32} (hindices : indices.Nodup) :
    ((indices.filterMap (props[·.toNat]?)).map Predicate.identity).Nodup := by
  rw [List.map_filterMap]
  refine hindices.filterMap fun i j id hi hj => ?_
  rw [Option.mem_def, ← List.getElem?_map] at hi hj
  have hlt := (List.getElem?_eq_some_iff.1 hi).1
  exact UInt32.toNat_inj.1 ((List.getElem?_inj hlt h.distinct).1 (hi.trans hj.symm))

def Guard.operators : Guard → Nat
  | .literal _ | .prop _ => 0
  | .not g => g.operators + 1
  | .and l r | .or l r => l.operators + r.operators + 1

def Guard.literals (b : Bool) : Guard → Nat
  | .literal c => if c = b then 1 else 0
  | .prop _ => 0
  | .not g => g.literals b
  | .and l r | .or l r => l.literals b + r.literals b

/-- Number of predicates that are made for a guard. A false literal is a negated true one. -/
def Guard.unshared (g : Guard) : Nat := g.operators + g.literals true + 2 * g.literals false

def Description.guards (d : Description) : List Guard :=
  d.states.flatMap fun s => s.transitions.map (·.guard)

/-- The predicates `made` under the identities from `fresh` up to `n`, with the handles for some
propositions, are what can be reached from `ps`. -/
structure Makes (props : List Predicate) (fresh n : Identity) (leaves : List UInt32)
    (ps made : List Predicate) : Prop where
  next : n = fresh + made.length
  identities : made.map Predicate.identity = (List.range' fresh made.length).map some
  bound : ∀ i ∈ leaves, i.toNat < props.length
  below_iff : ∀ q, composition.Below ps q ↔ q ∈ made ∨ ∃ i ∈ leaves, props[i.toNat]? = some q

namespace Makes

variable {props ps qs made made' : List Predicate} {fresh n k : Identity} {us vs : List UInt32}
  {p : Predicate}

theorem nil (props : List Predicate) (fresh : Identity) : Makes props fresh fresh [] [] [] where
  next := rfl
  identities := rfl
  bound := nofun
  below_iff q := by
    refine ⟨fun h => ?_, by rintro (h | ⟨i, h, -⟩) <;> cases h⟩
    induction h with
    | root h => cases h
    | operand _ hq ih => rcases ih with h | ⟨i, h, -⟩ <;> cases h

theorem append (h : Makes props fresh n us ps made) (h' : Makes props n k vs qs made') :
    Makes props fresh k (us ++ vs) (ps ++ qs) (made ++ made') where
  next := by rw [h'.next, h.next, List.length_append, Nat.add_assoc]
  identities := by
    rw [List.map_append, h.identities, h'.identities, List.length_append, h.next,
      ← List.range'_append_1, List.map_append]
  bound := List.forall_mem_append.2 ⟨h.bound, h'.bound⟩
  below_iff q := by
    rw [Composition.below_append, h.below_iff, h'.below_iff]
    simp only [List.mem_append, or_and_right, exists_or]
    exact or_or_or_comm

theorem wrap (h : Makes props fresh n us ps made) (hidentity : p.identity = some n)
    (hchildren : p.children = ps) : Makes props fresh (n + 1) us [p] (made ++ [p]) where
  next := by rw [h.next, List.length_append, List.length_singleton, Nat.add_assoc]
  identities := by
    rw [List.map_append, h.identities, List.length_append, ← List.range'_append_1,
      List.map_append, ← h.next]
    exact congrArg _ (congrArg (· :: []) hidentity)
  bound := h.bound
  below_iff q := by
    have hoperands : composition.operands p = ps := hchildren
    rw [Composition.below_singleton, hoperands, h.below_iff, List.mem_append, List.mem_singleton]
    tauto

theorem handle (hprops : LeafHandles props fresh) {i : UInt32} (hp : props[i.toNat]? = some p)
    (n : Identity) : Makes props n n [i] [p] [] where
  next := rfl
  identities := rfl
  bound j hj := by
    rw [List.mem_singleton.1 hj]
    exact (List.getElem?_eq_some_iff.1 hp).1
  below_iff q := by
    have hoperands : composition.operands p = [] := hprops.leaf p (List.mem_of_getElem? hp)
    rw [Composition.below_singleton, hoperands, (nil props n).below_iff]
    simp [hp, eq_comm]

theorem exists_identity (h : Makes props fresh n us ps made) {q : Predicate} (hq : q ∈ made) :
    ∃ id, fresh ≤ id ∧ q.identity = some id := by
  have hid := List.mem_map_of_mem (f := Predicate.identity) hq
  rw [h.identities] at hid
  obtain ⟨id, hid, heq⟩ := List.mem_map.1 hid
  exact ⟨id, (List.mem_range'_1.1 hid).1, heq.symm⟩

/-- What is visited are the predicates made and one handle for each proposition mentioned. -/
theorem reachable_eq (h : Makes props fresh n us ps made) (hprops : LeafHandles props fresh)
    {indices : List UInt32} (hnodup : indices.Nodup) (hindices : ∀ i, i ∈ indices ↔ i ∈ us) :
    reachable ps = made.length + indices.length := by
  have hperm : (composition.visits ps).Perm (made ++ indices.filterMap (props[·.toNat]?)) := by
    refine composition.visits_perm_of_named (fun q => ?_) (fun q hq => ?_) ?_
    · rw [h.below_iff, List.mem_append, List.mem_filterMap]
      simp only [hindices]
    · rw [List.mem_append] at hq
      obtain ⟨id, -, hid⟩ | ⟨id, -, hid⟩ :=
        hq.imp h.exists_identity fun hq => hprops.taken q (mem_of_mem_filterMap hq)
      all_goals exact Option.isSome_iff_exists.2 ⟨id, hid⟩
    · rw [List.map_append, List.nodup_append]
      refine ⟨?_, hprops.nodup_identities hnodup, ?_⟩
      · show (made.map Predicate.identity).Nodup
        rw [h.identities]
        exact List.Nodup.map (fun _ _ => Option.some.inj) List.nodup_range'
      · rintro _ hx _ hy rfl
        obtain ⟨p, hp, rfl⟩ := List.mem_map.1 hx
        obtain ⟨q, hq, hqp⟩ := List.mem_map.1 hy
        obtain ⟨id, hle, hid⟩ := h.exists_identity hp
        obtain ⟨id', hlt, hid'⟩ := hprops.taken q (mem_of_mem_filterMap hq)
        cases hid'.symm.trans (hqp.trans hid)
        exact Nat.not_lt.2 hle hlt
  have hlength : (indices.filterMap (props[·.toNat]?)).length = indices.length := by
    refine List.filterMap_length_eq_length.2 fun i hi => ?_
    rw [List.getElem?_eq_getElem (h.bound i ((hindices i).1 hi))]
    rfl
  rw [reachable, visit_eq_visits, hperm.length_eq, List.length_append, hlength]

end Makes

/-! ## Guards -/

namespace Guard

variable {props : List Predicate} {fresh n base : Identity} {g : Guard} {p : Predicate}

theorem exists_makes (hprops : LeafHandles props base)
    (h : g.toPredicate props fresh = .ok (p, n)) :
    ∃ made, made.length = g.unshared ∧ Makes props fresh n g.leaves [p] made := by
  induction g generalizing fresh p n with
  | literal b =>
    cases b <;> cases h
    · have halways := (Makes.nil props fresh).wrap (p := .shared fresh .always) rfl rfl
      exact ⟨_, rfl, halways.wrap rfl rfl⟩
    · exact ⟨_, rfl, (Makes.nil props fresh).wrap rfl rfl⟩
  | prop i =>
    simp only [toPredicate] at h
    split at h
    · rename_i q hq
      cases h
      exact ⟨[], rfl, Makes.handle hprops hq fresh⟩
    · cases h
  | not g ih =>
    obtain ⟨⟨q, m⟩, hq, h⟩ := bind_eq_ok.1 h
    cases h
    obtain ⟨made, hlength, hmade⟩ := ih hq
    refine ⟨_, ?_, hmade.wrap rfl rfl⟩
    simp only [unshared, operators, literals, List.length_append, List.length_singleton]
      at hlength ⊢
    omega
  | and l r ihl ihr | or l r ihl ihr =>
    obtain ⟨p₁, n₁, p₂, n₂, hl, hr, rfl, rfl⟩ := operands_eq_ok h
    obtain ⟨made₁, hlength₁, hmade₁⟩ := ihl hl
    obtain ⟨made₂, hlength₂, hmade₂⟩ := ihr hr
    refine ⟨_, ?_, (hmade₁.append hmade₂).wrap rfl rfl⟩
    simp only [unshared, operators, literals, List.length_append, List.length_singleton]
      at hlength₁ hlength₂ ⊢
    omega

end Guard

/-! ## Descriptions -/

inductive Bindings (props : List Predicate) :
    Identity → List Guard → List Predicate → Identity → Prop where
  | nil (fresh : Identity) : Bindings props fresh [] [] fresh
  | cons {fresh n k : Identity} {g : Guard} {p : Predicate} {gs : List Guard}
      {ps : List Predicate} : g.toPredicate props fresh = .ok (p, n) → Bindings props n gs ps k →
      Bindings props fresh (g :: gs) (p :: ps) k

namespace Bindings

variable {props ps qs : List Predicate} {fresh n k base : Identity} {gs hs : List Guard}

theorem append (h : Bindings props fresh gs ps n) (h' : Bindings props n hs qs k) :
    Bindings props fresh (gs ++ hs) (ps ++ qs) k := by
  induction h with
  | nil => exact h'
  | cons hg _ ih => exact .cons hg (ih h')

theorem of_bindTransitions {ts : List (Transition Guard)} {ts' : List (Transition Predicate)}
    (h : bindTransitions props fresh ts = .ok (ts', n)) :
    Bindings props fresh (ts.map (·.guard)) (ts'.map (·.guard)) n := by
  induction ts generalizing fresh ts' with
  | nil =>
    cases h
    exact .nil _
  | cons t ts ih =>
    obtain ⟨⟨p, k⟩, hp, h⟩ := bind_eq_ok.1 h
    obtain ⟨⟨us, l⟩, hus, h⟩ := bind_eq_ok.1 h
    cases h
    exact .cons hp (ih hus)

theorem of_bindStates {ss : List (State Guard)} {ss' : List (State Predicate)}
    (h : bindStates props fresh ss = .ok (ss', n)) :
    Bindings props fresh (ss.flatMap fun s => s.transitions.map (·.guard))
      (ss'.flatMap fun s => s.transitions.map (·.guard)) n := by
  induction ss generalizing fresh ss' with
  | nil =>
    cases h
    exact .nil _
  | cons s ss ih =>
    obtain ⟨⟨ts, k⟩, hts, h⟩ := bind_eq_ok.1 h
    obtain ⟨⟨us, l⟩, hus, h⟩ := bind_eq_ok.1 h
    cases h
    exact (of_bindTransitions hts).append (ih hus)

theorem of_materialize {d : Description} {config : Config} {m : Machine}
    (h : d.materialize props config fresh = .ok (m, n)) :
    Bindings props fresh d.guards m.guards n :=
  of_bindStates (Description.bindStates_of_materialize h).1

theorem exists_makes (hprops : LeafHandles props base) (h : Bindings props fresh gs ps n) :
    ∃ made, made.length = (gs.map Guard.unshared).sum ∧
      Makes props fresh n (gs.flatMap Guard.leaves) ps made := by
  induction h with
  | nil fresh => exact ⟨[], rfl, .nil props fresh⟩
  | cons hg _ ih =>
    obtain ⟨made, hlength, hmade⟩ := Guard.exists_makes hprops hg
    obtain ⟨made', hlength', hmade'⟩ := ih
    refine ⟨made ++ made', ?_, hmade.append hmade'⟩
    rw [List.length_append, hlength, hlength', List.map_cons, List.sum_cons]

end Bindings

/-- **Bound guards share propositions and nothing else.** What can be reached from the transitions
of a machine is one predicate for each operator and each true literal, two for each false one, and
one for each proposition that some guard mentions. So it is for a single guard. -/
theorem propositions_shared {props : List Predicate} {fresh : Identity}
    (hprops : LeafHandles props fresh) :
    (∀ (d : Description) config m n, d.materialize props config fresh = .ok (m, n) →
      reachable m.guards =
        (d.guards.map fun g => g.operators + g.literals true + 2 * g.literals false).sum +
          (d.guards.flatMap fun g => g.propositions.toList).dedup.length) ∧
    ∀ (g : Guard) p n, g.toPredicate props fresh = .ok (p, n) →
      reachable [p] =
        g.operators + g.literals true + 2 * g.literals false + g.propositions.toList.length := by
  refine ⟨fun d config m n h => ?_, fun g p n h => ?_⟩
  · obtain ⟨made, hlength, hmade⟩ := (Bindings.of_materialize h).exists_makes hprops
    rw [hmade.reachable_eq hprops (List.nodup_dedup _) fun i => ?_, hlength]
    · rfl
    · simp only [List.mem_dedup, List.mem_flatMap, ← SortedSet.mem_def, Guard.mem_propositions]
  · obtain ⟨made, hlength, hmade⟩ := Guard.exists_makes hprops h
    rw [hmade.reachable_eq hprops g.propositions.nodup_toList fun i => Guard.mem_propositions,
      hlength]
    rfl

def watch : Description :=
  ⟨0, [⟨.empty, .ofList ["0"]⟩],
    [⟨"", [⟨.prop 0, 1, .empty⟩, ⟨.not (.prop 0), 0, .empty⟩,
        ⟨.and (.prop 1) (.literal false), 0, .empty⟩]⟩,
      ⟨"", [⟨.prop 1, 1, .ofList ["0"]⟩]⟩]⟩

theorem propositions_shared_watch :
    let props : List Predicate := [.shared 0 (.sensor 0), .shared 1 (.sensor 1)]
    LeafHandles props 2 ∧
    (∃ m n, watch.materialize props .default 2 = .ok (m, n) ∧ reachable m.guards = 6) ∧
    ∃ p n, (Guard.and (.prop 1) (.literal false)).toPredicate props 2 = .ok (p, n) ∧
      reachable [p] = 4 := by
  intro props
  have hprops : LeafHandles props 2 := ⟨by decide, by simp [props, identity], by decide⟩
  obtain ⟨hmachine, hguard⟩ := propositions_shared hprops
  exact ⟨hprops, ⟨_, _, rfl, hmachine watch .default _ _ rfl⟩,
    ⟨_, _, rfl, hguard (.and (.prop 1) (.literal false)) _ _ rfl⟩⟩

end RabinReward
