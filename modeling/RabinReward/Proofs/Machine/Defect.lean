import RabinReward.Machine.Tick
import RabinReward.Proofs.Automaton.Distance
import RabinReward.Proofs.First
import RabinReward.Proofs.Guard.Binding
import RabinReward.Proofs.Machine.Construction
import RabinReward.Proofs.Registry.Pass

/-!
# The first defect of a description

A machine is built in passes: the propositions are instantiated, the guards are bound, and the
states are checked one condition after the other. Each pass stops at the first thing that is wrong
(`First`), and a pass that fails hides what the later ones would have found. `Description.defects`
lists, in order of precedence, what can be wrong with a description, without the passes; an error is
`Leading` if it is the first of them that there is. Building fails with exactly that one
(`build_eq_error_iff`).

The checks of the states do not look at guards, so they find the same in a description and in the
machine that is bound to it (`State.unguarded`).
-/

namespace RabinReward

/-! ## Making one after the other -/

/-- Of two things that are made one after the other the first that fails is reported. -/
theorem sequence_eq_error {ε α β γ : Type} {x : Except ε (α × Identity)}
    {y : Identity → Except ε (β × Identity)} {f : α → β → γ} {E F : ε → Prop} {e : ε}
    (hx : ∀ {e}, x = .error e ↔ E e) (hy : ∀ {n e}, y n = .error e ↔ F e) :
    ((do
      let (a, n) ← x
      let (b, n) ← y n
      return (f a b, n)) : Except ε (γ × Identity)) = .error e ↔ E e ∨ (¬∃ e, E e) ∧ F e := by
  refine bind_eq_error_or hx ?_
  rintro ⟨a, n⟩
  rw [bind_eq_error_of_ne, hy]
  rintro ⟨b, n'⟩ h
  cases h

namespace Registry

variable {r : Registry} {board : Blackboard} {fresh : Identity} {e : ResolutionError}

/-- The proposition cannot be instantiated, whatever handle it is to get. -/
def Fails (r : Registry) (board : Blackboard) (p : Proposition) (e : ResolutionError) : Prop :=
  ∀ fresh, r.instantiate board p fresh = .error e

theorem instantiate_eq_error_iff {p : Proposition} :
    r.instantiate board p fresh = .error e ↔ r.Fails board p e := by
  refine ⟨fun h fresh' => ?_, fun h => h fresh⟩
  rw [instantiate, instantiateBy_factory] at h ⊢
  refine bind_eq_error.2 ((bind_eq_error.1 h).imp_right ?_)
  rintro ⟨⟨k, bound⟩, hresolve, h⟩
  refine ⟨(k, bound), hresolve, bind_eq_error.2 ((bind_eq_error.1 h).imp_right ?_)⟩
  rintro ⟨_, -, h⟩
  cases h

theorem instantiateAll_eq_error_iff {ps : List Proposition} :
    r.instantiateAll board fresh ps = .error e ↔
      ∃ p, First (fun p => ∃ e, r.Fails board p e) ps p ∧ r.Fails board p e := by
  induction ps generalizing fresh e with
  | nil => simp [instantiateAll_nil, not_first_nil]
  | cons p ps ih =>
    rw [instantiateAll_cons, exists_first_cons]
    exact sequence_eq_error (y := fun n => r.instantiateAll board n ps) (f := List.cons)
      instantiate_eq_error_iff ih

end Registry

section

variable {props : List Predicate} {fresh : Identity} {e : ResolutionError}

theorem bindTransitions_eq_error_iff {ts : List (Transition Guard)} :
    bindTransitions props fresh ts = .error e ↔
      Guard.Reports props (ts.flatMap fun t => t.guard.leaves) e := by
  induction ts generalizing fresh e with
  | nil => simp [bindTransitions, Guard.Reports, Guard.firstUnknown]
  | cons t ts ih =>
    rw [bindTransitions]
    refine (sequence_eq_error (y := fun n => bindTransitions props n ts)
      (f := fun p us => ⟨p, t.destination, t.tokens⟩ :: us)
      Guard.toPredicate_eq_error_iff ih).trans ?_
    rw [Guard.not_exists_reports, ← Guard.reports_append, List.flatMap_cons]

theorem bindStates_eq_error_iff {ss : List (State Guard)} :
    bindStates props fresh ss = .error e ↔
      Guard.Reports props ((ss.flatMap State.transitions).flatMap fun t => t.guard.leaves) e := by
  induction ss generalizing fresh e with
  | nil => simp [bindStates, Guard.Reports, Guard.firstUnknown]
  | cons s ss ih =>
    rw [bindStates]
    refine (sequence_eq_error (y := fun n => bindStates props n ss)
      (f := fun ts us => ⟨s.label, ts⟩ :: us)
      bindTransitions_eq_error_iff ih).trans ?_
    rw [Guard.not_exists_reports, ← Guard.reports_append, ← List.flatMap_append,
      List.flatMap_cons]

/-- Guards are bound one after the other, each from left to right. -/
theorem Guard.reports_iff {ts : List (Transition Guard)} :
    Guard.Reports props (ts.flatMap fun t => t.guard.leaves) e ↔
      ∃ t i, First (fun t => ∃ i ∈ t.guard.leaves, props.length ≤ i.toNat) ts t ∧
        First (fun i => props.length ≤ i.toNat) t.guard.leaves i ∧
        e = .unknownProposition i props.length := by
  simp only [Guard.Reports, Guard.firstUnknown, find?_eq_some_iff_first, decide_eq_true_eq,
    first_flatMap]
  constructor
  · rintro ⟨i, ⟨t, ht, hi⟩, rfl⟩
    exact ⟨t, i, ht, hi, rfl⟩
  · rintro ⟨t, i, ht, hi, rfl⟩
    exact ⟨i, ⟨t, ht, hi⟩, rfl⟩

end

/-! ## States without their guards -/

section

variable {γ : Type}

def Transition.unguarded (t : Transition γ) : Transition Unit := ⟨(), t.destination, t.tokens⟩

/-- What a state says apart from the guards of its transitions. -/
def State.unguarded (s : State γ) : State Unit := ⟨s.label, s.transitions.map (·.unguarded)⟩

theorem map_eq_map_of_forall₂ {α β δ : Type} {R : α → β → Prop} {f : α → δ} {g : β → δ}
    (hR : ∀ a b, R a b → f a = g b) {l : List α} {l' : List β} (h : List.Forall₂ R l l') :
    l.map f = l'.map g := by
  rw [← List.forall₂_eq_eq_eq, List.forall₂_map_left_iff, List.forall₂_map_right_iff]
  exact h.imp hR

theorem State.Binds.unguarded_eq {props : List Predicate} {s : State Guard}
    {s' : State Predicate} (h : s.Binds props s') : s.unguarded = s'.unguarded := by
  rw [State.unguarded, State.unguarded, h.label, State.mk.injEq]
  refine ⟨rfl, map_eq_map_of_forall₂ (fun t t' ht => ?_) h.transitions⟩
  rw [Transition.unguarded, Transition.unguarded, ht.destination, ht.tokens]

theorem map_unguarded_eq {props : List Predicate} {ss : List (State Guard)}
    {ss' : List (State Predicate)} (h : List.Forall₂ (State.Binds props) ss ss') :
    ss.map State.unguarded = ss'.map State.unguarded :=
  map_eq_map_of_forall₂ (fun _ _ hs => hs.unguarded_eq) h

theorem firstDangling_unguarded (count index : Nat) (ss : List (State γ)) :
    firstDangling count index (ss.map State.unguarded) = firstDangling count index ss := by
  induction ss generalizing index with
  | nil => rfl
  | cons s ss ih =>
    have hfind : s.unguarded.transitions.find? (fun t => count ≤ t.destination) =
        (s.transitions.find? fun t => count ≤ t.destination).map (·.unguarded) := List.find?_map
    rw [List.map_cons, firstDangling, firstDangling, ih, hfind]
    cases s.transitions.find? (fun t => count ≤ t.destination) <;> rfl

theorem Distance.ofSuccessors_unguarded (pairs : List RabinPair) (d : Array Distance)
    (s : State γ) : ofSuccessors pairs d s.unguarded = ofSuccessors pairs d s := by
  rw [ofSuccessors, ofSuccessors, State.accepting, State.accepting, State.unguarded, List.any_map,
    List.foldr_map]
  rfl

theorem Distance.toGoal_unguarded (pairs : List RabinPair) (ss : List (State γ)) :
    toGoal pairs (ss.map State.unguarded) = toGoal pairs ss := by
  have hrelax (d : Array Distance) : relax pairs (ss.map State.unguarded) d = relax pairs ss d := by
    rw [relax, relax, List.map_map]
    exact congrArg List.toArray
      (List.map_congr_left fun s _ => ofSuccessors_unguarded pairs d s)
  have hsettle (n : Nat) (d : Array Distance) :
      settle pairs (ss.map State.unguarded) n d = settle pairs ss n d := by
    induction n generalizing d with
    | zero => rfl
    | succ n ih => rw [settle, settle, hrelax, ih]
  rw [toGoal, toGoal, hsettle, List.length_map]

/-! ## Checks of the states -/

def State.Dangles (count : Nat) (s : State γ) : Prop := ∃ t ∈ s.transitions, count ≤ t.destination

theorem firstDangling_eq_some_iff {count index k d : Nat} {ss : List (State γ)} :
    firstDangling count index ss = some (k, d) ↔
      ∃ s t, First (fun x => x.1.Dangles count) (ss.zipIdx index) (s, k) ∧
        First (fun t => count ≤ t.destination) s.transitions t ∧ t.destination = d := by
  induction ss generalizing index with
  | nil => simp [firstDangling, not_first_nil]
  | cons s ss ih =>
    have hfirst {t : Transition γ} : First (fun t => count ≤ t.destination) s.transitions t ↔
        s.transitions.find? (fun t => count ≤ t.destination) = some t := by
      simp only [find?_eq_some_iff_first, decide_eq_true_eq]
    have hdangles : s.Dangles count ↔
        ∃ t, s.transitions.find? (fun t => count ≤ t.destination) = some t := by
      simp only [← hfirst, exists_first_iff, State.Dangles]
    rw [firstDangling, List.zipIdx_cons]
    simp only [first_cons, hdangles, or_and_right, exists_or]
    cases hfind : s.transitions.find? (fun t => count ≤ t.destination) with
    | some t => simp [hfirst, hfind, eq_comm, and_assoc]
    | none => simp [ih]

theorem largest_toGoal_eq_zero_iff {pairs : List RabinPair} {ss : List (State γ)} :
    Distance.largest (Distance.toGoal pairs ss) = 0 ↔
      ∀ i, ¬AcceptsAt pairs ss i → ∀ k, ¬ReachesIn pairs ss k i := by
  constructor
  · intro hzero i hi k hk
    cases hd : ((Distance.toGoal pairs ss)[i]?).getD .infinite with
    | infinite => exact Distance.toGoal_eq_infinite_iff.1 hd k hk
    | finite j =>
      have hj := Distance.toGoal_eq_finite_iff.1 hd
      have hle := Distance.le_largest (finite_mem_toGoal.2 ⟨i, hj⟩)
      obtain rfl : j = 0 := by omega
      exact hi (reachesIn_zero.1 hj.1)
  · intro hall
    rcases Distance.largest_mem_or (d := Distance.toGoal pairs ss) with hmem | ⟨hzero, -⟩
    · obtain ⟨i, hi⟩ := finite_mem_toGoal.1 hmem
      have haccepts : AcceptsAt pairs ss i := by_contra fun hnot => hall i hnot _ hi.1
      exact Nat.le_zero.1 (hi.2 (reachesIn_zero.2 haccepts))
    · exact hzero

end

/-! ## Precedence -/

section

variable {ε : Type}

/-- The errors of the first kind of defect that there is. -/
def Leading : List (ε → Prop) → ε → Prop
  | [], _ => False
  | D :: rest, e => D e ∨ (¬∃ e, D e) ∧ Leading rest e

variable {D : ε → Prop} {rest : List (ε → Prop)} {e e₀ : ε}

/-- A defect that is found is reported, whatever else is wrong. -/
theorem error_eq_iff_leading {α : Type} (h : ∀ e, D e ↔ e = e₀) :
    (.error e₀ : Except ε α) = .error e ↔ Leading (D :: rest) e := by
  simp [Leading, h, eq_comm]

theorem leading_of_absent (h : ∀ e, ¬D e) : Leading (D :: rest) e ↔ Leading rest e := by
  simp [Leading, h]

theorem not_exists_leading_iff {defects : List (ε → Prop)} :
    (¬∃ e, Leading defects e) ↔ ∀ D ∈ defects, ∀ e, ¬D e := by
  induction defects with
  | nil => simp [Leading]
  | cons D rest ih =>
    rw [List.forall_mem_cons, ← ih, ← not_exists]
    by_cases hD : ∃ e, D e
    · obtain ⟨e, he⟩ := hD
      exact iff_of_false (not_not_intro ⟨e, .inl he⟩) fun h => h.1 ⟨e, he⟩
    · simp only [leading_of_absent (not_exists.1 hD), hD, not_false_eq_true, true_and]

end

namespace Description

/-- Some proposition cannot be instantiated; the first of them says why. -/
def Uninstantiable (props : List Proposition) (r : Registry) (board : Blackboard)
    (e : BuildError) : Prop :=
  ∃ p source, First (fun p => ∃ e, r.Fails board p e) props p ∧ r.Fails board p source ∧
    e = .resolution source

/-- Some guard mentions a proposition that there is not: the leftmost one in the first such guard,
in the order of the states and of their transitions. -/
def Unbound (d : Description) (count : Nat) (e : BuildError) : Prop :=
  ∃ t i, First (fun t => ∃ i ∈ t.guard.leaves, count ≤ i.toNat)
      (d.states.flatMap State.transitions) t ∧
    First (fun i => count ≤ i.toNat) t.guard.leaves i ∧
    e = .resolution (.unknownProposition i count)

def Stateless (d : Description) (e : BuildError) : Prop := d.states = [] ∧ e = .noStates

def StartsOutside (d : Description) (e : BuildError) : Prop :=
  d.states.length ≤ d.initial ∧ e = .initialStateOutOfRange d.initial d.states.length

/-- Some transition leads to no state: the first such one of the lowest-numbered state with one. -/
def LeadsOutside (d : Description) (e : BuildError) : Prop :=
  ∃ s k t, First (fun x => x.1.Dangles d.states.length) d.states.zipIdx (s, k) ∧
    First (fun t => d.states.length ≤ t.destination) s.transitions t ∧
    e = .destinationOutOfRange k t.destination d.states.length

/-- No state that is not accepting can reach one that is. -/
def Progressless (d : Description) (e : BuildError) : Prop :=
  (∀ i, ¬AcceptsAt d.pairs d.states i → ∀ k, ¬ReachesIn d.pairs d.states k i) ∧
    e = .noProgressMetric

def structureDefects (d : Description) : List (BuildError → Prop) :=
  [d.Stateless, d.StartsOutside, d.LeadsOutside, d.Progressless]

/-- What can be wrong with a description and its propositions, in order of precedence. -/
def defects (d : Description) (props : List Proposition) (r : Registry) (board : Blackboard) :
    List (BuildError → Prop) :=
  Uninstantiable props r board :: d.Unbound props.length :: d.structureDefects

variable {d : Description} {props : List Proposition} {handles : List Predicate} {r : Registry}
  {board : Blackboard} {config : Config} {fresh n : Identity} {e : BuildError} {m : Machine}

theorem ofStates_eq_error_iff (config : Config) {ss : List (State Predicate)}
    (h : List.Forall₂ (State.Binds handles) d.states ss) :
    Machine.ofStates ss d.initial d.pairs config = .error e ↔ Leading d.structureDefects e := by
  have hstates := map_unguarded_eq h
  have hlength : ss.length = d.states.length := h.length_eq.symm
  have hdangling : firstDangling d.states.length 0 ss =
      firstDangling d.states.length 0 d.states := by
    rw [← firstDangling_unguarded, ← hstates, firstDangling_unguarded]
  have hdistances : Distance.toGoal d.pairs ss = Distance.toGoal d.pairs d.states := by
    rw [← Distance.toGoal_unguarded, ← hstates, Distance.toGoal_unguarded]
  simp only [Machine.ofStates, hlength, hdangling, hdistances, structureDefects]
  split
  · rename_i hzero
    exact error_eq_iff_leading fun e => and_iff_right (List.length_eq_zero_iff.1 hzero)
  rename_i hpos
  rw [leading_of_absent fun e h => hpos (List.length_eq_zero_iff.2 h.1)]
  split
  · rename_i hinitial
    exact error_eq_iff_leading fun e => and_iff_right hinitial
  rename_i hinitial
  rw [leading_of_absent fun e h => hinitial h.1]
  split
  · rename_i k target hfirst
    refine error_eq_iff_leading fun e => ⟨?_, ?_⟩
    · rintro ⟨s, j, t, hs, ht, rfl⟩
      rw [firstDangling_eq_some_iff.2 ⟨s, t, hs, ht, rfl⟩] at hfirst
      cases hfirst
      rfl
    · rintro rfl
      obtain ⟨s, t, hs, ht, rfl⟩ := firstDangling_eq_some_iff.1 hfirst
      exact ⟨s, k, t, hs, ht, rfl⟩
  rename_i hfirst
  rw [leading_of_absent]
  swap
  · rintro e ⟨s, k, t, hs, ht, -⟩
    rw [firstDangling_eq_some_iff.2 ⟨s, t, hs, ht, rfl⟩] at hfirst
    cases hfirst
  split
  · rename_i hscale
    exact error_eq_iff_leading fun e => and_iff_right (largest_toGoal_eq_zero_iff.1 hscale)
  · rename_i hscale
    rw [leading_of_absent fun e h => hscale (largest_toGoal_eq_zero_iff.2 h.1)]
    refine iff_of_false (fun h => ?_) id
    cases h

theorem materialize_eq_error_iff :
    d.materialize handles config fresh = .error e ↔
      Leading (d.Unbound handles.length :: d.structureDefects) e := by
  have hunbound {source : ResolutionError} : bindStates handles fresh d.states = .error source ↔
      d.Unbound handles.length (.resolution source) := by
    rw [bindStates_eq_error_iff, Guard.reports_iff]
    simp only [Unbound, BuildError.resolution.injEq]
  unfold materialize
  split
  · rename_i source hbind
    refine error_eq_iff_leading fun e => ⟨?_, fun h => h ▸ hunbound.1 hbind⟩
    rintro ⟨t, i, ht, hi, rfl⟩
    rw [hunbound.2 ⟨t, i, ht, hi, rfl⟩] at hbind
    cases hbind
    rfl
  · rename_i ss n hbind
    rw [leading_of_absent, ← ofStates_eq_error_iff config (bindStates_eq_ok hbind)]
    · cases Machine.ofStates ss d.initial d.pairs config <;> simp [Except.map]
    · rintro e ⟨t, i, ht, hi, rfl⟩
      rw [hunbound.2 ⟨t, i, ht, hi, rfl⟩] at hbind
      cases hbind

theorem build_eq_error_iff (config : Config) (fresh : Identity) :
    d.build props r board config fresh = .error e ↔ Leading (d.defects props r board) e := by
  rw [build_eq]
  split
  · rename_i source hall
    refine error_eq_iff_leading fun e => ⟨?_, ?_⟩
    · rintro ⟨p, source', hp, hfails, rfl⟩
      rw [Registry.instantiateAll_eq_error_iff.2 ⟨p, hp, hfails⟩] at hall
      cases hall
      rfl
    · rintro rfl
      obtain ⟨p, hp, hfails⟩ := Registry.instantiateAll_eq_error_iff.1 hall
      exact ⟨p, source, hp, hfails, rfl⟩
  · rename_i handles n hall
    rw [defects, leading_of_absent, ← (Registry.instantiateAll_eq_ok hall).1,
      materialize_eq_error_iff]
    rintro e ⟨p, source, hp, hfails, rfl⟩
    rw [Registry.instantiateAll_eq_error_iff.2 ⟨p, hp, hfails⟩] at hall
    cases hall

theorem build_eq_ok (h : d.build props r board config fresh = .ok (m, n)) :
    m.initial = d.initial ∧ m.pairs = d.pairs ∧ m.config = config ∧
      ∃ handles k, r.instantiateAll board fresh props = .ok (handles, k) ∧
        List.Forall₂ (State.Binds handles) d.states m.states := by
  rw [build_eq] at h
  split at h
  · cases h
  · rename_i handles k hall
    obtain ⟨-, hbinds, hinitial, hpairs, hconfig⟩ := materialize_eq_ok h
    exact ⟨hinitial, hpairs, hconfig, handles, k, hall, hbinds⟩

/-- **Building reports the first defect.** It fails exactly when something is wrong, with what comes
first in the order of precedence. Otherwise the machine runs from the initial state and says in its
states what the description says, with bound guards. -/
theorem build_reports_first_defect (d : Description) (props : List Proposition) (r : Registry)
    (board : Blackboard) (config : Config) (fresh : Identity) :
    (∀ e, d.build props r board config fresh = .error e ↔ Leading (d.defects props r board) e) ∧
    ((∃ m n, d.build props r board config fresh = .ok (m, n)) ↔
      ∀ D ∈ d.defects props r board, ∀ e, ¬D e) ∧
    ∀ m n, d.build props r board config fresh = .ok (m, n) →
      m.start.status = .running ∧ m.start.active = d.initial ∧ m.pairs = d.pairs ∧
      m.config = config ∧ m.states.map State.unguarded = d.states.map State.unguarded ∧
      ∃ handles k, r.instantiateAll board fresh props = .ok (handles, k) ∧
        List.Forall₂ (State.Binds handles) d.states m.states := by
  refine ⟨fun e => build_eq_error_iff config fresh, ?_, fun m n h => ?_⟩
  · rw [← not_exists_leading_iff]
    simp only [← build_eq_error_iff config fresh]
    cases hbuild : d.build props r board config fresh with
    | error e => simp
    | ok made => exact iff_of_true ⟨made.1, made.2, rfl⟩ (by simp)
  · obtain ⟨hinitial, hpairs, hconfig, handles, k, hall, hbinds⟩ := build_eq_ok h
    exact ⟨rfl, hinitial, hpairs, hconfig, (map_unguarded_eq hbinds).symm, handles, k, hall, hbinds⟩

def astray : Description :=
  ⟨7, [], [⟨"", [⟨.prop 0, 5, .empty⟩, ⟨.or (.not (.prop 4)) (.prop 9), 6, .empty⟩,
    ⟨.prop 8, 0, .empty⟩]⟩]⟩

def arrival : Description :=
  ⟨0, [⟨.empty, .ofList ["0"]⟩],
    [⟨"way", [⟨.prop 0, 1, .empty⟩, ⟨.not (.prop 0), 0, .empty⟩]⟩,
      ⟨"goal", [⟨.literal true, 1, .ofList ["0"]⟩]⟩]⟩

theorem build_reports_first_defect_astray :
    let props : List Proposition := [⟨"Conditions/True", []⟩]
    astray.build props .builtins .empty .default 0 =
      .error (.resolution (.unknownProposition 4 1)) ∧
    Leading (astray.defects props .builtins .empty) (.resolution (.unknownProposition 4 1)) ∧
    (∃ m n, arrival.build props .builtins .empty .default 0 = .ok (m, n) ∧
      m.start.active = 0 ∧ m.states.map State.unguarded = arrival.states.map State.unguarded) ∧
    ∀ D ∈ arrival.defects props .builtins .empty, ∀ e, ¬D e := by
  intro props
  have hastray : astray.build props .builtins .empty .default 0 =
      .error (.resolution (.unknownProposition 4 1)) := by rfl
  obtain ⟨herror, -⟩ := build_reports_first_defect astray props .builtins .empty .default 0
  obtain ⟨-, hiff, hok⟩ := build_reports_first_defect arrival props .builtins .empty .default 0
  obtain ⟨m, n, hbuild⟩ :
      ∃ m n, arrival.build props .builtins .empty .default 0 = .ok (m, n) := ⟨_, _, rfl⟩
  obtain ⟨-, hactive, -, -, hstates, -⟩ := hok m n hbuild
  exact ⟨hastray, (herror _).1 hastray, ⟨m, n, hbuild, hactive, hstates⟩, hiff.1 ⟨m, n, hbuild⟩⟩

end Description

end RabinReward
