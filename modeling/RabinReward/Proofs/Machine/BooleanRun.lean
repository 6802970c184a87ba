import RabinReward.Proofs.Machine.Construction
import RabinReward.Proofs.Machine.Selection

/-!
# Ticks as Boolean runs

A description can be run on words of valuations (`Description.Runs`), and a machine made from it on
readings. Readings under which no proposition is undefined or zero show one valuation (`truth`).
Whenever a guard that leaves the active state is true under it, the tick takes a transition whose
guard is true (`exists_takesAt`). So the machine of a deterministic description follows its only
run, up to the verdict if verdicts halt it (`trace_followsUntilHalt`).
-/

namespace RabinReward

/-- The propositions are all defined and none is zero. -/
def Decisive (ρ : Rounding) (r : Readings) (props : List Predicate) : Prop :=
  ∀ p ∈ props, p.robustness ρ r ≠ .nan ∧ p.robustness ρ r ≠ 0

/-- The valuation that makes the propositions of positive robustness true. -/
def truth (ρ : Rounding) (props : List Predicate) (r : Readings) : UInt32 → Bool :=
  fun i => decide (0 < Guard.row ρ r props i)

variable {ρ : Rounding} {r : Readings} {props : List Predicate}

theorem Decisive.row (h : Decisive ρ r props) {i : UInt32} (hi : i.toNat < props.length) :
    Guard.row ρ r props i ≠ .nan ∧ Guard.row ρ r props i ≠ 0 := by
  rw [Guard.row, List.getElem?_eq_getElem hi]
  exact h _ (List.getElem_mem hi)

namespace Transition

variable {t : Transition Guard} {t' : Transition Predicate}

theorem Binds.decisive (h : t.Binds props t') (hr : Decisive ρ r props) :
    ∀ i ∈ t.guard.leaves, Guard.row ρ r props i ≠ .nan ∧ Guard.row ρ r props i ≠ 0 := by
  obtain ⟨⟨fresh, n, hguard⟩, -, -⟩ := h
  exact fun i hi => hr.row ((Guard.robustness_toPredicate hguard ρ r).2 i hi)

theorem Binds.robustness_eq (h : t.Binds props t') :
    t'.guard.robustness ρ r = t.guard.value (Guard.row ρ r props) := by
  obtain ⟨⟨fresh, n, hguard⟩, -, -⟩ := h
  exact (Guard.robustness_toPredicate hguard ρ r).1

theorem Binds.robustness_pos_iff (h : t.Binds props t') (hr : Decisive ρ r props) :
    0 < t'.guard.robustness ρ r ↔ t.guard.holds (truth ρ props r) = true := by
  rw [h.robustness_eq]
  exact Guard.value_pos_iff (h.decisive hr)

end Transition

/-! ## One tick -/

namespace Machine

variable {m : Machine} {s : Snapshot}

def TakesAt (m : Machine) (ρ : Rounding) (r : Readings) (s : Snapshot) (i : Nat) : Prop :=
  ∃ t x, (m.transitions s.active)[i]? = some t ∧ (m.guardValues ρ r s)[i]? = some x ∧
    m.tick ρ r s = m.take ρ (m.guardValues ρ r s) s t x

theorem rated_guardValues (m : Machine) (ρ : Rounding) (r : Readings) (s : Snapshot) :
    m.rated (m.guardValues ρ r s) s =
      (m.transitions s.active).map fun t => (t, t.guard.robustness ρ r) :=
  List.map_prod_left_eq_zip.symm

theorem tick_halted (hs : m.halted s = true) (ρ : Rounding) (r : Readings) :
    m.tick ρ r s = (0, s) :=
  step_halted hs ρ _

theorem exists_takesAt_pos (hs : m.halted s = false) {t : Transition Predicate}
    (ht : t ∈ m.transitions s.active) (hpos : 0 < t.guard.robustness ρ r) :
    ∃ i u, (m.transitions s.active)[i]? = some u ∧ 0 < u.guard.robustness ρ r ∧
      m.TakesAt ρ r s i ∧ (m.tick ρ r s).2.active = u.destination := by
  have hmem : (t, t.guard.robustness ρ r) ∈ m.rated (m.guardValues ρ r s) s := by
    rw [rated_guardValues]
    exact List.mem_map_of_mem ht
  obtain ⟨u, x, hbest, hstep⟩ := exists_firstBest hs ρ hmem (Robustness.ne_nan_of_lt hpos).2
  have hle := hbest.le hmem (Robustness.ne_nan_of_lt hpos).2
  obtain ⟨i, hi, -⟩ := hbest.exists_index
  obtain ⟨hu, hx⟩ := List.getElem?_zip_eq_some.1 hi
  have hval : x = u.guard.robustness ρ r := by
    rw [guardValues, List.getElem?_map, hu] at hx
    exact (Option.some.inj hx).symm
  rw [← tick_eq_step] at hstep
  refine ⟨i, u, hu, ?_, ⟨u, x, hu, hx, hstep⟩, by rw [hstep]; rfl⟩
  rw [← hval]
  exact Robustness.lt_of_lt_of_le hpos hle

end Machine

namespace Description

variable {d : Description} {m : Machine} {s : Snapshot}

theorem exists_takesAt (hb : List.Forall₂ (State.Binds props) d.states m.states)
    (hs : m.halted s = false) (hr : Decisive ρ r props)
    (htrue : ∃ t ∈ d.transitions s.active, t.guard.holds (truth ρ props r) = true) :
    ∃ i t, (d.transitions s.active)[i]? = some t ∧ t.guard.holds (truth ρ props r) = true ∧
      m.TakesAt ρ r s i ∧ (m.tick ρ r s).2.active = t.destination := by
  have hbinds := forall₂_transitions hb s.active
  obtain ⟨t, ht, hholds⟩ := htrue
  obtain ⟨j, hj⟩ := List.mem_iff_getElem?.1 ht
  obtain ⟨t', hj', hbind⟩ := exists_getElem?_of_forall₂ hbinds.flip hj
  obtain ⟨i, u', hu', hpos, htakes, hactive⟩ := Machine.exists_takesAt_pos hs
    (List.mem_of_getElem? hj') ((hbind.robustness_pos_iff hr).2 hholds)
  obtain ⟨u, hu, hbind'⟩ := exists_getElem?_of_forall₂ hbinds hu'
  exact ⟨i, u, hu, (hbind'.robustness_pos_iff hr).1 hpos, htakes,
    hactive.trans hbind'.destination⟩

/-! ## Runs of a description -/

/-- In every state exactly one transition has a true guard, whatever the valuation. -/
def Deterministic (d : Description) : Prop :=
  ∀ s ∈ d.states, ∀ b, s.transitions.countP (·.guard.holds b) = 1

/-- The states that a description can pass from a given one on while it reads a word. -/
inductive Runs (d : Description) : Nat → List (UInt32 → Bool) → List Nat → Prop where
  | nil {q : Nat} : Runs d q [] [q]
  | cons {q : Nat} {b : UInt32 → Bool} {word : List (UInt32 → Bool)} {path : List Nat}
      {t : Transition Guard} : t ∈ d.transitions q → t.guard.holds b = true →
      Runs d t.destination word path → Runs d q (b :: word) (q :: path)

theorem Runs.length_eq {q : Nat} {word : List (UInt32 → Bool)} {path : List Nat}
    (h : d.Runs q word path) : path.length = word.length + 1 := by
  induction h with
  | nil => rfl
  | cons _ _ _ ih => rw [List.length_cons, List.length_cons, ih]

theorem Runs.exists_cons {q : Nat} {word : List (UInt32 → Bool)} {path : List Nat}
    (h : d.Runs q word path) : ∃ rest, path = q :: rest := by
  cases h with
  | nil => exact ⟨[], rfl⟩
  | cons _ _ _ => exact ⟨_, rfl⟩

theorem Deterministic.exists_unique (h : d.Deterministic) {q : Nat} (hq : q < d.states.length)
    (b : UInt32 → Bool) : ∃ t ∈ d.transitions q, t.guard.holds b = true ∧
      ∀ u ∈ d.transitions q, u.guard.holds b = true → u = t := by
  have hcount := h _ (List.getElem_mem hq) b
  have htrans : d.transitions q = d.states[q].transitions := by
    rw [transitions, List.getElem?_eq_getElem hq]
    rfl
  rw [List.countP_eq_length_filter, List.length_eq_one_iff] at hcount
  obtain ⟨t, hfilter⟩ := hcount
  have hiff : ∀ u, u ∈ d.transitions q ∧ u.guard.holds b = true ↔ u = t := by
    intro u
    have hmem : u ∈ d.states[q].transitions.filter (·.guard.holds b) ↔ u = t := by
      rw [hfilter, List.mem_singleton]
    rw [htrans]
    exact List.mem_filter.symm.trans hmem
  exact ⟨t, ((hiff t).2 rfl).1, ((hiff t).2 rfl).2, fun u hu hub => (hiff u).1 ⟨hu, hub⟩⟩

theorem Deterministic.runs_cons_iff (h : d.Deterministic) {q : Nat} (hq : q < d.states.length)
    {b : UInt32 → Bool} {t : Transition Guard} (ht : t ∈ d.transitions q)
    (hb : t.guard.holds b = true) {word : List (UInt32 → Bool)} {path : List Nat} :
    d.Runs q (b :: word) path ↔ ∃ rest, path = q :: rest ∧ d.Runs t.destination word rest := by
  obtain ⟨t₀, -, -, honly⟩ := h.exists_unique hq b
  constructor
  · intro hrun
    cases hrun with
    | cons hu hub hrest =>
      rw [honly _ hu hub, ← honly t ht hb] at hrest
      exact ⟨_, rfl, hrest⟩
  · rintro ⟨rest, rfl, hrest⟩
    exact .cons ht hb hrest

theorem Deterministic.exists_run (h : d.Deterministic)
    (hrange : ∀ q, ∀ t ∈ d.transitions q, t.destination < d.states.length)
    (word : List (UInt32 → Bool)) {q : Nat} (hq : q < d.states.length) :
    ∃ path, ∀ p, d.Runs q word p ↔ p = path := by
  induction word generalizing q with
  | nil =>
    refine ⟨[q], fun p => ⟨fun hrun => ?_, ?_⟩⟩
    · cases hrun
      rfl
    · rintro rfl
      exact .nil
  | cons b word ih =>
    obtain ⟨t, ht, hb, -⟩ := h.exists_unique hq b
    obtain ⟨rest, hrest⟩ := ih (hrange q t ht)
    refine ⟨q :: rest, fun p => ?_⟩
    rw [h.runs_cons_iff hq ht hb]
    constructor
    · rintro ⟨rest', rfl, hrun⟩
      rw [(hrest rest').1 hrun]
    · rintro rfl
      exact ⟨rest, rfl, (hrest rest).2 rfl⟩

theorem destination_lt (hb : List.Forall₂ (State.Binds props) d.states m.states)
    (hm : m.WellFormed) {q : Nat} {t : Transition Guard} (ht : t ∈ d.transitions q) :
    t.destination < d.states.length := by
  obtain ⟨i, hi⟩ := List.mem_iff_getElem?.1 ht
  obtain ⟨t', hi', hbind⟩ := exists_getElem?_of_forall₂ (forall₂_transitions hb q).flip hi
  rw [hb.length_eq, ← hbind.destination]
  exact hm.destination_lt_of_mem (List.mem_of_getElem? hi')

end Description

/-! ## Runs of a machine -/

namespace Machine

variable {m : Machine} {s : Snapshot}

def trace (m : Machine) (ρ : Rounding) : List Readings → Snapshot → List Snapshot
  | [], s => [s]
  | r :: rs, s => s :: m.trace ρ rs (m.tick ρ r s).2

theorem length_trace (rs : List Readings) (s : Snapshot) :
    (m.trace ρ rs s).length = rs.length + 1 := by
  induction rs generalizing s with
  | nil => rfl
  | cons r rs ih => rw [trace, List.length_cons, List.length_cons, ih]

theorem trace_halted (hs : m.halted s = true) (rs : List Readings) :
    m.trace ρ rs s = List.replicate (rs.length + 1) s := by
  induction rs with
  | nil => rfl
  | cons r rs ih =>
    rw [trace, tick_halted hs, ih]
    rfl

/-- The snapshots follow a path step by step up to one that is kept from then on, which halts the
machine unless the sequence ends with it. -/
def FollowsUntilHalt (m : Machine) (snapshots : List Snapshot) (path : List Nat) : Prop :=
  ∃ live last n, snapshots = live ++ List.replicate (n + 1) last ∧
    (∀ s ∈ live, m.halted s = false) ∧ (live ++ [last]).map (·.active) <+: path ∧
    (0 < n → m.halted last = true)

theorem FollowsUntilHalt.cons {snapshots : List Snapshot} {path : List Nat}
    (h : m.FollowsUntilHalt snapshots path) (hs : m.halted s = false) :
    m.FollowsUntilHalt (s :: snapshots) (s.active :: path) := by
  obtain ⟨live, last, n, rfl, hlive, hprefix, hlast⟩ := h
  exact ⟨s :: live, last, n, rfl, List.forall_mem_cons.2 ⟨hs, hlive⟩,
    List.cons_prefix_cons.2 ⟨rfl, hprefix⟩, hlast⟩

/-- Where nothing halts the machine it follows the whole of a path of the same length. -/
theorem FollowsUntilHalt.eq_path {snapshots : List Snapshot} {path : List Nat}
    (h : m.FollowsUntilHalt snapshots path) (hnever : ∀ s, m.halted s = false)
    (hlength : snapshots.length = path.length) : snapshots.map (·.active) = path := by
  obtain ⟨live, last, n, rfl, -, hprefix, hlast⟩ := h
  obtain rfl : n = 0 := by
    by_contra hn
    have := hlast (by omega)
    rw [hnever] at this
    cases this
  refine hprefix.eq_of_length ?_
  rw [List.length_map]
  exact hlength

end Machine

namespace Description

variable {d : Description} {m : Machine}

/-- A machine follows the run of its description until a verdict halts it. -/
theorem trace_followsUntilHalt (hb : List.Forall₂ (State.Binds props) d.states m.states)
    (hm : m.WellFormed) (hdet : d.Deterministic) {rs : List Readings}
    (hrs : ∀ r ∈ rs, Decisive ρ r props) {s : Snapshot} (hs : s.active < d.states.length)
    {path : List Nat} (hrun : d.Runs s.active (rs.map (truth ρ props)) path) :
    m.FollowsUntilHalt (m.trace ρ rs s) path := by
  induction rs generalizing s path with
  | nil =>
    cases hrun
    exact ⟨[], s, 0, rfl, nofun, List.prefix_rfl, nofun⟩
  | cons r rs ih =>
    cases hh : m.halted s with
    | true =>
      obtain ⟨rest, rfl⟩ := hrun.exists_cons
      rw [Machine.trace_halted hh]
      exact ⟨[], s, (r :: rs).length, rfl, nofun, ⟨rest, rfl⟩, fun _ => hh⟩
    | false =>
      rw [List.forall_mem_cons] at hrs
      obtain ⟨t, ht, hholds, -⟩ := hdet.exists_unique hs (truth ρ props r)
      obtain ⟨i, u, hu, hub, -, hactive⟩ := exists_takesAt hb hh hrs.1 ⟨t, ht, hholds⟩
      have hmem := List.mem_of_getElem? hu
      obtain ⟨rest, rfl, hrest⟩ := (hdet.runs_cons_iff hs hmem hub).1 hrun
      rw [← hactive] at hrest
      have hlt : (m.tick ρ r s).2.active < d.states.length := by
        rw [hactive]
        exact destination_lt hb hm hmem
      exact (ih hrs.2 hlt hrest).cons hh

/-- **A machine refines its description.** Where some guard is true, a tick takes a transition whose
guard is true. The active states of a machine that verdicts do not halt are the only run of a
deterministic description. Where verdicts halt the machine, they follow that run until the first
verdict and are constant from it on. -/
theorem materialize_refines {d : Description} {props : List Predicate} {config : Config}
    {fresh n : Identity} {m : Machine} (h : d.materialize props config fresh = .ok (m, n))
    (ρ : Rounding) :
    (∀ s r, m.halted s = false → Decisive ρ r props →
      (∃ t ∈ d.transitions s.active, t.guard.holds (truth ρ props r) = true) →
      ∃ i t, (d.transitions s.active)[i]? = some t ∧ t.guard.holds (truth ρ props r) = true ∧
        m.TakesAt ρ r s i ∧ (m.tick ρ r s).2.active = t.destination) ∧
    (d.Deterministic → ∀ rs : List Readings, (∀ r ∈ rs, Decisive ρ r props) →
      (config.stopOnAcceptance = false → ∀ path,
        d.Runs d.initial (rs.map (truth ρ props)) path ↔
          path = (m.trace ρ rs m.start).map (·.active)) ∧
      (config.stopOnAcceptance = true → ∃ path,
        (∀ p, d.Runs d.initial (rs.map (truth ρ props)) p ↔ p = path) ∧
        ∃ live last n, m.trace ρ rs m.start = live ++ List.replicate (n + 1) last ∧
          (∀ s ∈ live, s.status = .running) ∧ (live ++ [last]).map (·.active) <+: path ∧
          (0 < n → last.status ≠ .running))) := by
  obtain ⟨hm, hb, hinit, -, rfl⟩ := materialize_eq_ok h
  refine ⟨fun s r hs hr htrue => exists_takesAt hb hs hr htrue, fun hdet rs hrs => ?_⟩
  have hstart : m.start.active < d.states.length := by
    rw [hb.length_eq]
    exact hm.initial_lt
  obtain ⟨path, hpath⟩ := hdet.exists_run (fun q t ht => destination_lt hb hm ht)
    (rs.map (truth ρ props)) hstart
  have hfollows := trace_followsUntilHalt hb hm hdet hrs hstart ((hpath path).2 rfl)
  have hlength := ((hpath path).2 rfl).length_eq
  rw [show m.start.active = d.initial from hinit] at hpath
  constructor
  · intro hstop
    have hnever : ∀ s, m.halted s = false := fun s => by rw [Machine.halted, hstop, Bool.and_false]
    rw [hfollows.eq_path hnever (by rw [hlength, List.length_map, Machine.length_trace])]
    exact hpath
  · intro hstop
    obtain ⟨live, last, n, htrace, hlive, hprefix, hlast⟩ := hfollows
    simp only [Machine.halted, hstop, Bool.and_true, bne_eq_false_iff_eq, bne_iff_ne]
      at hlive hlast
    exact ⟨path, hpath, live, last, n, htrace, hlive, hprefix, hlast⟩

def eventually : Description :=
  ⟨0, [⟨.empty, .ofList ["0"]⟩],
    [⟨"", [⟨.prop 0, 1, .empty⟩, ⟨.not (.prop 0), 0, .empty⟩]⟩,
      ⟨"", [⟨.literal true, 1, .ofList ["0"]⟩]⟩]⟩

def eventuallyMachine (stop : Bool) : Machine :=
  ⟨[⟨"", [⟨.sensor 0, 1, .empty⟩, ⟨.shared 1 (.not (.sensor 0)), 0, .empty⟩]⟩,
      ⟨"", [⟨.shared 2 .always, 1, .ofList ["0"]⟩]⟩],
    [⟨.empty, .ofList ["0"]⟩], 0, #[.finite 1, .finite 0], 1, ⟨stop, false⟩⟩

def eventuallyReadings : List Readings :=
  [-1, .posInf, -1, -1].map fun x => ⟨fun _ => x, fun _ => none⟩

theorem eventually_deterministic : eventually.Deterministic := by
  intro s hs b
  obtain rfl | rfl := List.mem_pair.1 hs
  · cases hb : b 0 <;> simp [Guard.holds, hb]
  · rfl

theorem materialize_refines_eventually :
    eventually.Deterministic ∧ (∀ r ∈ eventuallyReadings, Decisive .exact r [.sensor 0]) ∧
    eventually.materialize [.sensor 0] ⟨false, false⟩ 1 = .ok (eventuallyMachine false, 3) ∧
    (∀ path, eventually.Runs 0 (eventuallyReadings.map (truth .exact [.sensor 0])) path ↔
      path = [0, 0, 1, 1, 1]) ∧
    eventually.materialize [.sensor 0] ⟨true, false⟩ 1 = .ok (eventuallyMachine true, 3) ∧
    (∀ r ∈ eventuallyReadings, ∃ i,
      (eventuallyMachine true).TakesAt .exact r (eventuallyMachine true).start i) ∧
    ∃ live last n, (eventuallyMachine true).trace .exact eventuallyReadings
        (eventuallyMachine true).start = live ++ List.replicate (n + 1) last ∧
      (∀ s ∈ live, s.status = .running) ∧ (live ++ [last]).map (·.active) <+: [0, 0, 1, 1, 1] ∧
      (0 < n → last.status ≠ .running) := by
  have hdecisive : ∀ r ∈ eventuallyReadings, Decisive .exact r [.sensor 0] := by
    simp only [eventuallyReadings, Decisive, List.forall_mem_map, List.forall_mem_singleton]
    decide
  have hfree : eventually.materialize [.sensor 0] ⟨false, false⟩ 1 =
      .ok (eventuallyMachine false, 3) := rfl
  have hstop : eventually.materialize [.sensor 0] ⟨true, false⟩ 1 =
      .ok (eventuallyMachine true, 3) := rfl
  obtain ⟨-, hrun⟩ := materialize_refines hfree .exact
  have hpath := (hrun eventually_deterministic eventuallyReadings hdecisive).1 rfl
  rw [show ((eventuallyMachine false).trace .exact eventuallyReadings
    (eventuallyMachine false).start).map (·.active) = [0, 0, 1, 1, 1] by decide] at hpath
  obtain ⟨htick, hhalt⟩ := materialize_refines hstop .exact
  obtain ⟨path, hiff, hsplit⟩ :=
    (hhalt eventually_deterministic eventuallyReadings hdecisive).2 rfl
  obtain rfl := (hpath path).1 ((hiff path).2 rfl)
  refine ⟨eventually_deterministic, hdecisive, hfree, hpath, hstop, fun r hr => ?_, hsplit⟩
  obtain ⟨t, ht, hholds, -⟩ := eventually_deterministic.exists_unique
    (show 0 < eventually.states.length by decide) (truth .exact [.sensor 0] r)
  obtain ⟨i, -, -, -, htakes, -⟩ :=
    htick (eventuallyMachine true).start r rfl (hdecisive r hr) ⟨t, ht, hholds⟩
  exact ⟨i, htakes⟩

end Description

end RabinReward
