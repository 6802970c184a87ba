import RabinReward.Proofs.Blackboard.Coherence
import RabinReward.Proofs.Registry.Resolution

/-!
# Live conditions

A built-in condition checks the kinds of its entries once, when it is made. Since no history of
actions changes the kind of an entry (`Onward.entry`), it measures the values that the entries
have at the time and never falls back on what it shows for a value of a wrong kind.
-/

namespace RabinReward

namespace Value

theorem exists_of_kind_bool {v : Value} (h : v.kind = .bool) : ∃ b, v = .bool b := by
  cases v with
  | bool b => exact ⟨b, rfl⟩
  | int i | float x | text t => cases h

/-- The number that is stored, as a robustness. -/
inductive Stores (ρ : Rounding) : Value → Robustness → Prop where
  | float (x : Robustness) : Stores ρ (.float x) x
  | int (i : Int64) : Stores ρ (.int i) (ρ.round i.toInt)

theorem exists_stores (ρ : Rounding) {v : Value} (h : v.kind = .float ∨ v.kind = .int) :
    ∃ x, v.Stores ρ x := by
  cases v with
  | float x => exact ⟨x, .float x⟩
  | int i => exact ⟨ρ.round i.toInt, .int i⟩
  | bool b | text t => rcases h with h | h <;> cases h

theorem Stores.asFloat_eq {ρ : Rounding} {v : Value} {x : Robustness} (h : v.Stores ρ x) :
    v.asFloat ρ = some x := by
  cases h <;> rfl

end Value

theorem accepts_bool {k : ValueKind} (h : ValueKind.bool.accepts k = true) : k = .bool := by
  cases k <;> first | rfl | cases h

theorem accepts_float {k : ValueKind} (h : ValueKind.float.accepts k = true) :
    k = .float ∨ k = .int := by
  cases k with
  | float => exact .inl rfl
  | int => exact .inr rfl
  | bool | text => cases h

namespace Blackboard.Session

variable {s s' : Session} {e : EntryId}

/-- Any number of actions lead from one session to another, and between them the host may turn to
another board over the same entries: a sibling, or a board whose children are gone. -/
inductive Onward (s : Session) : Session → Prop where
  | refl : Onward s s
  | perform {s' : Session} (act : Action) : Onward s s' → Onward s (s'.perform act).2
  | turn {s' : Session} (b : Blackboard) : Onward s s' → b.entries = s'.board.entries →
      Onward s ⟨b, s'.handles⟩

theorem Later.onward (h : s.Later s') : s.Onward s' := by
  induction h with
  | refl => exact .refl
  | perform act _ ih => exact ih.perform act

/-- An entry keeps its name and the kind of its value on whatever board the host works. -/
theorem Onward.entry (h : s.Onward s') {x : Entry} (hx : s.board.entry? e = some x) :
    ∃ v, s'.board.entry? e = some ⟨x.name, v⟩ ∧ v.kind = x.value.kind := by
  induction h with
  | refl => exact ⟨x.value, hx, rfl⟩
  | @perform s' act _ ih =>
    obtain ⟨v, hv, hkind⟩ := ih
    obtain ⟨w, hw, hkind'⟩ := (perform_effect s' act).extends.entry hv
    exact ⟨w, hw, hkind'.trans hkind⟩
  | turn b _ hentries ih =>
    obtain ⟨v, hv, hkind⟩ := ih
    refine ⟨v, ?_, hkind⟩
    rw [← hv, entry?, entry?, hentries]

theorem Onward.exists_value (h : s.Onward s') {v : Value} (hv : s.board.value? e = some v) :
    ∃ w, s'.board.value? e = some w ∧ w.kind = v.kind := by
  obtain ⟨x, hx, rfl⟩ := Option.map_eq_some_iff.1 hv
  obtain ⟨w, hw, hkind⟩ := h.entry hx
  exact ⟨w, by rw [value?, hw]; rfl, hkind⟩

theorem Onward.exists_bool (h : s.Onward s') {inputs : List Binding} {param : String}
    (hresolves : Resolves s.board inputs (param, .bool) e) :
    ∃ b, s'.board.value? e = some (.bool b) := by
  obtain ⟨-, v, -, -, hv, haccepts⟩ := hresolves
  obtain ⟨w, hw, hkind⟩ := h.exists_value hv
  obtain ⟨b, rfl⟩ := Value.exists_of_kind_bool (hkind.trans (accepts_bool haccepts))
  exact ⟨b, hw⟩

theorem Onward.exists_number (h : s.Onward s') (ρ : Rounding) {inputs : List Binding}
    {param : String} (hresolves : Resolves s.board inputs (param, .float) e) :
    ∃ v x, s'.board.value? e = some v ∧ v.Stores ρ x := by
  obtain ⟨-, v, -, -, hv, haccepts⟩ := hresolves
  obtain ⟨w, hw, hkind⟩ := h.exists_value hv
  obtain ⟨x, hx⟩ := Value.exists_stores ρ (hkind ▸ accepts_float haccepts)
  exact ⟨w, x, hw, hx⟩

/-- **Built-in conditions stay live and well typed.** Suppose that a condition is instantiated on
the board of a session. Whatever is set, pushed or written through handles later, with success or
not and on whatever board over the same entries, the entry that the parameter of a Boolean condition
resolved to holds a Boolean, and the robustness is `1` or `-1` as that one is true or false; the
entries that the parameters of a comparison resolved to hold numbers, and the robustness is their
difference. -/
theorem conditions_live {s : Session} {p : Proposition} {fresh next : Identity} {q : Predicate}
    (h : Registry.builtins.instantiate s.board p fresh = .ok (q, next)) :
    (p.kind = Kind.flag.name → ∃ e, Resolves s.board p.inputs ("Value", .bool) e ∧
      q.entries = [e] ∧ ∀ s', s.Onward s' → ∀ ρ sensors, ∃ b,
        s'.board.value? e = some (.bool b) ∧ (s'.board.value? e).bind Value.asBool = some b ∧
        q.robustness ρ (.ofHost sensors s'.board) = if b then 1 else -1) ∧
    (p.kind = Kind.lessThan.name → ∃ a b, Resolves s.board p.inputs ("A", .float) a ∧
      Resolves s.board p.inputs ("B", .float) b ∧ q.entries = [a, b] ∧
      ∀ s', s.Onward s' → ∀ ρ sensors, ∃ v w x y,
        s'.board.value? a = some v ∧ v.Stores ρ x ∧
        s'.board.value? b = some w ∧ w.Stores ρ y ∧
        (s'.board.value? a).bind (·.asFloat ρ) = some x ∧
        (s'.board.value? b).bind (·.asFloat ρ) = some y ∧
        q.robustness ρ (.ofHost sensors s'.board) = ρ.sub y x) := by
  obtain ⟨k, params, made, hk, hparams, hmade, rfl, -⟩ := Registry.instantiate_eq_ok.1 h
  constructor
  · intro hkind
    rw [hkind] at hk
    obtain rfl : Kind.flag = k := Option.some.inj hk
    obtain ⟨e, -, he, rfl⟩ := make_flag hparams hmade
    refine ⟨e, he, rfl, fun s' h' ρ sensors => ?_⟩
    obtain ⟨b, hb⟩ := h'.exists_bool he
    have hshown : (s'.board.value? e).bind Value.asBool = some b := by
      rw [hb]
      rfl
    refine ⟨b, hb, hshown, ?_⟩
    simp only [Predicate.robustness, Readings.ofHost, hshown, Option.some.injEq]
  · intro hkind
    rw [hkind] at hk
    obtain rfl : Kind.lessThan = k := Option.some.inj hk
    obtain ⟨a, b, -, ha, hb, rfl⟩ := make_lessThan hparams hmade
    refine ⟨a, b, ha, hb, rfl, fun s' h' ρ sensors => ?_⟩
    obtain ⟨v, x, hv, hx⟩ := h'.exists_number ρ ha
    obtain ⟨w, y, hw, hy⟩ := h'.exists_number ρ hb
    have hleft : (s'.board.value? a).bind (·.asFloat ρ) = some x := by
      rw [hv]
      exact hx.asFloat_eq
    have hright : (s'.board.value? b).bind (·.asFloat ρ) = some y := by
      rw [hw]
      exact hy.asFloat_eq
    refine ⟨v, w, x, y, hv, hx, hw, hy, hleft, hright, ?_⟩
    simp only [Predicate.robustness, Readings.number, Readings.ofHost, hleft, hright,
      Option.getD_some]

def door : Session :=
  empty.performAll [.set "open" (.bool true), .set "gap" (.int 2), .set "width" (.float 5)]

def doorShut : Session :=
  door.performAll [.push, .set "open" (.text "no"), .write 0 (.int 0), .write 0 (.bool false),
    .write 2 (.float 1)]

def doorReopened : Session := doorShut.performAll [.write 0 (.bool true), .write 1 (.text "wide")]

/-- A flag that is false at one time and true at another, and an integer below a float. -/
theorem conditions_live_door :
    Registry.builtins.instantiate door.board
      ⟨"Conditions/Boolean Condition", [⟨"Value", "open"⟩]⟩ 0 = .ok (.shared 0 (.flag 0), 1) ∧
    Registry.builtins.instantiate door.board
      ⟨"Conditions/Less Than", [⟨"A", "gap"⟩, ⟨"B", "width"⟩]⟩ 1 =
        .ok (.shared 1 (.lessThan 1 2), 2) ∧
    door.Later doorShut ∧ door.Later doorReopened ∧
    Resolves door.board [⟨"Value", "open"⟩] ("Value", .bool) 0 ∧
    (doorShut.board.value? 0 = some (.bool false) ∧ ∀ ρ sensors,
      (Predicate.shared 0 (.flag 0)).robustness ρ (.ofHost sensors doorShut.board) = -1) ∧
    (doorReopened.board.value? 0 = some (.bool true) ∧ ∀ ρ sensors,
      (Predicate.shared 0 (.flag 0)).robustness ρ (.ofHost sensors doorReopened.board) = 1) ∧
    doorShut.board.value? 1 = some (.int 2) ∧ doorShut.board.value? 2 = some (.float 1) ∧
    ∀ sensors,
      (Predicate.shared 1 (.lessThan 1 2)).robustness .exact (.ofHost sensors doorShut.board) =
        -1 := by
  have hflag : Registry.builtins.instantiate door.board
      ⟨"Conditions/Boolean Condition", [⟨"Value", "open"⟩]⟩ 0 = .ok (.shared 0 (.flag 0), 1) := by
    decide +kernel
  have hless : Registry.builtins.instantiate door.board
      ⟨"Conditions/Less Than", [⟨"A", "gap"⟩, ⟨"B", "width"⟩]⟩ 1 =
        .ok (.shared 1 (.lessThan 1 2), 2) := by
    decide +kernel
  have hshut : door.Later doorShut := later_iff.2 ⟨_, rfl⟩
  have hreopened : door.Later doorReopened := .perform _ (.perform _ hshut)
  have hfalse : doorShut.board.value? 0 = some (.bool false) := by decide +kernel
  have htrue : doorReopened.board.value? 0 = some (.bool true) := by decide +kernel
  have hgap : doorShut.board.value? 1 = some (.int 2) := by decide +kernel
  have hwidth : doorShut.board.value? 2 = some (.float 1) := by decide +kernel
  obtain ⟨e, he, ⟨⟩, hopen⟩ := (conditions_live hflag).1 rfl
  obtain ⟨a, b, -, -, ⟨⟩, hbelow⟩ := (conditions_live hless).2 rfl
  refine ⟨hflag, hless, hshut, hreopened, he, ⟨hfalse, fun ρ sensors => ?_⟩,
    ⟨htrue, fun ρ sensors => ?_⟩, hgap, hwidth, fun sensors => ?_⟩
  · obtain ⟨b, hvalue, -, hrobust⟩ := hopen doorShut hshut.onward ρ sensors
    cases hfalse.symm.trans hvalue
    exact hrobust
  · obtain ⟨b, hvalue, -, hrobust⟩ := hopen doorReopened hreopened.onward ρ sensors
    cases htrue.symm.trans hvalue
    exact hrobust
  · obtain ⟨v, w, x, y, hv, hx, hw, hy, -, -, hrobust⟩ :=
      hbelow doorShut hshut.onward .exact sensors
    cases hgap.symm.trans hv
    cases hwidth.symm.trans hw
    cases hx
    cases hy
    exact hrobust.trans (by decide +kernel)

end Blackboard.Session

end RabinReward
