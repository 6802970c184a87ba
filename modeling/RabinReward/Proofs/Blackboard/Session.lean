import RabinReward.Proofs.Blackboard.Layers

/-!
# Sessions on a blackboard

A session is a board with every handle that it has returned. `Effect` lists what one action can do
to a board: nothing, overwrite an entry with a value of its kind, define a new name on the current
board, or push a board. From this follow what one action keeps (`Extends`: entries keep their name
and kind, names keep their entry) and the invariant that ties entries to the names that boards
define (`WellFormed`: every entry stands under its own name, on one board only); both hold along
every history of actions.
-/

namespace RabinReward

namespace Blackboard

variable {b b' b'' : Blackboard} {d : Nat} {n : String} {e : EntryId} {v : Value}

/-! ## What an action can do -/

theorem entry?_overwrite {x y : Entry} (h : b.entry? e = some x) (e' : EntryId) :
    Blackboard.entry? { b with entries := b.entries.set! e y } e' =
      if e = e' then some y else b.entry? e' := by
  have hlt : e < b.entries.size := (Array.getElem?_eq_some_iff.1 h).1
  unfold entry?
  rw [Array.set!_eq_setIfInBounds, Array.getElem?_setIfInBounds, if_pos hlt]

/-- The effects of one action on a board. -/
inductive Effect (b : Blackboard) : Blackboard → Prop where
  | none : Effect b b
  | overwritten {e : EntryId} {old : Entry} {v : Value} : b.entry? e = some old →
      v.kind = old.value.kind →
      Effect b { b with entries := b.entries.set! e { old with value := v } }
  | defined {n : String} {v : Value} : n ≠ "" → b.own? b.height n = none →
      Effect b { b with
        entries := b.entries.push ⟨n, v⟩, current := (n, b.entries.size) :: b.current }
  | pushed : Effect b b.push

theorem lt_size_of_entry?_eq {x : Entry} (h : b.entry? e = some x) : e < b.entries.size :=
  (Array.getElem?_eq_some_iff.1 h).1

theorem entry?_push {x : Entry} {layer : Layer} (e : EntryId) :
    Blackboard.entry? { b with entries := b.entries.push x, current := layer } e =
      if e = b.entries.size then some x else b.entry? e :=
  Array.getElem?_push

theorem write_eq_ok (h : b.write e v = .ok b') :
    b.Effect b' ∧ ∀ x, b.entry? e = some x → b'.entry? e = some { x with value := v } := by
  unfold write at h
  split at h
  · rename_i hmissing
    cases h
    exact ⟨.none, fun x hx => by rw [hmissing] at hx; cases hx⟩
  · rename_i old hold
    split at h
    · rename_i hkind
      cases h
      refine ⟨.overwritten hold hkind, fun x hx => ?_⟩
      rw [hold] at hx
      cases hx
      rw [entry?_overwrite hold, if_pos rfl]
    · cases h

theorem write_eq_error {err : BlackboardError} :
    b.write e v = .error err ↔ ∃ x, b.entry? e = some x ∧ v.kind ≠ x.value.kind ∧
      err = .typeMismatch x.name x.value.kind v.kind := by
  unfold write
  cases b.entry? e with
  | none => simp
  | some old =>
    by_cases hkind : v.kind = old.value.kind
    · simp [hkind]
    · simp only [if_neg hkind]
      constructor
      · rintro ⟨⟩
        exact ⟨old, rfl, hkind, rfl⟩
      · rintro ⟨x, ⟨⟩, -, rfl⟩
        rfl

/-- Setting a name overwrites the entry of the current board or defines a new one. -/
theorem set_eq_ok (h : b.set n v = .ok (e, b')) :
    n ≠ "" ∧
    ((b.own? b.height n = some e ∧ b.write e v = .ok b') ∨
      (b.own? b.height n = none ∧ e = b.entries.size ∧ b' = { b with
        entries := b.entries.push ⟨n, v⟩, current := (n, b.entries.size) :: b.current })) := by
  rw [own?_height]
  unfold set at h
  split at h
  · cases h
  · rename_i hname
    refine ⟨fun hempty => hname (String.isEmpty_iff.2 hempty), ?_⟩
    split at h
    · rename_i e' hown
      cases hwrite : b.write e' v with
      | error err =>
        rw [hwrite] at h
        cases h
      | ok b'' =>
        rw [hwrite] at h
        cases h
        exact .inl ⟨hown, hwrite⟩
    · rename_i hown
      cases h
      exact .inr ⟨hown, rfl, rfl⟩

theorem set_eq_error {err : BlackboardError} :
    b.set n v = .error err ↔ (n = "" ∧ err = .emptyName) ∨
      (n ≠ "" ∧ ∃ e, b.own? b.height n = some e ∧ b.write e v = .error err) := by
  rw [own?_height]
  unfold set
  by_cases hname : n = ""
  · subst hname
    simp only [ne_eq, not_true_eq_false, false_and, or_false, true_and]
    exact ⟨fun h => (Except.error.inj h).symm, fun h => h ▸ rfl⟩
  · rw [if_neg (mt String.isEmpty_iff.1 hname)]
    cases b.current.lookup n with
    | none => simp [hname]
    | some e => cases hwrite : b.write e v <;> simp [hname, hwrite, Except.map]

theorem Effect.of_set (h : b.set n v = .ok (e, b')) : b.Effect b' := by
  obtain ⟨hname, ⟨-, hwrite⟩ | ⟨hown, -, rfl⟩⟩ := set_eq_ok h
  · exact (write_eq_ok hwrite).1
  · exact .defined hname hown

/-! ## What an action keeps -/

/-- `b'` has the entries of `b`, under the names they had and with values of the kinds they had. -/
structure Extends (b b' : Blackboard) : Prop where
  height_le : b.height ≤ b'.height
  entry : ∀ {e x}, b.entry? e = some x →
    ∃ v, b'.entry? e = some ⟨x.name, v⟩ ∧ v.kind = x.value.kind
  own : ∀ {d n e}, b.own? d n = some e → b'.own? d n = some e
  /-- Only the current board gets new names. -/
  below : ∀ {d n}, d < b.height → b'.own? d n = b.own? d n

theorem Extends.refl (b : Blackboard) : b.Extends b :=
  ⟨Nat.le_refl _, fun h => ⟨_, h, rfl⟩, id, fun _ => rfl⟩

theorem Extends.trans (h : b.Extends b') (h' : b'.Extends b'') : b.Extends b'' := by
  refine ⟨Nat.le_trans h.height_le h'.height_le, fun he => ?_, fun he => h'.own (h.own he),
    fun hd => ?_⟩
  · obtain ⟨v, hv, hkind⟩ := h.entry he
    obtain ⟨v', hv', hkind'⟩ := h'.entry hv
    exact ⟨v', hv', hkind'.trans hkind⟩
  · exact (h'.below (Nat.lt_of_lt_of_le hd h.height_le)).trans (h.below hd)

theorem Effect.extends (h : b.Effect b') : b.Extends b' := by
  cases h with
  | none => exact .refl b
  | @overwritten e old v hold hkind =>
    refine ⟨Nat.le_refl _, fun {e' x} hx => ?_, fun h => (own?_withEntries _ _ _).trans h,
      fun _ => own?_withEntries _ _ _⟩
    rw [entry?_overwrite hold]
    by_cases he : e = e'
    · subst he
      rw [hold] at hx
      cases hx
      exact ⟨v, if_pos rfl, hkind⟩
    · exact ⟨x.value, by rw [if_neg he, hx], rfl⟩
  | @defined n v hname hown =>
    refine ⟨Nat.le_refl _, fun {e x} hx => ⟨x.value, ?_, rfl⟩, fun {d m e} h => ?_, fun hd => ?_⟩
    · rw [entry?_push, if_neg (Nat.ne_of_lt (lt_size_of_entry?_eq hx)), hx]
    · rw [own?_define, if_neg, h]
      rintro ⟨rfl, rfl⟩
      rw [hown] at h
      cases h
    · rw [own?_define, if_neg (by omega)]
  | pushed =>
    exact ⟨Nat.le_succ _, fun hx => ⟨_, hx, rfl⟩, fun h => (own?_push _ _).trans h,
      fun _ => own?_push _ _⟩

/-! ## Entries and names -/

/-- Every entry stands under its own name, which is not empty, on exactly one board, and every name
that a board defines stands for an entry of that name. -/
structure WellFormed (b : Blackboard) : Prop where
  named : ∀ {d n e}, b.own? d n = some e → ∃ v, b.entry? e = some ⟨n, v⟩
  name_ne_empty : ∀ {e x}, b.entry? e = some x → x.name ≠ ""
  owned : ∀ {e x}, b.entry? e = some x → ∃ d, b.own? d x.name = some e
  unique : ∀ {d d' n e}, b.own? d n = some e → b.own? d' n = some e → d = d'

theorem WellFormed.empty : empty.WellFormed := by
  have hown (d : Nat) (n : String) : Blackboard.empty.own? d n = none := by
    rw [own?_eq]
    cases d <;> rfl
  refine ⟨fun h => ?_, nofun, nofun, fun h => ?_⟩
  all_goals
    rw [hown] at h
    cases h

theorem WellFormed.lt_size (hb : b.WellFormed) (h : b.own? d n = some e) : e < b.entries.size := by
  obtain ⟨v, hv⟩ := hb.named h
  exact lt_size_of_entry?_eq hv

/-- An entry is defined by one board under one name. -/
theorem WellFormed.own?_inj (hb : b.WellFormed) {d' : Nat} {m : String}
    (h : b.own? d n = some e) (h' : b.own? d' m = some e) : d' = d ∧ m = n := by
  obtain ⟨v, hv⟩ := hb.named h
  obtain ⟨w, hw⟩ := hb.named h'
  rw [hv] at hw
  cases hw
  exact ⟨hb.unique h' h, rfl⟩

theorem exists_of_entry?_overwrite {old x : Entry} (hold : b.entry? e = some old) {e' : EntryId}
    (hx : Blackboard.entry? { b with entries := b.entries.set! e { old with value := v } } e' =
      some x) :
    ∃ y, b.entry? e' = some y ∧ y.name = x.name := by
  rw [entry?_overwrite hold] at hx
  by_cases he : e = e'
  · subst he
    rw [if_pos rfl] at hx
    cases hx
    exact ⟨old, hold, rfl⟩
  · rw [if_neg he] at hx
    exact ⟨x, hx, rfl⟩

theorem WellFormed.overwrite (hb : b.WellFormed) {old : Entry} (hold : b.entry? e = some old)
    (hkind : v.kind = old.value.kind) :
    ({ b with entries := b.entries.set! e { old with value := v } } : Blackboard).WellFormed := by
  refine ⟨fun h => ?_, fun hx => ?_, fun hx => ?_, fun h h' => ?_⟩
  · rw [own?_withEntries] at h
    obtain ⟨u, hu⟩ := hb.named h
    obtain ⟨w, hw, -⟩ := (Effect.overwritten hold hkind).extends.entry hu
    exact ⟨w, hw⟩
  · obtain ⟨y, hy, hname⟩ := exists_of_entry?_overwrite hold hx
    exact hname ▸ hb.name_ne_empty hy
  · obtain ⟨y, hy, hname⟩ := exists_of_entry?_overwrite hold hx
    obtain ⟨d, hd⟩ := hb.owned hy
    exact ⟨d, (own?_withEntries _ _ _).trans (hname ▸ hd)⟩
  · rw [own?_withEntries] at h h'
    exact hb.unique h h'

theorem WellFormed.define (hb : b.WellFormed) (hname : n ≠ "") (hown : b.own? b.height n = none) :
    ({ b with entries := b.entries.push ⟨n, v⟩, current := (n, b.entries.size) :: b.current } :
      Blackboard).WellFormed := by
  have hfresh (d : Nat) (m : String) : b.own? d m ≠ some b.entries.size :=
    fun h => Nat.lt_irrefl _ (hb.lt_size h)
  refine ⟨fun h => ?_, fun hx => ?_, fun hx => ?_, fun h h' => ?_⟩
  · rw [own?_define] at h
    split at h
    · rename_i hnew
      cases h
      exact ⟨v, by rw [entry?_push, if_pos rfl, hnew.2]⟩
    · obtain ⟨u, hu⟩ := hb.named h
      obtain ⟨w, hw, -⟩ := (Effect.defined hname hown).extends.entry hu
      exact ⟨w, hw⟩
  · rw [entry?_push] at hx
    split at hx
    · cases hx
      exact hname
    · exact hb.name_ne_empty hx
  · rw [entry?_push] at hx
    split at hx
    · rename_i hnew
      cases hx
      exact ⟨b.height, by rw [own?_define, if_pos ⟨rfl, rfl⟩, hnew]⟩
    · obtain ⟨d, hd⟩ := hb.owned hx
      exact ⟨d, (Effect.defined hname hown).extends.own hd⟩
  · rw [own?_define] at h h'
    split at h <;> split at h'
    · rename_i hd hd'
      exact hd.1.trans hd'.1.symm
    · exact absurd (h ▸ h') (hfresh _ _)
    · exact absurd (h' ▸ h) (hfresh _ _)
    · exact hb.unique h h'

theorem WellFormed.push (hb : b.WellFormed) : b.push.WellFormed := by
  refine ⟨fun h => hb.named (own?_push _ _ ▸ h), hb.name_ne_empty, fun h => ?_,
    fun h h' => hb.unique (own?_push _ _ ▸ h) (own?_push _ _ ▸ h')⟩
  obtain ⟨d, hd⟩ := hb.owned h
  exact ⟨d, (own?_push _ _).trans hd⟩

theorem Effect.wellFormed (h : b.Effect b') (hb : b.WellFormed) : b'.WellFormed := by
  cases h with
  | none => exact hb
  | overwritten hold hkind => exact hb.overwrite hold hkind
  | defined hname hown => exact hb.define hname hown
  | pushed => exact hb.push

/-! ## Sessions -/

inductive Action where
  | set (name : String) (v : Value)
  | get (name : String)
  /-- Writes through the handle of that number. -/
  | write (k : Nat) (v : Value)
  | push

/-- A board and all handles that it has returned, the first one first. -/
structure Session where
  board : Blackboard
  handles : List EntryId

namespace Session

variable {s s' s'' : Session} {act : Action}

def empty : Session := ⟨.empty, []⟩

/-- The handle that an action returns, if any, or why it fails, and the session that it leads to. -/
def perform (s : Session) : Action → Except BlackboardError (Option EntryId) × Session
  | .set n v =>
    match s.board.set n v with
    | .error err => (.error err, s)
    | .ok (e, b) => (.ok (some e), ⟨b, s.handles ++ [e]⟩)
  | .get n =>
    match s.board.get? n with
    | none => (.ok none, s)
    | some e => (.ok (some e), ⟨s.board, s.handles ++ [e]⟩)
  | .write k v =>
    match s.handles[k]? with
    | none => (.ok none, s)
    | some e =>
      match s.board.write e v with
      | .error err => (.error err, s)
      | .ok b => (.ok none, ⟨b, s.handles⟩)
  | .push => (.ok none, ⟨s.board.push, s.handles⟩)

inductive Outcome (s : Session) :
    Action → Except BlackboardError (Option EntryId) → Session → Prop where
  | set {n : String} {v : Value} {e : EntryId} {b : Blackboard} : s.board.set n v = .ok (e, b) →
      Outcome s (.set n v) (.ok (some e)) ⟨b, s.handles ++ [e]⟩
  | setRefused {n : String} {v : Value} {err : BlackboardError} : s.board.set n v = .error err →
      Outcome s (.set n v) (.error err) s
  | found {n : String} {e : EntryId} : s.board.get? n = some e →
      Outcome s (.get n) (.ok (some e)) ⟨s.board, s.handles ++ [e]⟩
  | missing {n : String} : s.board.get? n = none → Outcome s (.get n) (.ok none) s
  | written {k : Nat} {v : Value} {e : EntryId} {b : Blackboard} : s.handles[k]? = some e →
      s.board.write e v = .ok b → Outcome s (.write k v) (.ok none) ⟨b, s.handles⟩
  | writeRefused {k : Nat} {v : Value} {e : EntryId} {err : BlackboardError} :
      s.handles[k]? = some e → s.board.write e v = .error err →
      Outcome s (.write k v) (.error err) s
  | noHandle {k : Nat} {v : Value} : s.handles[k]? = none → Outcome s (.write k v) (.ok none) s
  | pushed : Outcome s .push (.ok none) ⟨s.board.push, s.handles⟩

theorem outcome {r : Except BlackboardError (Option EntryId)} (h : s.perform act = (r, s')) :
    Outcome s act r s' := by
  unfold perform at h
  split at h
  · split at h <;> cases h
    · exact .setRefused ‹_›
    · exact .set ‹_›
  · split at h <;> cases h
    · exact .missing ‹_›
    · exact .found ‹_›
  · split at h
    · cases h
      exact .noHandle ‹_›
    · split at h <;> cases h
      · exact .writeRefused ‹_› ‹_›
      · exact .written ‹_› ‹_›
  · cases h
    exact .pushed

inductive Later (s : Session) : Session → Prop where
  | refl : Later s s
  | perform {s' : Session} (act : Action) : Later s s' → Later s (s'.perform act).2

/-- The sessions that start with an empty board. -/
def Reachable (s : Session) : Prop := empty.Later s

theorem Later.trans (h : s.Later s') (h' : s'.Later s'') : s.Later s'' := by
  induction h' with
  | refl => exact h
  | perform act _ ih => exact ih.perform act

def performAll (s : Session) (acts : List Action) : Session :=
  acts.foldl (fun s act => (s.perform act).2) s

/-- What lies later is what some sequence of actions leads to. -/
theorem later_iff : s.Later s' ↔ ∃ acts, s.performAll acts = s' := by
  constructor
  · intro h
    induction h with
    | refl => exact ⟨[], rfl⟩
    | perform act _ ih =>
      obtain ⟨acts, rfl⟩ := ih
      exact ⟨acts ++ [act], List.foldl_concat ..⟩
  · rintro ⟨acts, rfl⟩
    induction acts generalizing s with
    | nil => exact .refl
    | cons act acts ih => exact (Later.refl.perform act).trans ih

theorem Outcome.effect {r : Except BlackboardError (Option EntryId)} (h : Outcome s act r s') :
    s.board.Effect s'.board := by
  cases h with
  | set h => exact .of_set h
  | written _ h => exact (write_eq_ok h).1
  | pushed => exact .pushed
  | setRefused | found | missing | writeRefused | noHandle => exact .none

theorem perform_effect (s : Session) (act : Action) : s.board.Effect (s.perform act).2.board :=
  (outcome rfl).effect

theorem Later.extends (h : s.Later s') : s.board.Extends s'.board := by
  induction h with
  | refl => exact .refl _
  | perform act _ ih => exact ih.trans (perform_effect _ act).extends

theorem Reachable.wellFormed (h : s.Reachable) : s.board.WellFormed := by
  induction h with
  | refl => exact .empty
  | perform act _ ih => exact (perform_effect _ act).wellFormed ih

end Session

end Blackboard

end RabinReward
