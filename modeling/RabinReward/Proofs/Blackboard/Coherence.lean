import RabinReward.Proofs.Blackboard.Session

/-!
# Coherent handles

A handle that a session has returned is a handle for good: whatever is set, written or pushed later,
the board that owns the entry answers a lookup of its name with the same handle, so the two show the
same value (`Answers`). Entries keep their name and the kind of their value. An action is refused
for a reason that the session shows (`Refuses`), and then nothing has happened.
-/

namespace RabinReward

namespace Blackboard

variable {b b' : Blackboard} {d : Nat} {n : String} {e : EntryId} {v : Value}

/-- The board at a depth answers a lookup of a name with the handle `e`, and what the lookup shows
is what the handle shows. -/
def Answers (b : Blackboard) (d : Nat) (name : String) (e : EntryId) : Prop :=
  ∃ a v, b.board? d = some a ∧ a.get? name = some e ∧ a.value? e = some v ∧ b.value? e = some v

theorem WellFormed.answers (hb : b.WellFormed) (h : b.own? d n = some e) : b.Answers d n e := by
  obtain ⟨a, ha⟩ := exists_board (le_height_of_own? h)
  obtain ⟨v, hv⟩ := hb.named h
  have hvalue : b.value? e = some v := by rw [value?, hv]; rfl
  refine ⟨a, v, ha, get?_eq_some_iff.2 ⟨d, ?_, fun i hi => ?_⟩, ?_, hvalue⟩
  · rw [own?_of_board? ha (Nat.le_refl d), h]
  · exact own?_eq_none_of_lt (height_of_board? ha ▸ hi)
  · rw [value?_of_board? ha, hvalue]

theorem WellFormed.own?_iff (hb : b.WellFormed) {x : Entry} (hx : b.entry? e = some x) :
    ∃ d, ∀ d' n, b.own? d' n = some e ↔ d' = d ∧ n = x.name := by
  obtain ⟨d, hd⟩ := hb.owned hx
  refine ⟨d, fun d' n => ⟨hb.own?_inj hd, ?_⟩⟩
  rintro ⟨rfl, rfl⟩
  exact hd

/-- Setting a name makes the current board define it, with that value. -/
theorem WellFormed.of_set (hb : b.WellFormed) (h : b.set n v = .ok (e, b')) :
    b'.own? b.height n = some e ∧ b'.entry? e = some ⟨n, v⟩ := by
  obtain ⟨-, ⟨hown, hwrite⟩ | ⟨-, rfl, rfl⟩⟩ := set_eq_ok h
  · obtain ⟨heffect, hvalue⟩ := write_eq_ok hwrite
    obtain ⟨u, hu⟩ := hb.named hown
    exact ⟨heffect.extends.own hown, hvalue _ hu⟩
  · rw [own?_define, if_pos ⟨rfl, rfl⟩, entry?_push, if_pos rfl]
    exact ⟨rfl, rfl⟩

namespace Session

variable {s s' s₁ : Session} {act : Action}

/-! ## Kept handles -/

theorem Outcome.handles_owned {r : Except BlackboardError (Option EntryId)}
    (h : Outcome s act r s') (hb : s.board.WellFormed)
    (hs : ∀ e ∈ s.handles, ∃ d n, s.board.own? d n = some e) :
    ∀ e ∈ s'.handles, ∃ d n, s'.board.own? d n = some e := by
  have hold {e : EntryId} (he : e ∈ s.handles) : ∃ d n, s'.board.own? d n = some e := by
    obtain ⟨d, n, hown⟩ := hs e he
    exact ⟨d, n, h.effect.extends.own hown⟩
  cases h with
  | set hset =>
    intro e he
    rcases List.mem_append.1 he with he | he
    · exact hold he
    · rw [List.mem_singleton.1 he]
      exact ⟨_, _, (hb.of_set hset).1⟩
  | found hget =>
    intro e he
    rcases List.mem_append.1 he with he | he
    · exact hold he
    · rw [List.mem_singleton.1 he]
      obtain ⟨d, hown, -⟩ := get?_eq_some_iff.1 hget
      exact ⟨d, _, hown⟩
  | written | pushed => exact fun e => hold
  | setRefused | missing | writeRefused | noHandle => exact hs

theorem Reachable.handles_owned (h : s.Reachable) :
    ∀ e ∈ s.handles, ∃ d n, s.board.own? d n = some e := by
  induction h with
  | refl => exact nofun
  | perform act h ih => exact (outcome rfl).handles_owned (Reachable.wellFormed h) ih

theorem Reachable.later (h : s.Reachable) (h' : s.Later s') : s'.Reachable := h.trans h'

theorem Reachable.perform {r : Except BlackboardError (Option EntryId)} (h : s.Reachable)
    (hact : s.perform act = (r, s')) : s'.Reachable := by
  have hlater := Later.perform act h
  rw [hact] at hlater
  exact hlater

/-- What a board defines it answers with from then on. -/
theorem Reachable.answers (h : s.Reachable) (hown : s.board.own? d n = some e)
    (h' : s.Later s') : s'.board.Answers d n e :=
  (h.later h').wellFormed.answers (h'.extends.own hown)

/-! ## Refused actions -/

/-- Why an action is refused: the name is empty, or the value is of another kind than the entry. -/
inductive Refuses (s : Session) : Action → BlackboardError → Prop where
  | emptyName (v : Value) : Refuses s (.set "" v) .emptyName
  | set {n : String} {v : Value} {e : EntryId} {x : Entry} : n ≠ "" →
      s.board.own? s.board.height n = some e → s.board.entry? e = some x →
      v.kind ≠ x.value.kind → Refuses s (.set n v) (.typeMismatch n x.value.kind v.kind)
  | write {k : Nat} {v : Value} {e : EntryId} {x : Entry} : s.handles[k]? = some e →
      s.board.entry? e = some x → v.kind ≠ x.value.kind →
      Refuses s (.write k v) (.typeMismatch x.name x.value.kind v.kind)

theorem Outcome.refuses {err : BlackboardError} (h : Outcome s act (.error err) s')
    (hb : s.board.WellFormed) : s.Refuses act err ∧ s' = s := by
  cases h with
  | setRefused hset =>
    rcases set_eq_error.1 hset with ⟨rfl, rfl⟩ | ⟨hname, e, hown, hwrite⟩
    · exact ⟨.emptyName _, rfl⟩
    · obtain ⟨x, hx, hkind, rfl⟩ := write_eq_error.1 hwrite
      obtain ⟨u, hu⟩ := hb.named hown
      rw [hx] at hu
      cases hu
      exact ⟨.set hname hown hx hkind, rfl⟩
  | writeRefused hhandle hwrite =>
    obtain ⟨x, hx, hkind, rfl⟩ := write_eq_error.1 hwrite
    exact ⟨.write hhandle hx hkind, rfl⟩

theorem Refuses.perform {err : BlackboardError} (h : s.Refuses act err) (hb : s.board.WellFormed) :
    s.perform act = (.error err, s) := by
  cases h with
  | emptyName v => rfl
  | @set n v e x hname hown hx hkind =>
    obtain ⟨u, hu⟩ := hb.named hown
    rw [hx] at hu
    cases hu
    have hset : s.board.set n v = .error (.typeMismatch n u.kind v.kind) :=
      set_eq_error.2 (.inr ⟨hname, e, hown, write_eq_error.2 ⟨_, hx, hkind, rfl⟩⟩)
    simp only [Session.perform, hset]
  | write hhandle hx hkind =>
    have hwrite := write_eq_error.2 ⟨_, hx, hkind, rfl⟩
    simp only [Session.perform, hhandle, hwrite]

theorem perform_eq_error_iff {err : BlackboardError} (hb : s.board.WellFormed) :
    s.perform act = (.error err, s') ↔ s.Refuses act err ∧ s' = s :=
  ⟨fun h => (outcome h).refuses hb, fun ⟨h, hs⟩ => hs ▸ h.perform hb⟩

/-! ## Main statement -/

/-- **Handles are coherent.** After any history of setting, looking up, writing through handles and
pushing boards: an entry stands under its own name, which is not empty, on exactly one board, and
keeps the name and the kind of its value. The handle that setting a name returns is the entry of the
current board with the value set, and the handle that a lookup returns is the entry of the nearest
board; from then on the board that owns the entry answers with the same handle, and shows what the
handle shows. This holds of every handle returned so far. An action fails exactly for one of the
reasons of `Refuses`, and then the session is as it was. -/
theorem handles_coherent {s : Session} (hs : s.Reachable) :
    (∀ e x, s.board.entry? e = some x →
      x.name ≠ "" ∧ (∃ d, ∀ d' n, s.board.own? d' n = some e ↔ d' = d ∧ n = x.name) ∧
      ∀ s', s.Later s' → ∃ v, s'.board.entry? e = some ⟨x.name, v⟩ ∧ v.kind = x.value.kind) ∧
    (∀ n v e s₁, s.perform (.set n v) = (.ok (some e), s₁) → s₁.board.value? e = some v ∧
      ∀ s₂, s₁.Later s₂ → s₂.board.Answers s.board.height n e ∧
        ∃ w, s₂.board.entry? e = some ⟨n, w⟩ ∧ w.kind = v.kind) ∧
    (∀ n e s₁, s.perform (.get n) = (.ok (some e), s₁) →
      ∃ d, s.board.own? d n = some e ∧ (∀ i, d < i → s.board.own? i n = none) ∧
        ∀ s₂, s₁.Later s₂ → s₂.board.Answers d n e) ∧
    (∀ e ∈ s.handles, ∃ d n, ∀ s', s.Later s' → s'.board.Answers d n e) ∧
    (∀ act err s', s.perform act = (.error err, s') ↔ s.Refuses act err ∧ s' = s) := by
  have hb := hs.wellFormed
  refine ⟨fun e x hx => ⟨hb.name_ne_empty hx, hb.own?_iff hx, fun s' h' => h'.extends.entry hx⟩,
    fun n v e s₁ h => ?_, fun n e s₁ h => ?_, fun e he => ?_,
    fun act err s' => perform_eq_error_iff hb⟩
  · have hs₁ := hs.perform h
    cases outcome h with
    | set hset =>
      obtain ⟨hown, hentry⟩ := hb.of_set hset
      refine ⟨by rw [value?, hentry]; rfl, fun s₂ h₂ => ⟨hs₁.answers hown h₂, ?_⟩⟩
      exact h₂.extends.entry hentry
  · have hs₁ := hs.perform h
    cases outcome h with
    | found hget =>
      obtain ⟨d, hown, hnearest⟩ := get?_eq_some_iff.1 hget
      exact ⟨d, hown, hnearest, fun s₂ h₂ => hs₁.answers hown h₂⟩
  · obtain ⟨d, n, hown⟩ := hs.handles_owned e he
    exact ⟨d, n, fun s' h' => hs.answers hown h'⟩

def twoLimits : Session :=
  empty.performAll
    [.set "limit" (.int 10), .push, .set "limit" (.bool true), .write 0 (.int 4), .get "limit"]

theorem twoLimits_reachable : twoLimits.Reachable := later_iff.2 ⟨_, rfl⟩

theorem handles_coherent_twoLimits :
    twoLimits.Reachable ∧ twoLimits.handles = [0, 1, 1] ∧
    twoLimits.board.entry? 0 = some ⟨"limit", .int 4⟩ ∧
    (∀ s, twoLimits.Later s → ∃ v, s.board.entry? 0 = some ⟨"limit", v⟩ ∧ v.kind = .int) ∧
    (∃ d n, twoLimits.board.Answers d n 1) ∧
    twoLimits.perform (.write 0 (.bool true)) =
      (.error (.typeMismatch "limit" .int .bool), twoLimits) := by
  obtain ⟨hentries, -, -, hhandles, hrefused⟩ := handles_coherent twoLimits_reachable
  have hentry : twoLimits.board.entry? 0 = some ⟨"limit", .int 4⟩ := by decide +kernel
  obtain ⟨-, -, hkind⟩ := hentries 0 _ hentry
  obtain ⟨d, n, hanswers⟩ := hhandles 1 (by decide +kernel)
  refine ⟨twoLimits_reachable, by decide +kernel, hentry, hkind, ⟨d, n, hanswers _ .refl⟩, ?_⟩
  exact (hrefused _ _ _).2 ⟨.write (k := 0) (by decide +kernel) hentry (by decide), rfl⟩

end Session

end Blackboard

end RabinReward
