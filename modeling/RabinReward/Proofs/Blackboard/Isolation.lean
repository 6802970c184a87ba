import RabinReward.Proofs.Blackboard.Coherence
import RabinReward.Proofs.Registry.Resolution

/-!
# Isolated ancestors

A lookup on a board sees the nearest definition, and setting a name on the current board, whether it
succeeds or not, changes nothing that a board below answers (`board?_set`). So a handle to an
ancestor's entry, and a predicate that reads the entry, are not affected when boards above define
the same name.
-/

namespace RabinReward

namespace Blackboard

variable {b b' a : Blackboard} {d : Nat} {n : String} {e : EntryId} {v : Value}

/-- Boards that define the same names up to a depth have boards there that answer alike. -/
theorem get?_of_own?_eq {a' : Blackboard} (ha : b.board? d = some a) (ha' : b'.board? d = some a')
    (hown : ∀ i ≤ d, ∀ n, b'.own? i n = b.own? i n) (n : String) : a'.get? n = a.get? n := by
  have hall (i : Nat) (n : String) : a'.own? i n = a.own? i n := by
    rcases Nat.lt_or_ge d i with hi | hi
    · rw [own?_eq_none_of_lt (height_of_board? ha' ▸ hi),
        own?_eq_none_of_lt (height_of_board? ha ▸ hi)]
    · rw [own?_of_board? ha' hi, own?_of_board? ha hi, hown i hi]
  ext e
  rw [get?_eq_some_iff, get?_eq_some_iff]
  simp only [hall]

theorem get?_of_board? (ha : b.board? d = some a) :
    a.get? n = some e ↔
      ∃ i ≤ d, b.own? i n = some e ∧ ∀ j, i < j → j ≤ d → b.own? j n = none := by
  rw [get?_eq_some_iff]
  constructor
  · rintro ⟨i, hi, hnearest⟩
    have hid : i ≤ d := height_of_board? ha ▸ le_height_of_own? hi
    refine ⟨i, hid, own?_of_board? ha hid n ▸ hi, fun j hj hjd => ?_⟩
    exact own?_of_board? ha hjd n ▸ hnearest j hj
  · rintro ⟨i, hid, hi, hnearest⟩
    refine ⟨i, (own?_of_board? ha hid n).trans hi, fun j hj => ?_⟩
    rcases Nat.lt_or_ge d j with hjd | hjd
    · exact own?_eq_none_of_lt (height_of_board? ha ▸ hjd)
    · exact (own?_of_board? ha hjd n).trans (hnearest j hj hjd)

theorem get?_of_board?_eq_none (ha : b.board? d = some a) :
    a.get? n = none ↔ ∀ i ≤ d, b.own? i n = none := by
  rw [get?_eq_none_iff]
  constructor
  · exact fun h i hi => own?_of_board? ha hi n ▸ h i
  · intro h i
    rcases Nat.lt_or_ge d i with hi | hi
    · exact own?_eq_none_of_lt (height_of_board? ha ▸ hi)
    · exact (own?_of_board? ha hi n).trans (h i hi)

/-! ## Setting a name -/

/-- Setting a name leaves the values alone of all entries but the one it returns. -/
theorem value?_set (h : b.set n v = .ok (e, b')) {e' : EntryId} (hne : e' ≠ e) :
    b'.value? e' = b.value? e' := by
  obtain ⟨-, ⟨-, hwrite⟩ | ⟨-, rfl, rfl⟩⟩ := set_eq_ok h
  · unfold write at hwrite
    split at hwrite
    · cases hwrite
      rfl
    · rename_i old hold
      split at hwrite <;> cases hwrite
      rw [value?, entry?_overwrite hold, if_neg hne.symm]
      rfl
  · rw [value?, entry?_push, if_neg hne]
    rfl

theorem WellFormed.ne_of_set (hb : b.WellFormed) (h : b.set n v = .ok (e, b')) {m : String}
    {e' : EntryId} (hd : d < b.height) (hown : b.own? d m = some e') : e' ≠ e := by
  rintro rfl
  have heffect := Effect.of_set h
  have hinj := (heffect.wellFormed hb).own?_inj (heffect.extends.own hown) (hb.of_set h).1
  omega

theorem height_set (h : b.set n v = .ok (e, b')) : b'.height = b.height := by
  obtain ⟨-, ⟨-, hwrite⟩ | ⟨-, rfl, rfl⟩⟩ := set_eq_ok h
  · unfold write at hwrite
    split at hwrite
    · cases hwrite
      rfl
    · split at hwrite <;> cases hwrite
      rfl
  · rfl

/-- Setting a name changes nothing that a board below the current one answers. -/
theorem WellFormed.board?_set (hb : b.WellFormed) (h : b.set n v = .ok (e, b')) (hd : d < b.height)
    (ha : b.board? d = some a) :
    ∃ a', b'.board? d = some a' ∧
      ∀ m, a'.get? m = a.get? m ∧ ∀ e', a.get? m = some e' → a'.value? e' = a.value? e' := by
  have hextends := (Effect.of_set h).extends
  obtain ⟨a', ha'⟩ := exists_board (b := b') (d := d) (by rw [height_set h]; omega)
  have hown (i : Nat) (hi : i ≤ d) (m : String) : b'.own? i m = b.own? i m :=
    hextends.below (by omega)
  refine ⟨a', ha', fun m => ⟨get?_of_own?_eq ha ha' hown m, fun e' he' => ?_⟩⟩
  obtain ⟨i, hi, hdefined, -⟩ := (get?_of_board? ha).1 he'
  rw [value?_of_board? ha', value?_of_board? ha]
  exact value?_set h (hb.ne_of_set h (Nat.lt_of_le_of_lt hi hd) hdefined)

/-- Setting a name changes nothing for a predicate that reads entries of boards below. -/
theorem WellFormed.robustness_set (hb : b.WellFormed) (h : b.set n v = .ok (e, b')) {q : Predicate}
    (hq : ∀ e' ∈ q.entries, ∃ d m, d < b.height ∧ b.own? d m = some e') (ρ : Rounding)
    (sensors : Array Sensor) :
    q.robustness ρ (.ofHost sensors b') = q.robustness ρ (.ofHost sensors b) := by
  refine Predicate.robustness_congr rfl fun e' he' => ?_
  obtain ⟨d, m, hd, hown⟩ := hq e' he'
  exact value?_set h (hb.ne_of_set h hd hown)

namespace Session

variable {s s' : Session}

/-- Setting a name above a board that defines it makes another entry, which lookups find instead. -/
theorem Reachable.set_above (hs : s.Reachable) (hown : s.board.own? d n = some e)
    (hd : d < s.board.height) {e' : EntryId} (h : s.perform (.set n v) = (.ok (some e'), s')) :
    e' ≠ e ∧ s'.board.get? n = some e' ∧ s'.board.value? e' = some v ∧
      s'.board.value? e = s.board.value? e ∧ s'.board.Answers d n e := by
  have hb := hs.wellFormed
  have hs' := hs.perform h
  cases outcome h with
  | set hset =>
    obtain ⟨htop, hentry⟩ := hb.of_set hset
    have hne := hb.ne_of_set hset hd hown
    refine ⟨hne.symm, get?_eq_some_iff.2 ⟨_, htop, fun i hi => ?_⟩, ?_, value?_set hset hne, ?_⟩
    · exact own?_eq_none_of_lt (height_set hset ▸ hi)
    · rw [value?, hentry]
      rfl
    · exact hs'.answers ((Effect.of_set hset).extends.own hown) .refl

theorem Reachable.answers_of_resolves (hs : s.Reachable) {inputs : List Binding}
    {decl : String × ValueKind} (h : Resolves s.board inputs decl e) :
    ∃ input d, inputs.find? (·.param = decl.1) = some input ∧
      s.board.get? input.entry = some e ∧ ∀ s', s.Later s' → s'.board.Answers d input.entry e := by
  obtain ⟨input, v, hinput, hget, -, -⟩ := h
  obtain ⟨d, hown, -⟩ := get?_eq_some_iff.1 hget
  exact ⟨input, d, hinput, hget, fun s' h' => hs.answers hown h'⟩

/-- **Boards below the current one are isolated.** A board answers with the nearest definition at
its depth or below, and with nothing if there is none. Setting a name on the current board, whether
it succeeds or not, changes neither the entry nor the value that a board below answers for any name.
An entry of a board keeps answering there whatever happens later; setting its name on a board above
makes a new entry, which lookups find from then on, and leaves the old one and its value alone. An
instantiated predicate is made from the entries that the bindings of its parameters find at that
moment, which keep answering where they were found; a built-in one reads just these, and setting
names above the entries that a predicate reads does not change its robustness. -/
theorem ancestors_isolated {s : Session} (hs : s.Reachable) :
    (∀ d a, s.board.board? d = some a → ∀ n,
      (∀ e, a.get? n = some e ↔
        ∃ i ≤ d, s.board.own? i n = some e ∧ ∀ j, i < j → j ≤ d → s.board.own? j n = none) ∧
      (a.get? n = none ↔ ∀ i ≤ d, s.board.own? i n = none)) ∧
    (∀ n v d a, d < s.board.height → s.board.board? d = some a →
      ∃ a', (s.perform (.set n v)).2.board.board? d = some a' ∧
        ∀ m, a'.get? m = a.get? m ∧ ∀ e, a.get? m = some e → a'.value? e = a.value? e) ∧
    (∀ d n e, s.board.own? d n = some e → ∀ s', s.Later s' → s'.board.Answers d n e ∧
      ∀ v e' s'', d < s'.board.height → s'.perform (.set n v) = (.ok (some e'), s'') →
        e' ≠ e ∧ s''.board.get? n = some e' ∧ s''.board.value? e' = some v ∧
        s''.board.value? e = s'.board.value? e ∧ s''.board.Answers d n e) ∧
    (∀ (r : Registry) p fresh q next, r.instantiate s.board p fresh = .ok (q, next) →
      ∃ k params made, r.get? p.kind = some k ∧ k.make ⟨p.kind, params⟩ = .ok made ∧
        q = .shared fresh made ∧
        (∀ x ∈ params, ∃ input d, p.inputs.find? (·.param = x.1) = some input ∧
          s.board.get? input.entry = some x.2 ∧
          ∀ s', s.Later s' → s'.board.Answers d input.entry x.2) ∧
        (k ∈ Registry.builtins → q.entries = params.map Prod.snd) ∧
        ∀ s', s.Later s' →
          (∀ e ∈ q.entries, ∃ d m, d < s'.board.height ∧ s'.board.own? d m = some e) →
          ∀ n v ρ sensors, q.robustness ρ (.ofHost sensors (s'.perform (.set n v)).2.board) =
            q.robustness ρ (.ofHost sensors s'.board)) := by
  refine ⟨fun d a ha n => ⟨fun e => get?_of_board? ha, get?_of_board?_eq_none ha⟩,
    fun n v d a hd ha => ?_, fun d n e hown s' h' => ⟨hs.answers hown h', ?_⟩,
    fun r p fresh q next h => ?_⟩
  · cases h : s.board.set n v with
    | error err =>
      refine ⟨a, ?_, fun m => ⟨rfl, fun _ _ => rfl⟩⟩
      rw [perform, h]
      exact ha
    | ok r =>
      rw [perform, h]
      exact hs.wellFormed.board?_set h hd ha
  · exact fun v e' s'' hd h => (hs.later h').set_above (h'.extends.own hown) hd h
  · obtain ⟨k, params, made, hk, hparams, hmade, rfl, -⟩ := Registry.instantiate_eq_ok.1 h
    refine ⟨k, params, made, hk, hmade, rfl, fun x hx => ?_, fun hbuiltin => ?_,
      fun s' h' hq n v ρ sensors => ?_⟩
    · obtain ⟨decl, -, hname, hresolves⟩ := hparams.exists_decl hx
      rw [hname]
      exact hs.answers_of_resolves hresolves
    · change made.entries = params.map Prod.snd
      exact entries_of_builtin hbuiltin hparams hmade
    · cases hset : s'.board.set n v with
      | error err => rw [perform, hset]
      | ok r =>
        rw [perform, hset]
        exact (hs.later h').wellFormed.robustness_set hset hq ρ sensors

def limited : Session :=
  empty.performAll [.set "speed" (.int 3), .set "limit" (.int 10), .push]

def limitedTwice : Session := (limited.perform (.set "limit" (.bool true))).2

def withinLimit : Predicate := .shared 0 (.lessThan 0 1)

theorem ancestors_isolated_limited :
    limited.Reachable ∧ limited.board.own? 0 "limit" = some 1 ∧ 0 < limited.board.height ∧
    Registry.builtins.instantiate limited.board
      ⟨"Conditions/Less Than", [⟨"A", "speed"⟩, ⟨"B", "limit"⟩]⟩ 0 = .ok (withinLimit, 1) ∧
    limitedTwice.board.get? "limit" = some 2 ∧ limitedTwice.board.value? 1 = some (.int 10) ∧
    limitedTwice.board.Answers 0 "limit" 1 ∧
    ∀ ρ sensors, withinLimit.robustness ρ (.ofHost sensors limitedTwice.board) =
      withinLimit.robustness ρ (.ofHost sensors limited.board) := by
  have hreach : limited.Reachable := later_iff.2 ⟨_, rfl⟩
  have hspeed : limited.board.own? 0 "speed" = some 0 := by decide +kernel
  have hlimit : limited.board.own? 0 "limit" = some 1 := by decide +kernel
  have hmade : Registry.builtins.instantiate limited.board
      ⟨"Conditions/Less Than", [⟨"A", "speed"⟩, ⟨"B", "limit"⟩]⟩ 0 = .ok (withinLimit, 1) := by
    decide +kernel
  obtain ⟨-, -, hhandle, hpredicate⟩ := ancestors_isolated hreach
  obtain ⟨-, hset⟩ := hhandle 0 "limit" 1 hlimit limited .refl
  obtain ⟨-, hget, -, hvalue, hanswers⟩ :=
    hset (.bool true) 2 limitedTwice (by decide) (Prod.ext (by decide +kernel) rfl)
  obtain ⟨k, params, made, -, -, -, -, -, hkept⟩ := hpredicate _ _ _ _ _ hmade
  have hbelow : ∀ e ∈ withinLimit.entries,
      ∃ d m, d < limited.board.height ∧ limited.board.own? d m = some e := by
    intro e he
    rcases List.mem_pair.1 he with rfl | rfl
    · exact ⟨0, "speed", by decide, hspeed⟩
    · exact ⟨0, "limit", by decide, hlimit⟩
  exact ⟨hreach, hlimit, by decide, hmade, hget, hvalue.trans (by decide +kernel), hanswers,
    hkept limited .refl hbelow "limit" (.bool true)⟩

end Session

end Blackboard

end RabinReward
