import RabinReward.Proofs.Machine.Verdict

/-!
# Bookkeeping over histories

A `History` records the ticks since the last reset. A tick is effective unless the machine was
halted, and what a snapshot remembers is a function of the effective ticks: their number, the reward
of the last and the largest reward (`Books`). One tick does two things at most: it enters a state
with a reward, or it finds the machine halted and does nothing (`Ticks.effect`). All of the
bookkeeping follows from that by induction on the history.
-/

namespace RabinReward

namespace Machine

variable {m : Machine} {ρ : Rounding} {s s' : Snapshot} {reward : Robustness}

/-! ## One tick -/

/-- A tick of a halted machine does nothing. Another tick enters a state with a status and its
reward, and does not turn a verdict back into running. -/
theorem Ticks.effect (h : m.Ticks ρ s reward s') :
    (m.halted s = true ∧ reward = 0 ∧ s' = s) ∨
    (m.halted s = false ∧ ∃ state status, s' = s.advance state status reward ∧
      (status = .running → s.status = .running)) := by
  obtain ⟨values, h⟩ := h.stepCase
  cases h with
  | halted hs => exact .inl ⟨hs, rfl, rfl⟩
  | undefined hs _ _ | moved hs _ _ | nearMissed hs _ _ _ => exact .inr ⟨hs, _, _, rfl, id⟩
  | stuck hs _ | accepted hs _ _ _ _ _ | acceptedOn hs _ _ _ _ _ | rejected hs _ _ _ _ =>
    exact .inr ⟨hs, _, _, rfl, nofun⟩

theorem Ticks.of_halted (hs : m.halted s = true) (h : m.Ticks ρ s reward s') :
    reward = 0 ∧ s' = s := by
  obtain ⟨values, -, hstep⟩ := h
  rw [step_halted hs] at hstep
  cases hstep
  exact ⟨rfl, rfl⟩

theorem Later.of_halted (hs : m.halted s = true) (h : m.Later ρ s s') : s' = s := by
  induction h with
  | refl => rfl
  | tick _ htick ih =>
    subst ih
    exact (htick.of_halted hs).2

theorem halted_iff_of_stop (hstop : m.config.stopOnAcceptance = true) :
    m.halted s = true ↔ s.status ≠ .running := by
  rw [halted, hstop, Bool.and_true, bne_iff_ne]

/-! ## Histories -/

/-- A tick that has happened. -/
structure TickRecord where
  before : Snapshot
  reward : Robustness
  after : Snapshot

/-- Whether the tick began with a running machine or with one that verdicts do not halt. -/
def effective (m : Machine) (x : TickRecord) : Bool :=
  x.before.status == .running || !m.config.stopOnAcceptance

def rewards (m : Machine) (ticks : List TickRecord) : List Robustness :=
  (ticks.filter m.effective).map TickRecord.reward

/-- A history of ticks and resets: the ticks since the last reset, the latest at the end, and the
snapshot that the history leads to. -/
inductive History (m : Machine) (ρ : Rounding) : List TickRecord → Snapshot → Prop where
  | start : History m ρ [] m.start
  | tick {ticks : List TickRecord} {s s' : Snapshot} {reward : Robustness} :
      History m ρ ticks s → m.Ticks ρ s reward s' → History m ρ (ticks ++ [⟨s, reward, s'⟩]) s'
  | reset {ticks : List TickRecord} {s : Snapshot} (sensors : Array Sensor) :
      History m ρ ticks s → History m ρ [] (m.reset sensors).1

theorem effective_eq_not_halted (x : TickRecord) : m.effective x = !m.halted x.before := by
  rw [effective, halted, Bool.not_and, bne, Bool.not_not]

theorem History.ticks_of_mem {ticks : List TickRecord} (h : m.History ρ ticks s) {x : TickRecord}
    (hx : x ∈ ticks) : m.Ticks ρ x.before x.reward x.after := by
  induction h with
  | start | reset => cases hx
  | tick _ htick ih =>
    rcases List.mem_append.1 hx with hx | hx
    · exact ih hx
    · rw [List.mem_singleton.1 hx]
      exact htick

/-! ## What a snapshot remembers -/

/-- What a snapshot remembers of the rewards since the last reset. -/
structure Books (rewards : List Robustness) (s : Snapshot) : Prop where
  ticks : s.ticks = rewards.length
  last : s.last = rewards.getLast?.getD 0
  best : IsGreatest {r | r = 0 ∨ r ∈ rewards} s.best

theorem Books.start (m : Machine) : Books [] m.start := by
  refine ⟨rfl, rfl, .inl rfl, ?_⟩
  rintro r (rfl | hr)
  · exact Robustness.le_refl nofun
  · cases hr

theorem isGreatest_max {rewards : List Robustness} {best : Robustness}
    (h : IsGreatest {r | r = 0 ∨ r ∈ rewards} best) (hreward : reward ≠ .nan) :
    IsGreatest {r | r = 0 ∨ r ∈ rewards ++ [reward]} (best.max reward) := by
  obtain ⟨hmem, hgreatest⟩ := h
  have hbest : best ≠ .nan := (Robustness.ne_nan_of_le (hgreatest hmem)).1
  have hold : best ≤ best.max reward := Robustness.le_max_left hbest hreward
  have hnew : reward ≤ best.max reward := Robustness.le_max_right hbest hreward
  constructor
  · rcases Robustness.max_eq_or best reward with hmax | hmax
    · rw [hmax]
      exact hmem.imp_right (List.mem_append_left _)
    · rw [hmax]
      exact .inr List.mem_concat_self
  · rintro r (hr | hr)
    · exact Robustness.le_trans (hgreatest (.inl hr)) hold
    · rcases List.mem_append.1 hr with hr | hr
      · exact Robustness.le_trans (hgreatest (.inr hr)) hold
      · rw [List.mem_singleton.1 hr]
        exact hnew

/-- Entering a state with a defined reward keeps the books. -/
theorem Books.advance {rewards : List Robustness} (h : Books rewards s) (hreward : reward ≠ .nan)
    (state : Nat) (status : Status) :
    Books (rewards ++ [reward]) (s.advance state status reward) := by
  refine ⟨?_, ?_, isGreatest_max h.best hreward⟩
  · rw [List.length_append, ← h.ticks]
    rfl
  · rw [List.getLast?_concat]
    rfl

theorem rewards_append_effective {ticks : List TickRecord} {x : TickRecord}
    (h : m.halted x.before = false) :
    m.rewards (ticks ++ [x]) = m.rewards ticks ++ [x.reward] := by
  have heffective : m.effective x = true := by rw [effective_eq_not_halted, h]; rfl
  simp [rewards, heffective]

theorem rewards_append_halted {ticks : List TickRecord} {x : TickRecord}
    (h : m.halted x.before = true) : m.rewards (ticks ++ [x]) = m.rewards ticks := by
  have heffective : m.effective x = false := by rw [effective_eq_not_halted, h]; rfl
  simp [rewards, heffective]

theorem History.books (hm : m.WellFormed) (hρ : m.Arithmetic ρ) {ticks : List TickRecord}
    (h : m.History ρ ticks s) : Books (m.rewards ticks) s := by
  induction h with
  | start => exact .start m
  | reset sensors _ _ => exact .start m
  | tick _ htick ih =>
    have hdefined := htick.reward_defined hm hρ
    rcases htick.effect with ⟨hs, rfl, rfl⟩ | ⟨hs, state, status, rfl, -⟩
    · rw [rewards_append_halted hs]
      exact ih
    · rw [rewards_append_effective hs]
      exact ih.advance hdefined state status

/-! ## Changes of the status -/

def statusChanges (ticks : List TickRecord) : Nat :=
  ticks.countP fun x => x.before.status ≠ x.after.status

/-- A machine that verdicts halt changes its status once at most, and not at all as long as it is
running. -/
theorem History.statusChanges_le {ticks : List TickRecord}
    (hstop : m.config.stopOnAcceptance = true) (h : m.History ρ ticks s) :
    statusChanges ticks ≤ 1 ∧ (s.status = .running → statusChanges ticks = 0) := by
  induction h with
  | start | reset => exact ⟨Nat.zero_le 1, fun _ => rfl⟩
  | @tick ticks s s' reward _ htick ih =>
    have hcount : statusChanges (ticks ++ [⟨s, reward, s'⟩]) =
        statusChanges ticks + if s.status ≠ s'.status then 1 else 0 := by
      unfold statusChanges
      rw [List.countP_append, List.countP_singleton]
      simp only [decide_eq_true_eq]
    rw [hcount]
    rcases htick.effect with ⟨hs, -, rfl⟩ | ⟨hs, state, status, rfl, hrun⟩
    · rw [if_neg (not_not_intro rfl)]
      exact ih
    · have hrunning : s.status = .running := by
        by_contra hverdict
        rw [(halted_iff_of_stop hstop).2 hverdict] at hs
        cases hs
      have hnone := ih.2 hrunning
      constructor
      · split <;> omega
      · intro hstill
        rw [if_neg (not_not_intro (hrunning.trans hstill.symm))]
        exact hnone

/-! ## Main statement -/

/-- **The bookkeeping of a machine is exact.** After any history of ticks and resets, the count of
ticks, the last and the best reward are those of the effective ticks since the last reset. A tick
that is not effective pays nothing and changes nothing, and no tick turns a verdict back into
running. If verdicts halt the machine, the status has changed at most once since the last reset, and
after that any number of ticks pays nothing and changes nothing. -/
theorem bookkeeping_exact {states : List (State Predicate)} {initial : Nat}
    {pairs : List RabinPair} {config : Config} {m : Machine} {ρ : Rounding}
    {ticks : List TickRecord} {s : Snapshot} (h : ofStates states initial pairs config = .ok m)
    (hρ : m.Arithmetic ρ) (hist : m.History ρ ticks s) :
    (s.ticks = (ticks.filter m.effective).length ∧
      s.last = (m.rewards ticks).getLast?.getD 0 ∧
      IsGreatest {r | r = 0 ∨ r ∈ m.rewards ticks} s.best) ∧
    (∀ x ∈ ticks, m.effective x = false → x.reward = 0 ∧ x.after = x.before) ∧
    (∀ x ∈ ticks, x.after.status = .running → x.before.status = .running) ∧
    (m.config.stopOnAcceptance = true →
      statusChanges ticks ≤ 1 ∧
      (s.status ≠ .running → ∀ s', m.Later ρ s s' → s' = s ∧
        ∀ reward s'', m.Ticks ρ s' reward s'' → reward = 0 ∧ s'' = s)) := by
  obtain ⟨hm, -, -, -, -⟩ := ofStates_eq_ok_iff.1 h
  have hbooks := hist.books hm hρ
  refine ⟨⟨?_, hbooks.last, hbooks.best⟩, fun x hx heffective => ?_, fun x hx hrunning => ?_,
    fun hstop => ⟨(hist.statusChanges_le hstop).1, fun hverdict s' hlater => ?_⟩⟩
  · rw [hbooks.ticks, rewards, List.length_map]
  · rw [effective_eq_not_halted, Bool.not_eq_false'] at heffective
    exact (hist.ticks_of_mem hx).of_halted heffective
  · rcases (hist.ticks_of_mem hx).effect with ⟨-, -, hsame⟩ | ⟨-, state, status, hafter, hkept⟩
    · rw [← hsame]
      exact hrunning
    · rw [hafter] at hrunning
      exact hkept hrunning
  · have hhalted := (halted_iff_of_stop hstop).2 hverdict
    obtain rfl := hlater.of_halted hhalted
    exact ⟨rfl, fun reward s'' htick => htick.of_halted hhalted⟩

def lapseAccepted : Snapshot := ⟨1, .accepted, 2, 1, 1⟩

def lapseTicks : List TickRecord :=
  [⟨lapse.start, 1, lapseArrived⟩, ⟨lapseArrived, 1, lapseAccepted⟩,
    ⟨lapseAccepted, 0, lapseAccepted⟩]

theorem bookkeeping_exact_lapse :
    ofStates lapse.states 0 lapse.pairs .default = .ok lapse ∧ lapse.Arithmetic .single ∧
    lapse.History .single lapseTicks lapseAccepted ∧
    lapseAccepted.ticks = (lapseTicks.filter lapse.effective).length ∧
    lapse.rewards lapseTicks = [1, 1] ∧
    IsGreatest {r | r = 0 ∨ r ∈ lapse.rewards lapseTicks} lapseAccepted.best ∧
    statusChanges lapseTicks ≤ 1 ∧ lapseAccepted.status ≠ .running ∧
    ∀ s', lapse.Later .single lapseAccepted s' → s' = lapseAccepted := by
  have hmade : ofStates lapse.states 0 lapse.pairs .default = .ok lapse := rfl
  have hρ : lapse.Arithmetic .single := .single (by decide)
  have hmoved : lapse.Ticks .single lapse.start 1 lapseArrived :=
    ⟨[.posInf], rfl, by decide +kernel⟩
  have haccepted : lapse.Ticks .single lapseArrived 1 lapseAccepted :=
    ⟨[1, -1], rfl, by decide +kernel⟩
  have hhalted : lapse.Ticks .single lapseAccepted 0 lapseAccepted :=
    ⟨[-1, 1], rfl, by decide +kernel⟩
  have hist : lapse.History .single lapseTicks lapseAccepted :=
    .tick (.tick (.tick (.reset #[] .start) hmoved) haccepted) hhalted
  obtain ⟨⟨hticks, -, hbest⟩, -, -, hstop⟩ := bookkeeping_exact hmade hρ hist
  obtain ⟨hchanges, hfrozen⟩ := hstop rfl
  exact ⟨hmade, hρ, hist, hticks, rfl, hbest, hchanges, nofun,
    fun s' hlater => (hfrozen nofun s' hlater).1⟩

end Machine

end RabinReward
