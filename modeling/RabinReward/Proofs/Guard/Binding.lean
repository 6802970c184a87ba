import RabinReward.Proofs.Guard.Value

/-!
# Binding a guard

A guard is bound to handles for its propositions unless some index at a leaf has none. The leaves
are bound from left to right, so the leftmost such index is reported (`toPredicate_eq_error_iff`).
The predicate of a bound guard measures the guard's value, which depends on the propositions that
the guard mentions and on nothing else (`value_congr`).
-/

namespace RabinReward

section Except

variable {ε α β : Type} {x : Except ε α} {f : α → Except ε β} {e : ε}

theorem bind_eq_error :
    (x >>= f) = .error e ↔ x = .error e ∨ ∃ a, x = .ok a ∧ f a = .error e := by
  cases x <;> simp [bind, Except.bind]

/-- What cannot fail does not matter for an error. -/
theorem bind_eq_error_of_ne (hf : ∀ a, f a ≠ .error e) : (x >>= f) = .error e ↔ x = .error e := by
  rw [bind_eq_error, or_iff_left]
  rintro ⟨a, -, h⟩
  exact hf a h

theorem bind_eq_error_or {E F : ε → Prop} (hx : ∀ {e}, x = .error e ↔ E e)
    (hf : ∀ {a}, f a = .error e ↔ F e) : (x >>= f) = .error e ↔ E e ∨ (¬∃ e, E e) ∧ F e := by
  rw [bind_eq_error, hx]
  refine or_congr_right ⟨?_, ?_⟩
  · rintro ⟨a, hok, h⟩
    refine ⟨?_, hf.1 h⟩
    rintro ⟨e', he'⟩
    rw [hx.2 he'] at hok
    cases hok
  · rintro ⟨hnone, he⟩
    cases hmade : x with
    | error e' => exact absurd ⟨e', hx.1 hmade⟩ hnone
    | ok a => exact ⟨a, rfl, hf.2 he⟩

end Except

namespace Guard

variable {g l r : Guard} {props : List Predicate} {fresh : Identity} {e : ResolutionError}

/-- The leftmost index for which there is no handle. -/
def firstUnknown (props : List Predicate) (leaves : List UInt32) : Option UInt32 :=
  leaves.find? fun i => props.length ≤ i.toNat

theorem firstUnknown_isSome_iff {us : List UInt32} :
    (firstUnknown props us).isSome ↔ ∃ i ∈ us, props.length ≤ i.toNat := by
  rw [firstUnknown, List.find?_isSome]
  simp only [decide_eq_true_eq]

theorem firstUnknown_append {us vs : List UInt32} {i : UInt32} :
    firstUnknown props (us ++ vs) = some i ↔ firstUnknown props us = some i ∨
      firstUnknown props us = none ∧ firstUnknown props vs = some i := by
  rw [firstUnknown, List.find?_append, Option.or_eq_some_iff]
  rfl

/-- What is reported of the leaves of a guard. -/
def Reports (props : List Predicate) (leaves : List UInt32) (e : ResolutionError) : Prop :=
  ∃ i, firstUnknown props leaves = some i ∧ e = .unknownProposition i props.length

theorem not_exists_reports {us : List UInt32} :
    (¬∃ e, Reports props us e) ↔ firstUnknown props us = none := by
  rw [Option.eq_none_iff_forall_ne_some]
  constructor
  · exact fun h i hi => h ⟨_, i, hi, rfl⟩
  · rintro h ⟨_, i, hi, -⟩
    exact h i hi

theorem reports_append {us vs : List UInt32} :
    Reports props (us ++ vs) e ↔
      Reports props us e ∨ firstUnknown props us = none ∧ Reports props vs e := by
  simp only [Reports, firstUnknown_append, or_and_right, exists_or, and_assoc, exists_and_left]

/-- An operator is not bound when one of its operands is not, the left one first. -/
theorem operands_eq_error {f : Predicate → Predicate → Predicate}
    (hl : ∀ {fresh e}, l.toPredicate props fresh = .error e ↔ Reports props l.leaves e)
    (hr : ∀ {fresh e}, r.toPredicate props fresh = .error e ↔ Reports props r.leaves e) :
    ((do
      let (p, n) ← l.toPredicate props fresh
      let (q, n) ← r.toPredicate props n
      return (.shared n (f p q), n + 1)) : Except ResolutionError (Predicate × Identity)) =
        .error e ↔ Reports props (l.leaves ++ r.leaves) e := by
  have hright (n : Identity) (p : Predicate) :
      ((do
        let (q, n) ← r.toPredicate props n
        return (.shared n (f p q), n + 1)) : Except ResolutionError (Predicate × Identity)) =
          .error e ↔ Reports props r.leaves e := by
    rw [bind_eq_error_of_ne, hr]
    rintro ⟨_, _⟩ h
    cases h
  rw [bind_eq_error_or hl fun {x} => hright x.2 x.1, reports_append, not_exists_reports]

theorem toPredicate_eq_error_iff :
    g.toPredicate props fresh = .error e ↔ Reports props g.leaves e := by
  induction g generalizing fresh e with
  | literal b => cases b <;> simp [toPredicate, leaves, Reports, firstUnknown]
  | prop i =>
    simp only [toPredicate, leaves, Reports, firstUnknown, List.find?_singleton]
    split
    · rename_i p hp
      have hlt : i.toNat < props.length := (List.getElem?_eq_some_iff.1 hp).1
      simp [Nat.not_le.2 hlt]
    · rename_i hnone
      rw [if_pos (by simpa using hnone)]
      constructor
      · intro h
        exact ⟨i, rfl, (Except.error.inj h).symm⟩
      · rintro ⟨_, ⟨⟩, rfl⟩
        rfl
  | not g ih =>
    rw [toPredicate, bind_eq_error, ih, or_iff_left]
    · rfl
    · rintro ⟨_, -, h⟩
      cases h
  | and l r ihl ihr => exact operands_eq_error ihl ihr
  | or l r ihl ihr => exact operands_eq_error ihl ihr

theorem isError_iff :
    (∃ e, g.toPredicate props fresh = .error e) ↔ ∃ i ∈ g.propositions, props.length ≤ i.toNat := by
  simp only [toPredicate_eq_error_iff, mem_propositions, ← firstUnknown_isSome_iff,
    Option.isSome_iff_exists]
  constructor
  · rintro ⟨_, i, hi, -⟩
    exact ⟨i, hi⟩
  · rintro ⟨i, hi⟩
    exact ⟨_, i, hi, rfl⟩

theorem value_congr {v w : UInt32 → Robustness} (h : ∀ i ∈ g.leaves, v i = w i) :
    g.value v = g.value w := by
  induction g with
  | literal b => cases b <;> rfl
  | prop i => exact h i (List.mem_singleton_self i)
  | not g ih => rw [value, value, ih h]
  | and l r ihl ihr | or l r ihl ihr =>
    rw [leaves, List.forall_mem_append] at h
    rw [value, value, ihl h.1, ihr h.2]

/-- **Binding is sound.** It fails exactly when some index has no handle, and reports the leftmost.
Otherwise the predicate measures the guard's value, and the sign of that is sound for truth. -/
theorem toPredicate_sound (g : Guard) (props : List Predicate) (fresh : Identity) :
    ((∃ e, g.toPredicate props fresh = .error e) ↔ ∃ i ∈ g.propositions, props.length ≤ i.toNat) ∧
    (∀ e, g.toPredicate props fresh = .error e ↔
      ∃ i, g.leaves.find? (fun i => props.length ≤ i.toNat) = some i ∧
        e = .unknownProposition i props.length) ∧
    ∀ p n, g.toPredicate props fresh = .ok (p, n) → ∀ (ρ : Rounding) (r : Readings),
      (∀ i ∈ g.propositions, row ρ r props i ≠ .nan) →
      p.robustness ρ r = g.value (row ρ r props) ∧
      (p.robustness ρ r = 1 ∨ p.robustness ρ r = -1 ∨
        ∃ i ∈ g.propositions,
          p.robustness ρ r = row ρ r props i ∨ p.robustness ρ r = -row ρ r props i) ∧
      (∀ r', (∀ i ∈ g.propositions, row ρ r' props i = row ρ r props i) →
        p.robustness ρ r' = p.robustness ρ r) ∧
      ∀ b : UInt32 → Bool,
        (∀ i ∈ g.propositions,
          (0 < row ρ r props i → b i = true) ∧ (row ρ r props i < 0 → b i = false)) →
        (0 < p.robustness ρ r → g.holds b = true) ∧ (p.robustness ρ r < 0 → g.holds b = false) := by
  refine ⟨isError_iff, fun e => toPredicate_eq_error_iff, fun p n hp ρ r hnan => ?_⟩
  simp only [mem_propositions] at hnan ⊢
  have hvalue (r : Readings) : p.robustness ρ r = g.value (row ρ r props) :=
    (robustness_toPredicate hp ρ r).1
  refine ⟨hvalue r, ?_, fun r' hr' => ?_, fun b hb => ?_⟩
  · rw [hvalue]
    exact value_eq_or _ g
  · rw [hvalue, hvalue]
    exact value_congr hr'
  · rw [hvalue]
    exact sign_sound hnan hb

def mixed : Guard := .or (.and (.prop 0) (.not (.prop 1))) (.prop 2)

def mixedHandles : List Predicate :=
  [.shared 0 (.sensor 0), .shared 1 (.sensor 1), .shared 2 (.sensor 2)]

def mixedPredicate : Predicate :=
  .shared 5 (.or
    (.shared 4 (.and (.shared 0 (.sensor 0)) (.shared 3 (.not (.shared 1 (.sensor 1))))))
    (.shared 2 (.sensor 2)))

/-- The last sensor shows zero, so its proposition may be taken as true or as false. -/
def mixedReadings : Readings :=
  ⟨fun s => if s = 0 then .finite (1 / 2) else if s = 1 then -2 else 0, fun _ => none⟩

theorem toPredicate_sound_mixed :
    mixed.toPredicate (mixedHandles.take 1) 1 = .error (.unknownProposition 1 1) ∧
    mixed.toPredicate mixedHandles 3 = .ok (mixedPredicate, 6) ∧
    (∀ i ∈ mixed.propositions, row .exact mixedReadings mixedHandles i ≠ .nan) ∧
    mixedPredicate.robustness .exact mixedReadings = .finite (1 / 2) ∧
    ∀ b : UInt32 → Bool, b 0 = true → b 1 = false → mixed.holds b = true := by
  obtain ⟨-, herror, -⟩ := toPredicate_sound mixed (mixedHandles.take 1) 1
  obtain ⟨-, -, hok⟩ := toPredicate_sound mixed mixedHandles 3
  have hbind : mixed.toPredicate mixedHandles 3 = .ok (mixedPredicate, 6) := rfl
  have hleaf {i : UInt32} (hi : i ∈ mixed.propositions) : i = 0 ∨ i = 1 ∨ i = 2 := by
    simpa [mem_propositions, mixed, leaves] using hi
  have hnan : ∀ i ∈ mixed.propositions, row .exact mixedReadings mixedHandles i ≠ .nan := by
    intro i hi
    obtain rfl | rfl | rfl := hleaf hi <;> decide +kernel
  obtain ⟨hvalue, -, -, hsign⟩ := hok _ _ hbind .exact mixedReadings hnan
  have hhalf : mixedPredicate.robustness .exact mixedReadings = .finite (1 / 2) := by
    rw [hvalue]
    decide +kernel
  refine ⟨(herror _).2 ⟨1, rfl, rfl⟩, hbind, hnan, hhalf, fun b h0 h1 => (hsign b ?_).1 ?_⟩
  · intro i hi
    obtain rfl | rfl | rfl := hleaf hi
    · exact ⟨fun _ => h0, fun h => absurd h (by decide +kernel)⟩
    · exact ⟨fun h => absurd h (by decide +kernel), fun _ => h1⟩
    · exact ⟨fun h => absurd h (by decide +kernel), fun h => absurd h (by decide +kernel)⟩
  · rw [hhalf]
    decide +kernel

end Guard

end RabinReward
