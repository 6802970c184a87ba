import RabinReward.Text.Numeral

/-!
# Numerals in text

`IsNumeral n ds` says that the digits `ds` are a numeral of `n`. Reading a number takes the maximal
run of digits and accepts it below the bound (`numeral?_eq_some_iff`); a printed number is one of
its numerals (`isNumeral_repr`).
-/

namespace RabinReward.Text

variable {p : Char → Bool} {u r : List Char}

/-! ## Maximal runs -/

theorem takeWhile_append_of_head (hu : ∀ c ∈ u, p c = true) (hr : ∀ c ∈ r.head?, p c = false) :
    (u ++ r).takeWhile p = u := by
  rw [List.takeWhile_append_of_pos hu]
  cases r with
  | nil => exact List.append_nil u
  | cons c r => rw [List.takeWhile_cons_of_neg (by simp [hr c rfl]), List.append_nil]

theorem dropWhile_append_of_head (hu : ∀ c ∈ u, p c = true) (hr : ∀ c ∈ r.head?, p c = false) :
    (u ++ r).dropWhile p = r := by
  rw [List.dropWhile_append_of_pos hu]
  cases r with
  | nil => rfl
  | cons c r => exact List.dropWhile_cons_of_neg (by simp [hr c rfl])

theorem head_dropWhile (p : Char → Bool) (cs : List Char) :
    ∀ c ∈ (cs.dropWhile p).head?, p c = false := by
  intro c hc
  have := List.head?_dropWhile_not p cs
  rw [Option.mem_def.1 hc] at this
  simpa using this

theorem mem_takeWhile {cs : List Char} : ∀ c ∈ cs.takeWhile p, p c = true :=
  List.all_eq_true.1 List.all_takeWhile

/-! ## Numerals -/

/-- The digits are a numeral of `n`; leading zeros are allowed. -/
structure IsNumeral (n : Nat) (ds : List Char) : Prop where
  ne_nil : ds ≠ []
  digits : ∀ d ∈ ds, isDigit d = true
  value : numeralValue ds = n

theorem numeral?_eq_some_iff {bound n : Nat} {cs r : List Char} :
    numeral? bound cs = some (n, r) ↔
      n < bound ∧ ∃ ds, cs = ds ++ r ∧ IsNumeral n ds ∧ ∀ c ∈ r.head?, isDigit c = false := by
  simp only [numeral?]
  constructor
  · intro h
    split at h
    · rename_i hc
      cases h
      simp only [Bool.and_eq_true, Bool.not_eq_true', decide_eq_true_eq] at hc
      refine ⟨hc.2, _, List.takeWhile_append_dropWhile.symm, ⟨?_, mem_takeWhile, rfl⟩,
        head_dropWhile isDigit cs⟩
      exact fun hnil => by simp [hnil] at hc
    · cases h
  · rintro ⟨hlt, ds, rfl, ⟨hne, hds, rfl⟩, hr⟩
    rw [takeWhile_append_of_head hds hr, dropWhile_append_of_head hds hr, if_pos]
    simpa [hlt] using hne

/-- A printed number is a numeral of it. -/
theorem isNumeral_repr (n : Nat) : IsNumeral n (Nat.repr n).toList := by
  rw [Nat.toList_repr]
  refine ⟨Nat.toDigits_ne_nil, fun d hd => ?_, Nat.ofDigitChars_ten_toDigits⟩
  have := Nat.isDigit_of_mem_toDigits (by omega) (by omega) hd
  simp only [Char.isDigit, Bool.and_eq_true, decide_eq_true_eq] at this
  simp only [isDigit, Bool.and_eq_true, decide_eq_true_eq]
  exact this

end RabinReward.Text
