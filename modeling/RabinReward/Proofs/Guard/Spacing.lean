import RabinReward.Proofs.Guard.Print

/-!
# White space between the tokens of a guard

`Spaced cs cs'` puts white space into a text `cs` wherever it does not part two digits. The scan
finds the same symbols in both (`symbols_of_spaced`), though at other positions, and which guard a
text spells depends on its symbols only. So a printed guard reads back with any white space between
its tokens.
-/

namespace RabinReward.Guard

open Text

variable {cs cs' : List Char} {g : Guard}

/-- The text `cs'` holds the maximal runs of digits and the other characters of `cs` in order, with
any white space in front of, between and behind them. -/
inductive Spaced : List Char → List Char → Prop where
  | nil : Spaced [] []
  | blank {c : Char} {cs cs' : List Char} : isBlank c = true → Spaced cs cs' → Spaced cs (c :: cs')
  | run {ds cs cs' : List Char} : ds ≠ [] → (∀ d ∈ ds, isDigit d = true) →
      (∀ c ∈ cs.head?, isDigit c = false) → Spaced cs cs' → Spaced (ds ++ cs) (ds ++ cs')
  | other {c : Char} {cs cs' : List Char} : isDigit c = false → Spaced cs cs' →
      Spaced (c :: cs) (c :: cs')

theorem Spaced.head (h : Spaced cs cs') (hcs : ∀ c ∈ cs.head?, isDigit c = false) :
    ∀ c ∈ cs'.head?, isDigit c = false := by
  cases h with
  | nil => nofun
  | blank hb _ =>
    rintro c ⟨⟩
    exact isDigit_of_isBlank hb
  | @run ds cs cs' hne hds _ _ =>
    cases ds with
    | nil => exact absurd rfl hne
    | cons d ds => exact absurd (hds d List.mem_cons_self) (Bool.eq_false_iff.1 (hcs d rfl))
  | other hdigit _ =>
    rintro c ⟨⟩
    exact hdigit

/-- White space changes the positions of the symbols and nothing else. -/
theorem symbols_of_spaced (h : Spaced cs cs') (p q : Nat) :
    (tokens q cs').map Token.symbol = (tokens p cs).map Token.symbol := by
  induction h generalizing p q with
  | nil => rfl
  | blank hb _ ih => rw [tokens_blank hb, ih p]
  | run hne hds hcs hrest ih =>
    rw [tokens_run hne hds hcs, tokens_run hne hds (hrest.head hcs), List.map_cons, List.map_cons,
      ih]
  | @other c _ _ hdigit _ ih =>
    cases hb : isBlank c with
    | true => rw [tokens_blank hb, tokens_blank hb, ih]
    | false => rw [tokens_other hb hdigit, tokens_other hb hdigit, List.map_cons, List.map_cons, ih]

theorem parseChars_of_spaced (h : Spaced cs cs') :
    parseChars cs' = .ok g ↔ parseChars cs = .ok g := by
  rw [parseChars, parseChars, run_start_eq_ok_iff, run_start_eq_ok_iff, symbols_of_spaced h]

/-- **Printed guards read back**, as they are and with any white space between their tokens. -/
theorem parse_print_spaced (g : Guard) :
    parse g.print = .ok g ∧
      ∀ text : String, Spaced g.print.toList text.toList → parse text = .ok g := by
  have hprint : parse g.print = .ok g := parseChars_print g
  exact ⟨hprint, fun text h => (parseChars_of_spaced h).2 hprint⟩

def nested : Guard := .not (.not (.and (.prop 10) (.not (.literal true))))

theorem parse_print_spaced_nested :
    nested.print = "!!(10&!t)" ∧ parse "!!(10&!t)" = .ok nested ∧
    Spaced nested.print.toList "! !(\t10 &\n!t) ".toList ∧
    parse "! !(\t10 &\n!t) " = .ok nested := by
  have hprint : nested.print = "!!(10&!t)" := by decide +kernel
  obtain ⟨hparse, hspaced⟩ := parse_print_spaced nested
  have hamp : Spaced ['&', '!', 't', ')'] [' ', '&', '\n', '!', 't', ')', ' '] :=
    .blank rfl (.other rfl (.blank rfl (.other rfl (.other rfl (.other rfl (.blank rfl .nil))))))
  have hdigits : ∀ d ∈ ['1', '0'], isDigit d = true := List.all_eq_true.1 rfl
  have hnumber : Spaced (['1', '0'] ++ ['&', '!', 't', ')'])
      (['1', '0'] ++ [' ', '&', '\n', '!', 't', ')', ' ']) :=
    .run nofun hdigits (by rintro _ ⟨⟩; rfl) hamp
  have h : Spaced "!!(10&!t)".toList "! !(\t10 &\n!t) ".toList :=
    .other rfl (.blank rfl (.other rfl (.other rfl (.blank rfl hnumber))))
  rw [← hprint] at h
  exact ⟨hprint, hprint ▸ hparse, h, hspaced _ h⟩

end RabinReward.Guard
