import RabinReward.Proofs.Guard.Grammar
import RabinReward.Proofs.Text.Numeral

/-!
# Printed guards

A guard prints as one phrase of the grammar, since every operation has parentheses of its own:
`symbols` are the symbols of the printed form (`lexesFirst_print`), and they derive the guard
(`derives_symbols`). So a printed guard reads back (`parseChars_print`).
-/

namespace RabinReward.Guard

open Text

def symbols : Guard → List Symbol
  | .literal b => [.literal b]
  | .prop i => [.digits (Nat.repr i.toNat).toList]
  | .not g => .bang :: g.symbols
  | .and l r => .opening :: ((l.symbols ++ .amp :: r.symbols) ++ [.closing])
  | .or l r => .opening :: ((l.symbols ++ .bar :: r.symbols) ++ [.closing])

theorem derives_symbols (g : Guard) : Derives .unary g.symbols g := by
  induction g with
  | literal b => exact .literal b
  | prop i =>
    have hvalue : numeralValue (Nat.repr i.toNat).toList = i.toNat := (isNumeral_repr i.toNat).value
    have hnumber : Derives .unary [.digits (Nat.repr i.toNat).toList]
        (.prop (UInt32.ofNat (numeralValue (Nat.repr i.toNat).toList))) :=
      .number (by rw [hvalue]; exact i.toNat_lt_size)
    rwa [hvalue, UInt32.ofNat_toNat] at hnumber
  | not g ih => exact .not ih
  | and l r ihl ihr => exact .group (.ofConjunction (.and (.ofUnary ihl) ihr))
  | or l r ihl ihr =>
    exact .group (.or (.ofConjunction (.ofUnary ihl)) (.ofUnary ihr))

/-- In front of a text that does not continue its digits, `cs` has the symbols `ss`. -/
def LexesFirst (cs : List Char) (ss : List Symbol) : Prop :=
  ∀ rest us, (∀ c ∈ rest.head?, isDigit c = false) → Lexes rest us → Lexes (cs ++ rest) (ss ++ us)

theorem lexesFirst_sign {c : Char} {s : Symbol} (hs : (c, s) ∈ signs) : LexesFirst [c] [s] :=
  fun _ _ _ h => .sign hs h

/-- A sign ends the digits in front of it. -/
theorem LexesFirst.append_sign {u v : List Char} {ss ts : List Symbol} {c : Char} {s : Symbol}
    (hu : LexesFirst u ss) (hs : (c, s) ∈ signs) (hv : LexesFirst v ts) :
    LexesFirst (u ++ c :: v) (ss ++ s :: ts) := by
  intro rest us hrest h
  rw [List.append_assoc, List.append_assoc]
  refine hu _ _ ?_ (.sign hs (hv rest us hrest h))
  rintro d ⟨⟩
  exact (ofChar_of_mem_signs hs).2.1

theorem LexesFirst.group {u : List Char} {ss : List Symbol} (hu : LexesFirst u ss) :
    LexesFirst ('(' :: (u ++ [')'])) (.opening :: (ss ++ [.closing])) := by
  intro rest us hrest h
  have hclosing : LexesFirst (u ++ [')']) (ss ++ [.closing]) :=
    hu.append_sign (by decide) fun _ _ _ h => h
  exact .sign (by decide) (hclosing rest us hrest h)

/-- A printed guard has its symbols, whatever follows it. -/
theorem lexesFirst_print (g : Guard) : LexesFirst g.print.toList g.symbols := by
  induction g with
  | literal b => cases b <;> exact lexesFirst_sign (by decide)
  | prop i =>
    have hnumeral := isNumeral_repr i.toNat
    exact fun rest us hrest h => .run hnumeral.ne_nil hnumeral.digits hrest h
  | not g ih =>
    rw [print, String.toList_append]
    exact fun rest us hrest h => .sign (by decide) (ih rest us hrest h)
  | and l r ihl ihr =>
    have hprint : (Guard.and l r).print.toList =
        '(' :: ((l.print.toList ++ '&' :: r.print.toList) ++ [')']) := by
      simp [print]
    rw [hprint]
    exact (ihl.append_sign (by decide) ihr).group
  | or l r ihl ihr =>
    have hprint : (Guard.or l r).print.toList =
        '(' :: ((l.print.toList ++ '|' :: r.print.toList) ++ [')']) := by
      simp [print]
    rw [hprint]
    exact (ihl.append_sign (by decide) ihr).group

theorem parseChars_print (g : Guard) : parseChars g.print.toList = .ok g := by
  have hlex := lexesFirst_print g [] [] nofun .nil
  rw [List.append_nil, List.append_nil] at hlex
  rw [parseChars, run_start_eq_ok_iff, symbols_of_lexes hlex 0]
  exact .ofConjunction (.ofUnary (derives_symbols g))

theorem mem_print {g : Guard} {c : Char} (h : c ∈ g.print.toList) :
    isDigit c = true ∨ c ∈ signs.map Prod.fst := by
  have hsign {x : Char} (hx : x ∈ signs.map Prod.fst) (hc : c ∈ [x]) :
      isDigit c = true ∨ c ∈ signs.map Prod.fst := .inr (List.mem_singleton.1 hc ▸ hx)
  induction g with
  | literal b => cases b <;> exact hsign (by decide) h
  | prop i => exact .inl ((isNumeral_repr i.toNat).digits c h)
  | not g ih =>
    simp only [print, String.toList_append, List.mem_append] at h
    rcases h with hbang | h
    · exact hsign (by decide) hbang
    · exact ih h
  | and l r ihl ihr | or l r ihl ihr =>
    simp only [print, String.toList_append, List.mem_append] at h
    rcases h with (((hopening | hl) | hinfix) | hr) | hclosing
    · exact hsign (by decide) hopening
    · exact ihl hl
    · exact hsign (by decide) hinfix
    · exact ihr hr
    · exact hsign (by decide) hclosing

theorem not_mem_print {g : Guard} {c : Char} (hdigit : isDigit c = false)
    (hsigns : c ∉ signs.map Prod.fst) : c ∉ g.print.toList := by
  intro h
  rcases mem_print h with h | h
  · rw [hdigit] at h
    cases h
  · exact hsigns h

end RabinReward.Guard
