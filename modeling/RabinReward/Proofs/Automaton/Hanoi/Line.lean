import RabinReward.Automaton.Hanoi.Line
import RabinReward.Proofs.Text.Numeral
import Mathlib.Data.List.Basic

/-!
# The forms of single lines

Each kind of line has a form, stated by how its characters are put together: a name, spaces, a
numeral and what may follow it. The readers of single lines accept exactly these forms
(`count?_eq_some_iff`, `acceptance?_eq_some_iff`, `state?_eq_some_iff`, `transition?_eq_some_iff`),
and what a line of the header or of the body says is decided by its form, since the forms begin
differently.
-/

namespace RabinReward.Hanoi

open Text

variable {cs r : List Char} {n : Nat}

/-! ## Parts of a line -/

def Spaces (cs : List Char) : Prop := ∀ c ∈ cs, isSpace c = true

instance (cs : List Char) : Decidable (Spaces cs) :=
  decidable_of_iff (cs.all isSpace = true) List.all_eq_true

theorem after?_eq_some_iff {text : String} : after? text cs = some r ↔ cs = text.toList ++ r := by
  rw [after?, List.isPrefixOf?_eq_some_iff_append_eq, eq_comm]

theorem after?_isSome_iff {text : String} :
    (after? text cs).isSome = true ↔ text.toList <+: cs := by
  rw [Option.isSome_iff_exists]
  exact exists_congr fun r => after?_eq_some_iff.trans eq_comm

theorem upTo?_eq_some_iff {closing : Char} {u : List Char} :
    upTo? closing cs = some (u, r) ↔ cs = u ++ closing :: r ∧ closing ∉ u := by
  induction cs generalizing u with
  | nil => simp [upTo?]
  | cons c cs ih =>
    rw [upTo?]
    split
    · rename_i hc
      subst hc
      cases u with
      | nil => simp
      | cons d u => simp +contextual [eq_comm]
    · rename_i hc
      simp only [Option.map_eq_some_iff, Prod.exists, Prod.mk.injEq]
      constructor
      · rintro ⟨u, r', hu, rfl, rfl⟩
        obtain ⟨rfl, hnot⟩ := ih.1 hu
        exact ⟨rfl, by simp [hnot, Ne.symm hc]⟩
      · rintro ⟨hcs, hnot⟩
        cases u with
        | nil => exact absurd (List.cons.inj hcs).1 hc
        | cons d u =>
          obtain ⟨rfl, rfl⟩ := List.cons.inj hcs
          exact ⟨u, r, ih.2 ⟨rfl, fun hu => hnot (List.mem_cons_of_mem _ hu)⟩, rfl, rfl⟩

theorem spaces?_eq_some_iff : spaces? cs = some r ↔
    ∃ sp, sp ≠ [] ∧ Spaces sp ∧ cs = sp ++ r ∧ ∀ c ∈ r.head?, isSpace c = false := by
  cases cs with
  | nil => simp +contextual [spaces?]
  | cons c cs =>
    rw [spaces?]
    constructor
    · intro h
      split at h
      · rename_i hc
        cases h
        refine ⟨c :: cs.takeWhile isSpace, List.cons_ne_nil _ _, ?_, ?_, head_dropWhile _ _⟩
        · exact List.forall_mem_cons.2 ⟨hc, mem_takeWhile⟩
        · exact congrArg (c :: ·) List.takeWhile_append_dropWhile.symm
      · cases h
    · rintro ⟨sp, hne, hsp, hcs, hr⟩
      cases sp with
      | nil => exact absurd rfl hne
      | cons d sp =>
        rw [List.cons_append, List.cons.injEq] at hcs
        obtain ⟨rfl, rfl⟩ := hcs
        rw [Spaces, List.forall_mem_cons] at hsp
        rw [if_pos hsp.1, skipSpaces, dropWhile_append_of_head hsp.2 hr]

theorem isSpace_of_isDigit {c : Char} (h : isDigit c = true) : isSpace c = false := by
  rw [isSpace, Bool.or_eq_false_iff]
  constructor <;> refine beq_eq_false_iff_ne.2 ?_ <;> rintro rfl <;> cases h

theorem isDigit_of_isSpace {c : Char} (h : isSpace c = true) : isDigit c = false := by
  rw [← Bool.not_eq_true]
  intro hd
  rw [isSpace_of_isDigit hd] at h
  cases h

theorem head_isNumeral {ds : List Char} (h : IsNumeral n ds) :
    ∀ c ∈ (ds ++ r).head?, isSpace c = false := by
  intro c hc
  obtain ⟨d, ds, rfl⟩ := List.exists_cons_of_ne_nil h.ne_nil
  cases hc
  exact isSpace_of_isDigit (h.digits c List.mem_cons_self)

theorem number?_skipSpaces {cs : List Char} : number? (skipSpaces cs) = some (n, r) ↔
    n < wordBound ∧ ∃ sp ds, cs = sp ++ (ds ++ r) ∧ Spaces sp ∧ IsNumeral n ds ∧
      ∀ c ∈ r.head?, isDigit c = false := by
  rw [number?, numeral?_eq_some_iff]
  refine and_congr_right fun _ => ?_
  constructor
  · rintro ⟨ds, hcs, hds, hr⟩
    refine ⟨cs.takeWhile isSpace, ds, ?_, mem_takeWhile, hds, hr⟩
    rw [← hcs]
    exact List.takeWhile_append_dropWhile.symm
  · rintro ⟨sp, ds, rfl, hsp, hds, hr⟩
    exact ⟨ds, dropWhile_append_of_head hsp (head_isNumeral hds), hds, hr⟩

/-! ## Lines of the header -/

def CountLine (name : String) (n : Nat) (cs : List Char) : Prop :=
  n < wordBound ∧ ∃ sp ds, cs = name.toList ++ (sp ++ ds) ∧ Spaces sp ∧ IsNumeral n ds

theorem count?_eq_some_iff {name : String} : count? name cs = some n ↔ CountLine name n cs := by
  simp only [count?, Option.bind_eq_bind, Option.bind_eq_some_iff, after?_eq_some_iff, Prod.exists,
    number?_skipSpaces, CountLine]
  constructor
  · rintro ⟨_, rfl, m, r, ⟨hm, sp, ds, rfl, hsp, hds, -⟩, h⟩
    split at h
    · rename_i hr
      cases h
      rw [List.isEmpty_iff.1 hr, List.append_nil]
      exact ⟨hm, sp, ds, rfl, hsp, hds⟩
    · cases h
  · rintro ⟨hn, sp, ds, rfl, hsp, hds⟩
    exact ⟨_, rfl, n, [], ⟨hn, sp, ds, by rw [List.append_nil], hsp, hds, nofun⟩, rfl⟩

/-- The number of acceptance sets and a condition that does not continue its digits. -/
def AcceptanceLine (sets : Nat) (condition cs : List Char) : Prop :=
  sets < wordBound ∧ ∃ sp ds, cs = "Acceptance:".toList ++ (sp ++ (ds ++ condition)) ∧ Spaces sp ∧
    IsNumeral sets ds ∧ ∀ c ∈ condition.head?, isDigit c = false

theorem acceptance?_eq_some_iff {sets : Nat} {pairs : List (Nat × Nat)} :
    acceptance? cs = some (sets, pairs) ↔
      ∃ condition, AcceptanceLine sets condition cs ∧ rabinPairs condition = pairs := by
  simp only [acceptance?, Option.bind_eq_bind, Option.bind_eq_some_iff, after?_eq_some_iff,
    Prod.exists, number?_skipSpaces, AcceptanceLine]
  constructor
  · rintro ⟨_, rfl, m, r, ⟨hm, sp, ds, rfl, hsp, hds, hr⟩, h⟩
    cases h
    exact ⟨r, ⟨hm, sp, ds, rfl, hsp, hds, hr⟩, rfl⟩
  · rintro ⟨r, ⟨hm, sp, ds, rfl, hsp, hds, hr⟩, rfl⟩
    exact ⟨_, rfl, sets, r, ⟨hm, sp, ds, rfl, hsp, hds, hr⟩, rfl⟩

def PairText (i j : Nat) (cs : List Char) : Prop :=
  i < wordBound ∧ j < wordBound ∧ ∃ ds sp sp' es,
    cs = "Fin(".toList ++ (ds ++ ')' :: (sp ++ '&' :: (sp' ++ ("Inf(".toList ++ (es ++ [')']))))) ∧
    IsNumeral i ds ∧ Spaces sp ∧ Spaces sp' ∧ IsNumeral j es

theorem numberIn?_eq_some_iff {opening : String} : numberIn? opening cs = some (n, r) ↔
    n < wordBound ∧ ∃ ds, cs = opening.toList ++ (ds ++ ')' :: r) ∧ IsNumeral n ds := by
  simp only [numberIn?, Option.bind_eq_bind, Option.bind_eq_some_iff, after?_eq_some_iff,
    Prod.exists, number?, numeral?_eq_some_iff]
  constructor
  · rintro ⟨_, rfl, m, _, ⟨hm, ds, rfl, hds, -⟩, _, rfl, h⟩
    cases h
    exact ⟨hm, ds, rfl, hds⟩
  · rintro ⟨hn, ds, rfl, hds⟩
    refine ⟨_, rfl, n, ')' :: r, ⟨hn, ds, rfl, hds, ?_⟩, r, rfl, rfl⟩
    rintro c ⟨⟩
    rfl

theorem skipSpaces_eq_iff (hr : ∀ c ∈ r.head?, isSpace c = false) :
    skipSpaces cs = r ↔ ∃ sp, cs = sp ++ r ∧ Spaces sp := by
  constructor
  · rintro rfl
    exact ⟨cs.takeWhile isSpace, List.takeWhile_append_dropWhile.symm, mem_takeWhile⟩
  · rintro ⟨sp, rfl, hsp⟩
    exact dropWhile_append_of_head hsp hr

theorem rabinPair?_eq_some_iff {i j : Nat} : rabinPair? cs = some ((i, j), r) ↔
    ∃ u, cs = u ++ r ∧ PairText i j u := by
  simp only [rabinPair?, Option.bind_eq_bind, Option.bind_eq_some_iff, Prod.exists,
    numberIn?_eq_some_iff, after?_eq_some_iff, PairText]
  constructor
  · rintro ⟨i, _, ⟨hi, ds, rfl, hds⟩, r', hamp, j, r'', ⟨hj, es, hinf, hes⟩, h⟩
    cases h
    obtain ⟨sp, rfl, hsp⟩ := (skipSpaces_eq_iff (by rintro c ⟨⟩; rfl)).1 hamp
    obtain ⟨sp', rfl, hsp'⟩ := (skipSpaces_eq_iff (by rintro c ⟨⟩; rfl)).1 hinf
    exact ⟨_, by simp, hi, hj, ds, sp, sp', es, rfl, hds, hsp, hsp', hes⟩
  · rintro ⟨_, rfl, hi, hj, ds, sp, sp', es, rfl, hds, hsp, hsp', hes⟩
    have hinf : skipSpaces (sp' ++ ("Inf(".toList ++ (es ++ ')' :: r))) =
        "Inf(".toList ++ (es ++ ')' :: r) :=
      (skipSpaces_eq_iff (by rintro c ⟨⟩; rfl)).2 ⟨sp', rfl, hsp'⟩
    have hamp : skipSpaces (sp ++ '&' :: (sp' ++ ("Inf(".toList ++ (es ++ ')' :: r)))) =
        "&".toList ++ (sp' ++ ("Inf(".toList ++ (es ++ ')' :: r))) :=
      (skipSpaces_eq_iff (by rintro c ⟨⟩; rfl)).2 ⟨sp, rfl, hsp⟩
    exact ⟨i, _, ⟨hi, ds, by simp, hds⟩, _, hamp, j, r, ⟨hj, es, hinf, hes⟩, rfl⟩

structure OtherLine (cs : List Char) : Prop where
  not_body : cs ≠ "--BODY--".toList
  not_states : ¬"States:".toList <+: cs
  not_start : ¬"Start:".toList <+: cs
  not_acceptance : ¬"Acceptance:".toList <+: cs

theorem CountLine.begins {name : String} (h : CountLine name n cs) : name.toList <+: cs := by
  obtain ⟨-, sp, ds, rfl, -, -⟩ := h
  exact List.prefix_append _ _

theorem AcceptanceLine.begins {sets : Nat} {condition : List Char}
    (h : AcceptanceLine sets condition cs) : "Acceptance:".toList <+: cs := by
  obtain ⟨-, sp, ds, rfl, -, -, -⟩ := h
  exact List.prefix_append _ _

/-! ## Lines of the body -/

/-- A label in quotes behind spaces, or nothing, which is an empty label. -/
inductive LabelPart : List Char → List Char → Prop where
  | none : LabelPart [] []
  | quoted {sp label : List Char} : sp ≠ [] → Spaces sp → '"' ∉ label →
      LabelPart label (sp ++ '"' :: (label ++ ['"']))

theorem label?_eq_some_iff {label : List Char} : label? cs = some label ↔ LabelPart label cs := by
  cases cs with
  | nil =>
    constructor
    · intro h
      cases h
      exact .none
    · intro h
      generalize hcs : ([] : List Char) = cs at h
      cases h with
      | none => rfl
      | quoted hne _ _ => simp at hcs
  | cons c cs =>
    simp only [label?, List.isEmpty_cons, Bool.false_eq_true, ↓reduceIte, Option.bind_eq_bind,
      Option.bind_eq_some_iff, spaces?_eq_some_iff, after?_eq_some_iff, Prod.exists,
      upTo?_eq_some_iff]
    constructor
    · rintro ⟨_, ⟨sp, hne, hsp, hcs, -⟩, _, rfl, u, r, ⟨rfl, hu⟩, h⟩
      split at h
      · rename_i hr
        cases h
        rw [List.isEmpty_iff.1 hr] at hcs
        rw [hcs]
        exact .quoted hne hsp hu
      · cases h
    · generalize hcs : c :: cs = cs'
      intro h
      cases h with
      | none => cases hcs
      | @quoted sp label hne hsp hu =>
        refine ⟨_, ⟨sp, hne, hsp, rfl, ?_⟩, _, rfl, label, [], ⟨rfl, hu⟩, rfl⟩
        rintro c ⟨⟩
        rfl

def StateLine (index : Nat) (label cs : List Char) : Prop :=
  index < wordBound ∧ ∃ sp ds r, cs = "State:".toList ++ (sp ++ (ds ++ r)) ∧ Spaces sp ∧
    IsNumeral index ds ∧ LabelPart label r

theorem LabelPart.head {label : List Char} (h : LabelPart label r) :
    ∀ c ∈ r.head?, isDigit c = false := by
  cases h with
  | none => nofun
  | @quoted sp label hne hsp _ =>
    cases sp with
    | nil => exact absurd rfl hne
    | cons d sp =>
      rintro c ⟨⟩
      exact isDigit_of_isSpace (hsp d List.mem_cons_self)

theorem state?_eq_some_iff {index : Nat} {label : List Char} :
    state? cs = some (index, label) ↔ StateLine index label cs := by
  simp only [state?, Option.bind_eq_bind, Option.bind_eq_some_iff, after?_eq_some_iff, Prod.exists,
    number?_skipSpaces, label?_eq_some_iff, StateLine]
  constructor
  · rintro ⟨_, rfl, m, r, ⟨hm, sp, ds, rfl, hsp, hds, -⟩, l, hl, h⟩
    cases h
    exact ⟨hm, sp, ds, r, rfl, hsp, hds, hl⟩
  · rintro ⟨hm, sp, ds, r, rfl, hsp, hds, hl⟩
    exact ⟨_, rfl, index, r, ⟨hm, sp, ds, rfl, hsp, hds, hl.head⟩, label, hl, rfl⟩

/-- Tokens in braces, or nothing, which is no tokens. -/
inductive TokenPart : List Char → List Char → Prop where
  | none : TokenPart [] []
  | braces {sp tokens : List Char} : Spaces sp → '}' ∉ tokens →
      TokenPart tokens (sp ++ '{' :: (tokens ++ ['}']))

theorem tokens?_eq_some_iff {tokens : List Char} :
    tokens? cs = some tokens ↔ TokenPart tokens cs := by
  cases cs with
  | nil =>
    constructor
    · intro h
      cases h
      exact .none
    · intro h
      generalize hcs : ([] : List Char) = cs at h
      cases h with
      | none => rfl
      | braces _ _ => simp at hcs
  | cons c cs =>
    simp only [tokens?, List.isEmpty_cons, Bool.false_eq_true, ↓reduceIte, Option.bind_eq_bind,
      Option.bind_eq_some_iff, after?_eq_some_iff, Prod.exists, upTo?_eq_some_iff]
    constructor
    · rintro ⟨_, hbrace, u, r, ⟨rfl, hu⟩, h⟩
      split at h
      · rename_i hr
        cases h
        rw [List.isEmpty_iff.1 hr] at hbrace
        rw [← List.takeWhile_append_dropWhile (p := isSpace) (l := c :: cs)]
        rw [skipSpaces] at hbrace
        rw [hbrace]
        exact .braces mem_takeWhile hu
      · cases h
    · generalize hcs : c :: cs = cs'
      intro h
      cases h with
      | none => cases hcs
      | @braces sp tokens hsp hu =>
        refine ⟨_, dropWhile_append_of_head hsp ?_, tokens, [], ⟨rfl, hu⟩, rfl⟩
        rintro c ⟨⟩
        rfl

def TransitionLine (guard : List Char) (destination : Nat) (tokens cs : List Char) : Prop :=
  ']' ∉ guard ∧ destination < wordBound ∧ ∃ sp ds r,
    cs = '[' :: (guard ++ ']' :: (sp ++ (ds ++ r))) ∧ sp ≠ [] ∧ Spaces sp ∧
    IsNumeral destination ds ∧ TokenPart tokens r

theorem TokenPart.head {tokens : List Char} (h : TokenPart tokens r) :
    ∀ c ∈ r.head?, isDigit c = false := by
  cases h with
  | none => nofun
  | @braces sp tokens hsp _ =>
    cases sp with
    | nil =>
      rintro c ⟨⟩
      rfl
    | cons d sp =>
      rintro c ⟨⟩
      exact isDigit_of_isSpace (hsp d List.mem_cons_self)

theorem transition?_eq_some_iff {guard tokens : List Char} {destination : Nat} :
    transition? cs = some (guard, destination, tokens) ↔
      TransitionLine guard destination tokens cs := by
  simp only [transition?, Option.bind_eq_bind, Option.bind_eq_some_iff, after?_eq_some_iff,
    Prod.exists, upTo?_eq_some_iff, spaces?_eq_some_iff, number?, numeral?_eq_some_iff,
    tokens?_eq_some_iff, TransitionLine]
  constructor
  · rintro ⟨_, rfl, g, _, ⟨rfl, hg⟩, _, ⟨sp, hne, hsp, rfl, -⟩, m, r, ⟨hm, ds, rfl, hds, -⟩, ts,
      hts, h⟩
    cases h
    exact ⟨hg, hm, sp, ds, r, rfl, hne, hsp, hds, hts⟩
  · rintro ⟨hg, hm, sp, ds, r, rfl, hne, hsp, hds, hts⟩
    exact ⟨_, rfl, guard, _, ⟨rfl, hg⟩, ds ++ r, ⟨sp, hne, hsp, rfl, head_isNumeral hds⟩,
      destination, r, ⟨hm, ds, rfl, hds, hts.head⟩, tokens, hts, rfl⟩

/-! ## What lines say -/

theorem not_begins {a b : List Char} (ha : a <+: cs) (hab : ¬a <+: b) (hba : ¬b <+: a) :
    ¬b <+: cs := by
  intro hb
  rcases List.prefix_or_prefix_of_prefix ha hb with h | h
  · exact hab h
  · exact hba h

theorem count?_eq_none {name : String} (h : ¬name.toList <+: cs) : count? name cs = none := by
  rw [Option.eq_none_iff_forall_ne_some]
  exact fun n hn => h (count?_eq_some_iff.1 hn).begins

/-- The form that goes with what a header line says; a malformed line has none. -/
inductive HeaderForm (cs : List Char) : HeaderLine → Prop where
  | body : cs = "--BODY--".toList → HeaderForm cs .body
  | states {n : Nat} : CountLine "States:" n cs → HeaderForm cs (.states n)
  | start {i : Nat} : CountLine "Start:" i cs → HeaderForm cs (.start i)
  | acceptance : "Acceptance:".toList <+: cs → HeaderForm cs (.acceptance (acceptance? cs))
  | malformed : HeaderForm cs .malformed
  | other : OtherLine cs → HeaderForm cs .other

theorem headerForm (cs : List Char) : HeaderForm cs (headerLine cs) := by
  unfold headerLine
  split
  · rename_i hbody
    exact .body hbody
  rename_i hbody
  split
  · rename_i h
    exact .states (count?_eq_some_iff.1 h)
  · rename_i h
    exact .start (count?_eq_some_iff.1 h)
  split
  · rename_i h
    exact .acceptance (after?_isSome_iff.1 h)
  rename_i hacceptance
  split
  · exact .malformed
  · rename_i h
    rw [Bool.or_eq_true, not_or] at h
    exact .other ⟨hbody, fun hp => h.1 (after?_isSome_iff.2 hp),
      fun hp => h.2 (after?_isSome_iff.2 hp), fun hp => hacceptance (after?_isSome_iff.2 hp)⟩

theorem ne_body {a : List Char} (h : a <+: cs) (ha : ¬a <+: "--BODY--".toList) :
    cs ≠ "--BODY--".toList := by
  rintro rfl
  exact ha h

theorem headerLine_states (h : CountLine "States:" n cs) : headerLine cs = .states n := by
  rw [headerLine, if_neg (ne_body h.begins (by decide)), count?_eq_some_iff.2 h]

theorem headerLine_start {i : Nat} (h : CountLine "Start:" i cs) : headerLine cs = .start i := by
  rw [headerLine, if_neg (ne_body h.begins (by decide)),
    count?_eq_none (not_begins h.begins (by decide) (by decide)), count?_eq_some_iff.2 h]

theorem headerLine_acceptance (h : "Acceptance:".toList <+: cs) :
    headerLine cs = .acceptance (acceptance? cs) := by
  rw [headerLine, if_neg (ne_body h (by decide)),
    count?_eq_none (not_begins h (by decide) (by decide)),
    count?_eq_none (not_begins h (by decide) (by decide))]
  exact if_pos (after?_isSome_iff.2 h)

theorem headerLine_other (h : OtherLine cs) : headerLine cs = .other := by
  rw [headerLine, if_neg h.not_body, count?_eq_none h.not_states, count?_eq_none h.not_start]
  simp only [after?_isSome_iff, h.not_acceptance, ↓reduceIte, Bool.or_eq_true, h.not_states,
    h.not_start, or_self]

inductive BodyForm (cs : List Char) : BodyLine → Prop where
  | blank : cs = [] → BodyForm cs .blank
  | ending : cs = "--END--".toList → BodyForm cs .ending
  | state {i : Nat} {label : List Char} : StateLine i label cs → BodyForm cs (.state i label)
  | transition {guard tokens : List Char} {destination : Nat} :
      TransitionLine guard destination tokens cs →
      BodyForm cs (.transition guard destination tokens)
  | malformed : BodyForm cs .malformed

theorem bodyForm (cs : List Char) : BodyForm cs (bodyLine cs) := by
  unfold bodyLine
  split
  · rename_i h
    exact .blank (List.isEmpty_iff.1 h)
  split
  · rename_i h
    exact .ending h
  split
  · rename_i h
    exact .state (state?_eq_some_iff.1 h)
  · rename_i h
    exact .transition (transition?_eq_some_iff.1 h)
  · exact .malformed

theorem StateLine.begins {i : Nat} {label : List Char} (h : StateLine i label cs) :
    "State:".toList <+: cs := by
  obtain ⟨-, sp, ds, r, rfl, -, -, -⟩ := h
  exact List.prefix_append _ _

theorem TransitionLine.begins {guard tokens : List Char} {destination : Nat}
    (h : TransitionLine guard destination tokens cs) : ['['] <+: cs := by
  obtain ⟨-, -, sp, ds, r, rfl, -, -, -, -⟩ := h
  exact ⟨_, rfl⟩

theorem bodyLine_of_begins {a : List Char} (h : a <+: cs) (hne : a ≠ [])
    (ha : ¬a <+: "--END--".toList) :
    bodyLine cs = match state? cs, transition? cs with
      | some (i, label), _ => .state i label
      | none, some (g, d, ts) => .transition g d ts
      | none, none => .malformed := by
  have hempty : cs ≠ [] := by
    rintro rfl
    exact hne (List.prefix_nil.1 h)
  have hending : cs ≠ "--END--".toList := by
    rintro rfl
    exact ha h
  exact (if_neg fun hnil => hempty (List.isEmpty_iff.1 hnil)).trans (if_neg hending)

theorem bodyLine_state {i : Nat} {label : List Char} (h : StateLine i label cs) :
    bodyLine cs = .state i label := by
  rw [bodyLine_of_begins h.begins (by decide) (by decide), state?_eq_some_iff.2 h]

theorem TransitionLine.not_state {guard tokens label : List Char} {destination i : Nat}
    (h : TransitionLine guard destination tokens cs) : ¬StateLine i label cs :=
  fun hs => not_begins h.begins (by decide) (by decide) hs.begins

theorem bodyLine_transition {guard tokens : List Char} {destination : Nat}
    (h : TransitionLine guard destination tokens cs) :
    bodyLine cs = .transition guard destination tokens := by
  have hstate : state? cs = none := by
    rw [Option.eq_none_iff_forall_ne_some]
    exact fun (i, label) hs => h.not_state (state?_eq_some_iff.1 hs)
  rw [bodyLine_of_begins h.begins (by decide) (by decide), hstate, transition?_eq_some_iff.2 h]

end RabinReward.Hanoi
