import RabinReward.Guard.Token

/-!
# The symbols of a guard's text

`Lexes cs ss` says that `ss` are the symbols of the text `cs`: white space is dropped, digits stand
in maximal runs, and no other character occurs. The scan of a text finds them: `symbols_of_lexes`,
and `lexes_of_tokens` for a scan that meets no foreign character. Positions only matter where a run
of digits is put together, since the scan joins a digit to the run that starts at the next byte.
Facts about all texts go by `text_induction`, which takes a maximal run off at once as the scan
does.
-/

namespace RabinReward.Guard

open Text

def signs : List (Char × Symbol) :=
  [('t', .literal true), ('f', .literal false), ('!', .bang), ('&', .amp), ('|', .bar),
    ('(', .opening), (')', .closing)]

/-- The symbols of a text that holds nothing but symbols and white space. -/
inductive Lexes : List Char → List Symbol → Prop where
  | nil : Lexes [] []
  | blank {c : Char} {cs : List Char} {ss : List Symbol} :
      isBlank c = true → Lexes cs ss → Lexes (c :: cs) ss
  | sign {c : Char} {s : Symbol} {cs : List Char} {ss : List Symbol} :
      (c, s) ∈ signs → Lexes cs ss → Lexes (c :: cs) (s :: ss)
  | run {ds cs : List Char} {ss : List Symbol} :
      ds ≠ [] → (∀ d ∈ ds, isDigit d = true) → (∀ c ∈ cs.head?, isDigit c = false) →
      Lexes cs ss → Lexes (ds ++ cs) (.digits ds :: ss)

/-! ## Characters -/

theorem utf8Size_of_isDigit {c : Char} (h : isDigit c = true) : c.utf8Size = 1 := by
  simp only [isDigit, Bool.and_eq_true, decide_eq_true_eq, Char.le_def, UInt32.le_iff_toNat_le] at h
  have h9 : ('9' : Char).val.toNat = 57 := rfl
  rw [Char.utf8Size_eq_one_iff, UInt32.le_iff_toNat_le]
  show c.val.toNat ≤ 127
  omega

theorem isBlank_of_isDigit {c : Char} (h : isDigit c = true) : isBlank c = false := by
  simp only [isDigit, Bool.and_eq_true, decide_eq_true_eq, Char.le_def, UInt32.le_iff_toNat_le] at h
  have h0 : ('0' : Char).val.toNat = 48 := rfl
  have h9 : ('9' : Char).val.toNat = 57 := rfl
  have hc : c.toNat = c.val.toNat := rfl
  simp only [isBlank, Bool.or_eq_false_iff, Bool.and_eq_false_iff, decide_eq_false_iff_not,
    beq_eq_false_iff_ne]
  omega

theorem isDigit_of_isBlank {c : Char} (h : isBlank c = true) : isDigit c = false := by
  cases hdigit : isDigit c with
  | false => rfl
  | true =>
    rw [isBlank_of_isDigit hdigit] at h
    cases h

theorem ofChar_of_mem_signs {c : Char} {s : Symbol} (h : (c, s) ∈ signs) :
    isBlank c = false ∧ isDigit c = false ∧ Symbol.ofChar c = s := by
  simp only [signs, List.mem_cons, Prod.mk.injEq, List.not_mem_nil, or_false] at h
  rcases h with ⟨rfl, rfl⟩ | ⟨rfl, rfl⟩ | ⟨rfl, rfl⟩ | ⟨rfl, rfl⟩ | ⟨rfl, rfl⟩ | ⟨rfl, rfl⟩ |
    ⟨rfl, rfl⟩ <;> decide

theorem ofChar_of_not_mem_signs {c : Char} (h : c ∉ signs.map Prod.fst) :
    Symbol.ofChar c = .other c := by
  simp only [signs, List.map_cons, List.map_nil, List.mem_cons, List.not_mem_nil, or_false,
    not_or] at h
  obtain ⟨h1, h2, h3, h4, h5, h6, h7⟩ := h
  simp only [Symbol.ofChar, h1, h2, h3, h4, h5, h6, h7, ↓reduceIte]

theorem mem_signs_of_ofChar {c : Char} (h : ∀ x, Symbol.ofChar c ≠ .other x) :
    (c, Symbol.ofChar c) ∈ signs := by
  by_cases hc : c ∈ signs.map Prod.fst
  · obtain ⟨⟨c', s⟩, hs, rfl⟩ := List.mem_map.1 hc
    rw [(ofChar_of_mem_signs hs).2.2]
    exact hs
  · exact absurd (ofChar_of_not_mem_signs hc) (h c)

theorem ofChar_ne_digits (c : Char) (ds : List Char) : Symbol.ofChar c ≠ .digits ds := by
  unfold Symbol.ofChar
  repeat' split
  all_goals simp

/-! ## Scanning one character -/

theorem tokens_blank {c : Char} (h : isBlank c = true) (p : Nat) (cs : List Char) :
    tokens p (c :: cs) = tokens (p + c.utf8Size) cs := by
  simp only [tokens, h, ↓reduceIte]

theorem tokens_digit {c : Char} (h : isDigit c = true) (p : Nat) (cs : List Char) :
    tokens p (c :: cs) = consDigit c p (tokens (p + 1) cs) := by
  simp only [tokens, isBlank_of_isDigit h, h, utf8Size_of_isDigit h, ↓reduceIte, Bool.false_eq_true]

theorem tokens_other {c : Char} (hb : isBlank c = false) (hd : isDigit c = false) (p : Nat)
    (cs : List Char) :
    tokens p (c :: cs) = ⟨.ofChar c, p⟩ :: tokens (p + c.utf8Size) cs := by
  simp only [tokens, hb, hd, Bool.false_eq_true, ↓reduceIte]

/-! ## Positions -/

theorem position_of_mem_consDigit {c : Char} {p : Nat} {ts : List Token} {t : Token}
    (h : t ∈ consDigit c p ts) : t.position = p ∨ t ∈ ts := by
  unfold consDigit at h
  split at h
  · split at h
    · rcases List.mem_cons.1 h with rfl | h
      · exact .inl rfl
      · exact .inr (List.mem_cons_of_mem _ h)
    · rcases List.mem_cons.1 h with rfl | h
      · exact .inl rfl
      · exact .inr h
  · rcases List.mem_cons.1 h with rfl | h
    · exact .inl rfl
    · exact .inr h

theorem le_position {cs : List Char} {p : Nat} {t : Token} (h : t ∈ tokens p cs) :
    p ≤ t.position := by
  induction cs generalizing p with
  | nil => cases h
  | cons c cs ih =>
    have hrest : t ∈ tokens (p + c.utf8Size) cs → p ≤ t.position := fun h => by
      have := ih h
      omega
    unfold tokens at h
    split at h
    · exact hrest h
    · split at h
      · rcases position_of_mem_consDigit h with h | h
        · exact Nat.le_of_eq h.symm
        · exact hrest h
      · rcases List.mem_cons.1 h with rfl | h
        · exact Nat.le_refl p
        · exact hrest h

/-- A text that does not begin with a digit has no run of digits at its very beginning. -/
theorem position_ne_of_head {cs ds : List Char} {p q : Nat} {ts : List Token}
    (hc : ∀ c ∈ cs.head?, isDigit c = false) (h : tokens p cs = ⟨.digits ds, q⟩ :: ts) : q ≠ p := by
  cases cs with
  | nil => cases h
  | cons c cs =>
    have hd : isDigit c = false := hc c rfl
    by_cases hb : isBlank c = true
    · rw [tokens_blank hb] at h
      have hq : (⟨.digits ds, q⟩ : Token) ∈ tokens (p + c.utf8Size) cs := h ▸ List.mem_cons_self
      have : p + c.utf8Size ≤ q := le_position hq
      have := c.utf8Size_pos
      omega
    · rw [tokens_other (Bool.not_eq_true _ ▸ hb) hd, List.cons.injEq, Token.mk.injEq] at h
      exact absurd h.1.1 (ofChar_ne_digits c ds)

theorem consDigit_apart {c : Char} {p : Nat} {ts : List Token}
    (h : ∀ ds q us, ts = ⟨.digits ds, q⟩ :: us → q ≠ p + 1) :
    consDigit c p ts = ⟨.digits [c], p⟩ :: ts := by
  unfold consDigit
  split
  · rename_i ds q us
    rw [if_neg (h ds q us rfl)]
  · rfl

/-! ## Scanning a text -/

theorem tokens_run {ds cs : List Char} (hne : ds ≠ []) (hds : ∀ d ∈ ds, isDigit d = true)
    (hcs : ∀ c ∈ cs.head?, isDigit c = false) (p : Nat) :
    tokens p (ds ++ cs) = ⟨.digits ds, p⟩ :: tokens (p + ds.length) cs := by
  induction ds generalizing p with
  | nil => exact absurd rfl hne
  | cons d ds ih =>
    rw [List.cons_append, tokens_digit (hds d List.mem_cons_self)]
    by_cases hnil : ds = []
    · subst hnil
      exact consDigit_apart fun _ _ _ h => position_ne_of_head hcs h
    · rw [ih hnil (fun x hx => hds x (List.mem_cons_of_mem _ hx)) (p + 1)]
      simp only [consDigit, ↓reduceIte, List.length_cons]
      rw [Nat.add_right_comm, Nat.add_assoc]

theorem symbols_of_lexes {cs : List Char} {ss : List Symbol} (h : Lexes cs ss) (p : Nat) :
    (tokens p cs).map Token.symbol = ss := by
  induction h generalizing p with
  | nil => rfl
  | blank hb _ ih => rw [tokens_blank hb, ih]
  | sign hs _ ih =>
    obtain ⟨hb, hd, hc⟩ := ofChar_of_mem_signs hs
    rw [tokens_other hb hd, List.map_cons, hc, ih]
  | run hne hds hcs _ ih => rw [tokens_run hne hds hcs, List.map_cons, ih]

theorem exists_run {c : Char} (h : isDigit c = true) (cs : List Char) :
    ∃ ds rest, c :: cs = ds ++ rest ∧ ds ≠ [] ∧ (∀ d ∈ ds, isDigit d = true) ∧
      ∀ d ∈ rest.head?, isDigit d = false := by
  refine ⟨(c :: cs).takeWhile isDigit, (c :: cs).dropWhile isDigit,
    List.takeWhile_append_dropWhile.symm, ?_, List.all_eq_true.1 List.all_takeWhile, ?_⟩
  · simp [h]
  · intro d hd
    have := List.head?_dropWhile_not isDigit (c :: cs)
    rw [hd] at this
    simpa using this

/-- A text is nothing, or begins with white space, a maximal run of digits or another character. -/
@[elab_as_elim]
theorem text_induction {motive : List Char → Prop} (nil : motive [])
    (blank : ∀ {c cs}, isBlank c = true → motive cs → motive (c :: cs))
    (other : ∀ {c cs}, isBlank c = false → isDigit c = false → motive cs → motive (c :: cs))
    (run : ∀ {ds cs}, ds ≠ [] → (∀ d ∈ ds, isDigit d = true) →
      (∀ c ∈ cs.head?, isDigit c = false) → motive cs → motive (ds ++ cs))
    (cs : List Char) : motive cs := by
  -- a run of digits is taken off at once, so the induction is on the length
  induction hn : cs.length using Nat.strongRecOn generalizing cs with
  | ind n ih =>
    cases cs with
    | nil => exact nil
    | cons c cs =>
      have hlt : cs.length < n := hn ▸ Nat.lt_succ_self _
      by_cases hb : isBlank c = true
      · exact blank hb (ih _ hlt cs rfl)
      by_cases hd : isDigit c = true
      · obtain ⟨ds, rest, hsplit, hne, hds, hrest⟩ := exists_run hd cs
        rw [hsplit] at hn ⊢
        have hlt : rest.length < n := by
          have := List.length_pos_iff.2 hne
          rw [← hn, List.length_append]
          omega
        exact run hne hds hrest (ih _ hlt rest rfl)
      · rw [Bool.not_eq_true] at hb hd
        exact other hb hd (ih _ hlt cs rfl)

/-- Without a foreign character the scan finds the symbols of the text. -/
theorem lexes_of_tokens {cs : List Char} {p : Nat}
    (h : ∀ t ∈ tokens p cs, ∀ c, t.symbol ≠ .other c) :
    Lexes cs ((tokens p cs).map Token.symbol) := by
  induction cs using text_induction generalizing p with
  | nil => exact .nil
  | blank hb ih =>
    rw [tokens_blank hb] at h ⊢
    exact .blank hb (ih h)
  | @other c cs hb hd ih =>
    rw [tokens_other hb hd] at h ⊢
    have hs := mem_signs_of_ofChar fun x => h ⟨.ofChar c, p⟩ List.mem_cons_self x
    exact .sign hs (ih fun t ht => h t (List.mem_cons_of_mem _ ht))
  | run hne hds hcs ih =>
    rw [tokens_run hne hds hcs] at h ⊢
    exact .run hne hds hcs (ih fun t ht => h t (List.mem_cons_of_mem _ ht))

end RabinReward.Guard
