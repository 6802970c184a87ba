import RabinReward.Proofs.Guard.Grammar
import RabinReward.Proofs.Text.Numeral

/-!
# Beginnings of guards

A text is `Viable` when some text that begins with it is read as a guard. The reader finds that out
while it reads: a text is viable exactly when no token of it has been refused (`viable_iff`). What
is left can then be completed (`exists_completion`): an operand, if one must follow, and the
parentheses that are still open. In the other direction a refused token stays refused however the
text goes on. Only a run of digits at the very end can grow, and its number with it.
-/

namespace RabinReward.Guard

open Text

variable {s s' : Reader} {t : Token} {ts us : List Token} {e : ParseError} {u v cs : List Char}

/-! ## Texts side by side -/

def offset : List Char → Nat
  | [] => 0
  | c :: cs => c.utf8Size + offset cs

theorem offset_append (u v : List Char) : offset (u ++ v) = offset u + offset v := by
  induction u with
  | nil => exact (Nat.zero_add _).symm
  | cons c u ih => rw [List.cons_append, offset, offset, ih, Nat.add_assoc]

theorem offset_digits {ds : List Char} (h : ∀ d ∈ ds, isDigit d = true) :
    offset ds = ds.length := by
  induction ds with
  | nil => rfl
  | cons d ds ih =>
    rw [List.forall_mem_cons] at h
    rw [offset, utf8Size_of_isDigit h.1, ih h.2, List.length_cons, Nat.add_comm]

/-- No run of digits goes on from one text into the other. -/
def Apart (u v : List Char) : Prop :=
  ∀ a ∈ u.getLast?, ∀ b ∈ v.head?, isDigit a = true → isDigit b = false

theorem apart_of_head (h : ∀ b ∈ v.head?, isDigit b = false) : Apart u v := fun _ _ b hb _ => h b hb

theorem apart_of_last (h : ∀ a ∈ u.getLast?, isDigit a = false) : Apart u v := by
  intro a ha b _ hdigit
  rw [h a ha] at hdigit
  cases hdigit

theorem apart_concat {c : Char} (hc : isDigit c = false) : Apart (u ++ [c]) v := by
  refine apart_of_last ?_
  rw [List.getLast?_concat]
  rintro a ⟨⟩
  exact hc

theorem Apart.tail {c : Char} (h : Apart (c :: u) v) : Apart u v := by
  intro a ha
  refine h a ?_
  rw [List.getLast?_cons, Option.mem_def, Option.mem_def.1 ha]
  rfl

theorem tokens_append (h : Apart u v) (p : Nat) :
    tokens p (u ++ v) = tokens p u ++ tokens (p + offset u) v := by
  induction u using text_induction generalizing p with
  | nil => rfl
  | @blank c u hb ih =>
    rw [List.cons_append, tokens_blank hb, tokens_blank hb, ih h.tail, offset, Nat.add_assoc]
  | @other c u hb hd ih =>
    rw [List.cons_append, tokens_other hb hd, tokens_other hb hd, ih h.tail, offset, Nat.add_assoc,
      List.cons_append]
  | @run ds u hne hds hu ih =>
    have huv : ∀ c ∈ (u ++ v).head?, isDigit c = false := by
      cases u with
      | cons c u => exact hu
      | nil =>
        intro b hb
        rw [List.append_nil] at h
        exact h _ (List.getLast?_eq_some_getLast hne) b hb (hds _ (List.getLast_mem hne))
    have hapart : Apart u v := by
      intro a ha
      refine h a ?_
      rw [List.getLast?_append, Option.mem_def.1 ha]
      rfl
    rw [List.append_assoc, tokens_run hne hds huv, tokens_run hne hds hu, ih hapart, offset_append,
      offset_digits hds, Nat.add_assoc, List.cons_append]

/-- Where a token has been found. -/
inductive Found (cs : List Char) (ts : List Token) : Token → Prop where
  | other {u v : List Char} {c : Char} : cs = u ++ c :: v → tokens 0 u = ts → isBlank c = false →
      isDigit c = false → Found cs ts ⟨.ofChar c, offset u⟩
  | run {u ds v : List Char} : cs = u ++ (ds ++ v) → tokens 0 u = ts → ds ≠ [] →
      (∀ d ∈ ds, isDigit d = true) → (∀ a ∈ u.getLast?, isDigit a = false) →
      (∀ c ∈ v.head?, isDigit c = false) → Found cs ts ⟨.digits ds, offset u⟩

theorem tokens_append_other {w : List Char} {c : Char} (hb : isBlank c = false)
    (hd : isDigit c = false) :
    tokens 0 (w ++ [c]) = tokens 0 w ++ [⟨.ofChar c, offset w⟩] := by
  have hhead : ∀ b ∈ [c].head?, isDigit b = false := by
    rintro b ⟨⟩
    exact hd
  rw [tokens_append (apart_of_head hhead), Nat.zero_add, tokens_other hb hd]
  rfl

theorem tokens_append_blank {w : List Char} {c : Char} (hb : isBlank c = true) :
    tokens 0 (w ++ [c]) = tokens 0 w := by
  have hhead : ∀ b ∈ [c].head?, isDigit b = false := by
    rintro b ⟨⟩
    exact isDigit_of_isBlank hb
  rw [tokens_append (apart_of_head hhead), Nat.zero_add, tokens_blank hb]
  exact List.append_nil _

theorem tokens_append_run {w ds : List Char} (hne : ds ≠ []) (hds : ∀ d ∈ ds, isDigit d = true)
    (hw : ∀ a ∈ w.getLast?, isDigit a = false) :
    tokens 0 (w ++ ds) = tokens 0 w ++ [⟨.digits ds, offset w⟩] := by
  rw [tokens_append (apart_of_last hw), Nat.zero_add]
  have hend : ∀ c ∈ ([] : List Char).head?, isDigit c = false := nofun
  have hrun : tokens (offset w) (ds ++ []) = [⟨.digits ds, offset w⟩] :=
    tokens_run hne hds hend (offset w)
  rw [← hrun, List.append_nil]

theorem found_behind {w : List Char} (hw : Apart w cs) (h : tokens (offset w) cs = ts ++ t :: us) :
    Found (w ++ cs) (tokens 0 w ++ ts) t := by
  induction cs using text_induction generalizing w ts with
  | nil => cases ts <;> cases h
  | @blank c cs hb ih =>
    rw [tokens_blank hb] at h
    have := ih (w := w ++ [c]) (apart_concat (isDigit_of_isBlank hb)) (by rwa [offset_append])
    rwa [tokens_append_blank hb, List.append_assoc, List.singleton_append] at this
  | @other c cs hb hd ih =>
    rw [tokens_other hb hd] at h
    cases ts with
    | nil =>
      obtain ⟨rfl, -⟩ := List.cons.inj h
      exact .other rfl (List.append_nil _).symm hb hd
    | cons t₀ ts =>
      obtain ⟨rfl, h⟩ := List.cons.inj h
      have := ih (w := w ++ [c]) (apart_concat hd) (by rwa [offset_append])
      rwa [tokens_append_other hb hd, List.append_assoc, List.append_assoc] at this
  | @run ds cs hne hds hcs ih =>
    have hlast : ∀ a ∈ w.getLast?, isDigit a = false := by
      intro a ha
      cases hdigit : isDigit a with
      | false => rfl
      | true =>
        obtain ⟨d, ds, rfl⟩ := List.exists_cons_of_ne_nil hne
        exact (hds d List.mem_cons_self).symm.trans (hw a ha d rfl hdigit)
    rw [tokens_run hne hds hcs] at h
    cases ts with
    | nil =>
      obtain ⟨rfl, -⟩ := List.cons.inj h
      exact .run rfl (List.append_nil _).symm hne hds hlast hcs
    | cons t₀ ts =>
      obtain ⟨rfl, h⟩ := List.cons.inj h
      have := ih (w := w ++ ds) (apart_of_head hcs) (by rwa [offset_append, offset_digits hds])
      rwa [tokens_append_run hne hds hlast, List.append_assoc, List.append_assoc] at this

theorem found_of_tokens (h : tokens 0 cs = ts ++ t :: us) : Found cs ts t :=
  found_behind (w := []) (fun _ ha => nomatch ha) h

/-! ## Reading on -/

def Reader.after (s : Reader) : List Token → Except ParseError Reader
  | [] => .ok s
  | t :: ts =>
    match s.step t with
    | .ok s => s.after ts
    | .error e => .error e

theorem after_cons (h : s.step t = .ok s') (ts : List Token) : s.after (t :: ts) = s'.after ts := by
  simp only [Reader.after, h]

theorem after_cons_error (h : s.step t = .error e) (ts : List Token) :
    s.after (t :: ts) = .error e := by
  simp only [Reader.after, h]

theorem exists_step_of_after (h : s.after (t :: ts) = .ok s') :
    ∃ r, s.step t = .ok r ∧ r.after ts = .ok s' := by
  cases hstep : s.step t with
  | ok r => exact ⟨r, rfl, (after_cons hstep ts).symm.trans h⟩
  | error e =>
    rw [after_cons_error hstep] at h
    cases h

theorem after_append (h : s.after ts = .ok s') (us : List Token) :
    s.after (ts ++ us) = s'.after us := by
  induction ts generalizing s with
  | nil =>
    cases h
    rfl
  | cons t ts ih =>
    obtain ⟨r, hr, h⟩ := exists_step_of_after h
    rw [List.cons_append, after_cons hr, ih h]

theorem run_append (h : s.after ts = .ok s') (us : List Token) : s.run (ts ++ us) = s'.run us := by
  induction ts generalizing s with
  | nil =>
    cases h
    rfl
  | cons t ts ih =>
    obtain ⟨r, hr, h⟩ := exists_step_of_after h
    rw [List.cons_append, run_cons hr, ih h]

/-- A text is refused at some token, all tokens in front of which have been taken. -/
theorem exists_refused (h : s.after ts = .error e) :
    ∃ us t vs s', ts = us ++ t :: vs ∧ s.after us = .ok s' ∧ s'.step t = .error e := by
  induction ts generalizing s with
  | nil => cases h
  | cons t ts ih =>
    cases hstep : s.step t with
    | ok r =>
      rw [after_cons hstep] at h
      obtain ⟨us, u, vs, s', rfl, hus, hu⟩ := ih h
      exact ⟨t :: us, u, vs, s', rfl, (after_cons hstep us).trans hus, hu⟩
    | error e' =>
      rw [after_cons_error hstep] at h
      cases h
      exact ⟨[], t, ts, s, rfl, rfl, hstep⟩

theorem run_refused (h : s.step t = .error e) (ts : List Token) : s.run (t :: ts) = .error e := by
  simp only [Reader.run, h]

theorem le_numeralValue_append (ds ds' : List Char) :
    numeralValue ds ≤ numeralValue (ds ++ ds') := by
  unfold numeralValue
  rw [List.foldl_append]
  generalize ds.foldl _ 0 = n
  induction ds' generalizing n with
  | nil => exact Nat.le_refl n
  | cons d ds' ih =>
    rw [List.foldl_cons]
    exact Nat.le_trans (by omega) (ih _)

theorem exists_refused_append {ds : List Char} {p : Nat} (h : s.step ⟨.digits ds, p⟩ = .error e)
    (ds' : List Char) : ∃ e', s.step ⟨.digits (ds ++ ds'), p⟩ = .error e' := by
  cases s with
  | operand ctx last =>
    simp only [Reader.step] at h ⊢
    split at h
    · cases h
    · rename_i hlarge
      have := le_numeralValue_append ds ds'
      exact ⟨_, if_neg (by omega)⟩
  | operator ctx g => exact ⟨_, rfl⟩

/-! ## Viable texts -/

/-- Some text that begins with `cs` is read as a guard. -/
def Viable (cs : List Char) : Prop := ∃ rest g, parseChars (cs ++ rest) = .ok g

theorem Viable.of_append (h : Viable (u ++ v)) : Viable u := by
  obtain ⟨rest, g, hg⟩ := h
  exact ⟨v ++ rest, g, by rwa [← List.append_assoc]⟩

/-- What is missing behind a text that has led to a state. -/
def Reader.completion : Reader → List Char
  | .operand ctx _ => 't' :: List.replicate ctx.outer.length ')'
  | .operator ctx _ => List.replicate ctx.outer.length ')'

theorem exists_closed (l : Level) (outer : List (Nat × Level)) (g : Guard) (p : Nat) :
    ∃ g', Reader.run (.operator ⟨l, outer⟩ g) (tokens p (List.replicate outer.length ')')) =
      .ok g' := by
  induction outer generalizing l g p with
  | nil => exact ⟨l.disjoin g, rfl⟩
  | cons x outer ih =>
    obtain ⟨g', hg'⟩ := ih x.2 (l.disjoin g) (p + 1)
    refine ⟨g', ?_⟩
    rw [List.length_cons, List.replicate_succ, tokens_other (by decide) (by decide), run_cons rfl]
    exact hg'

/-- The completion of a state makes a guard of what has been read. -/
theorem exists_completion (s : Reader) (p : Nat) : ∃ g, s.run (tokens p s.completion) = .ok g := by
  cases s with
  | operator ctx g => exact exists_closed ctx.level ctx.outer g p
  | operand ctx last =>
    obtain ⟨g, hg⟩ := exists_closed ctx.level ctx.outer (.literal true) (p + 1)
    refine ⟨g, ?_⟩
    rw [Reader.completion, tokens_other (by decide) (by decide), run_cons rfl]
    exact hg

theorem head_completion (s : Reader) : ∀ c ∈ s.completion.head?, isDigit c = false := by
  cases s with
  | operand ctx last =>
    rintro c ⟨⟩
    decide
  | operator ctx g =>
    intro c hc
    cases houter : ctx.outer.length with
    | zero =>
      rw [Reader.completion, houter] at hc
      cases hc
    | succ n =>
      rw [Reader.completion, houter] at hc
      cases hc
      decide

theorem viable_of_after (h : Reader.start.after (tokens 0 cs) = .ok s) : Viable cs := by
  obtain ⟨g, hg⟩ := exists_completion s (0 + offset cs)
  refine ⟨s.completion, g, ?_⟩
  rw [parseChars, tokens_append (apart_of_head (head_completion s)), run_append h, hg]

theorem not_viable_of_after (h : Reader.start.after (tokens 0 cs) = .error e) : ¬Viable cs := by
  rintro ⟨rest, g, hg⟩
  obtain ⟨ts, t, us, s, hsplit, hts, ht⟩ := exists_refused h
  have hrun : ∃ t' us', tokens 0 (cs ++ rest) = ts ++ t' :: us' ∧ ∃ e', s.step t' = .error e' := by
    cases found_of_tokens hsplit with
    | @other u v c hcs hu hb hd =>
      have hhead : ∀ b ∈ (c :: (v ++ rest)).head?, isDigit b = false := by
        rintro b ⟨⟩
        exact hd
      rw [hcs, List.append_assoc, List.cons_append, tokens_append (apart_of_head hhead), hu,
        tokens_other hb hd, Nat.zero_add]
      exact ⟨_, _, rfl, e, ht⟩
    | @run u ds v hcs hu hne hds hlast _ =>
      obtain ⟨ds', v', hrest, hds', hv'⟩ : ∃ ds' v', v ++ rest = ds' ++ v' ∧
          (∀ d ∈ ds', isDigit d = true) ∧ ∀ c ∈ v'.head?, isDigit c = false :=
        ⟨_, _, List.takeWhile_append_dropWhile.symm, mem_takeWhile, head_dropWhile isDigit _⟩
      have hrun : ∀ d ∈ ds ++ ds', isDigit d = true := List.forall_mem_append.2 ⟨hds, hds'⟩
      rw [hcs, List.append_assoc, List.append_assoc, hrest, ← List.append_assoc ds,
        tokens_append (apart_of_last hlast), hu, tokens_run (by simp [hne]) hrun hv', Nat.zero_add]
      exact ⟨_, _, rfl, exists_refused_append ht ds'⟩
  obtain ⟨t', us', htokens, e', ht'⟩ := hrun
  rw [parseChars, htokens, run_append hts, run_refused ht'] at hg
  cases hg

/-- A text is viable when the reader takes all its tokens. -/
theorem viable_iff : Viable cs ↔ ∃ s, Reader.start.after (tokens 0 cs) = .ok s := by
  constructor
  · intro h
    cases hafter : Reader.start.after (tokens 0 cs) with
    | ok s => exact ⟨s, rfl⟩
    | error e => exact absurd h (not_viable_of_after hafter)
  · rintro ⟨s, hs⟩
    exact viable_of_after hs

end RabinReward.Guard
