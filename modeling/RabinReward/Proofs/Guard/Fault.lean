import RabinReward.Proofs.Guard.Viable
import RabinReward.Proofs.Guard.Yard
import RabinReward.Proofs.Text.Layout
import RabinReward.Proofs.Text.Nesting

/-!
# What an error points at

A rejected text either becomes impossible at some character, no guard beginning with what is read up
to there, or it ends too early. An error names the first such character (`Faults`), or what is
missing at the end (`Unfinished`). Both are said of the text alone: whether an operand must follow
shows in the last character that is not blank (`AwaitsOperand`), and which parenthesis is open in
how those behind it are nested. `Reader.Shows` ties a state of the reader to the text it has read;
each piece of the text keeps it (`Reader.Shows.after`), so whatever a state reports is so in the
text.
-/

namespace RabinReward.Guard

open Text

variable {s s' : Reader} {e : ParseError} {u v cs : List Char} {c : Char}

/-! ## Where an operand must follow -/

def openers : List Char := ['!', '&', '|', '(']

theorem of_mem_openers (h : c ∈ openers) : isBlank c = false ∧ isDigit c = false := by
  simp only [openers, List.mem_cons, List.not_mem_nil, or_false] at h
  rcases h with rfl | rfl | rfl | rfl <;> decide

/-- An operand must follow: the last token, if there is one, is an operator or opens a group. -/
def AwaitsOperand (cs : List Char) : Prop :=
  ∀ c ∈ (cs.filter (!isBlank ·)).getLast?, c ∈ openers

theorem awaitsOperand_append_blank (hv : Blank v) : AwaitsOperand (u ++ v) ↔ AwaitsOperand u := by
  have hnone : v.filter (!isBlank ·) = [] := List.filter_eq_nil_iff.2 fun c hc => by simp [hv c hc]
  rw [AwaitsOperand, AwaitsOperand, List.filter_append, hnone, List.append_nil]

theorem awaitsOperand_concat (hc : isBlank c = false) :
    AwaitsOperand (u ++ [c]) ↔ c ∈ openers := by
  have hsome : [c].filter (!isBlank ·) = [c] := by simp [hc]
  rw [AwaitsOperand, List.filter_append, hsome, List.getLast?_concat]
  simp

/-! ## What is open -/

/-- The groups that are open behind a text, the innermost first. -/
inductive Opened : List Char → List (Nat × Level) → Prop where
  | none {v : List Char} : Nested v → Opened v []
  | group {u v : List Char} {l : Level} {outer : List (Nat × Level)} : Opened u outer → Nested v →
      Opened (u ++ '(' :: v) ((offset u, l) :: outer)

theorem Opened.append {outer : List (Nat × Level)} (h : Opened u outer) (hv : Nested v) :
    Opened (u ++ v) outer := by
  cases h with
  | none hu => exact .none (hu.append hv)
  | group hu hw =>
    rw [List.append_assoc, List.cons_append]
    exact .group hu (hw.append hv)

theorem nested_digits {ds : List Char} (hds : ∀ d ∈ ds, isDigit d = true) : Nested ds := by
  refine .of_flat (fun h => ?_) (fun h => ?_)
  · exact absurd (hds _ h) (by decide)
  · exact absurd (hds _ h) (by decide)

theorem nested_blank {bs : List Char} (hbs : Blank bs) : Nested bs := by
  refine .of_flat (fun h => ?_) (fun h => ?_)
  · exact absurd (hbs _ h) (by decide)
  · exact absurd (hbs _ h) (by decide)

/-! ## What a state knows of the text -/

def Reader.groups : Reader → List (Nat × Level)
  | .operand ctx _ | .operator ctx _ => ctx.outer

/-- How a text ends that has led to a state. -/
inductive Reader.Ending (cs : List Char) : Reader → Prop where
  | nothing {ctx : Context} : Blank cs → Ending cs (.operand ctx none)
  | opener {u bs : List Char} {c : Char} {ctx : Context} : cs = u ++ c :: bs → c ∈ openers →
      Blank bs → Ending cs (.operand ctx (some (offset u)))
  | operand {ctx : Context} {g : Guard} : ¬AwaitsOperand cs → Ending cs (.operator ctx g)

/-- What a state knows of the text that has led to it. -/
structure Reader.Shows (cs : List Char) (s : Reader) : Prop where
  opened : Opened cs s.groups
  ending : s.Ending cs

theorem shows_start : Reader.start.Shows [] := ⟨.none .nil, .nothing nofun⟩

theorem Reader.Shows.blank (h : s.Shows cs) (hc : isBlank c = true) : s.Shows (cs ++ [c]) := by
  have hblank : Blank [c] := fun b hb => List.mem_singleton.1 hb ▸ hc
  refine ⟨h.opened.append (nested_blank hblank), ?_⟩
  cases h.ending with
  | nothing hcs => exact .nothing (List.forall_mem_append.2 ⟨hcs, hblank⟩)
  | opener hcs hopener hbs =>
    refine .opener ?_ hopener (List.forall_mem_append.2 ⟨hbs, hblank⟩)
    rw [hcs, List.append_assoc, List.cons_append]
  | operand hcs => exact .operand (mt (awaitsOperand_append_blank hblank).1 hcs)

theorem Reader.Shows.digits {ds : List Char} (h : s.Shows cs) (hne : ds ≠ [])
    (hds : ∀ d ∈ ds, isDigit d = true) {p : Nat} (hstep : s.step ⟨.digits ds, p⟩ = .ok s') :
    s'.Shows (cs ++ ds) := by
  have hopened := h.opened.append (nested_digits hds)
  have hlast : ¬AwaitsOperand (cs ++ ds) := by
    have hd := hds _ (List.getLast_mem hne)
    rw [← List.dropLast_concat_getLast hne, ← List.append_assoc,
      awaitsOperand_concat (isBlank_of_isDigit hd)]
    intro hopener
    rw [(of_mem_openers hopener).2] at hd
    cases hd
  cases s with
  | operand ctx last =>
    simp only [Reader.step] at hstep
    split at hstep
    · cases hstep
      exact ⟨hopened, .operand hlast⟩
    · cases hstep
  | operator ctx g => cases hstep

theorem Reader.Shows.literal {ctx : Context} {last : Option Nat}
    (h : (Reader.operand ctx last).Shows cs)
    (hc : c ≠ '(' ∧ c ≠ ')' ∧ c ∉ openers ∧ isBlank c = false) (g : Guard) :
    (Reader.operator ctx g).Shows (cs ++ [c]) := by
  obtain ⟨hopening, hclosing, hopener, hblank⟩ := hc
  refine ⟨h.opened.append (.char hopening hclosing .nil), .operand ?_⟩
  rwa [awaitsOperand_concat hblank]

theorem Reader.Shows.operator (h : s.Shows cs) (hc : c ≠ '(' ∧ c ≠ ')' ∧ c ∈ openers)
    {ctx : Context} (hgroups : ctx.outer = s.groups) :
    (Reader.operand ctx (some (offset cs))).Shows (cs ++ [c]) := by
  refine ⟨?_, .opener rfl hc.2.2 nofun⟩
  have := h.opened.append (.char hc.1 hc.2.1 .nil)
  rwa [← hgroups] at this

theorem Reader.Shows.sign {symbol : Symbol} (h : s.Shows cs) (hc : (c, symbol) ∈ signs)
    (hstep : s.step ⟨symbol, offset cs⟩ = .ok s') : s'.Shows (cs ++ [c]) := by
  simp only [signs, List.mem_cons, Prod.mk.injEq, List.not_mem_nil, or_false] at hc
  cases s with
  | operand ctx last =>
    rcases hc with ⟨rfl, rfl⟩ | ⟨rfl, rfl⟩ | ⟨rfl, rfl⟩ | ⟨rfl, rfl⟩ | ⟨rfl, rfl⟩ | ⟨rfl, rfl⟩ |
      ⟨rfl, rfl⟩ <;> cases hstep
    · exact h.literal (by decide) _
    · exact h.literal (by decide) _
    · exact h.operator (by decide) rfl
    · exact ⟨.group h.opened .nil, .opener rfl (by decide) (List.forall_mem_nil _)⟩
  | operator ctx g =>
    rcases hc with ⟨rfl, rfl⟩ | ⟨rfl, rfl⟩ | ⟨rfl, rfl⟩ | ⟨rfl, rfl⟩ | ⟨rfl, rfl⟩ | ⟨rfl, rfl⟩ |
      ⟨rfl, rfl⟩
    · cases hstep
    · cases hstep
    · cases hstep
    · cases hstep
      exact h.operator (by decide) rfl
    · cases hstep
      exact h.operator (by decide) rfl
    · cases hstep
    · obtain ⟨l, outer⟩ := ctx
      cases h.opened with
      | none _ => cases hstep
      | @group u v l' outer hu hv =>
        cases hstep
        refine ⟨?_, .operand (mt (awaitsOperand_concat (by decide)).1 (by decide))⟩
        rw [List.append_assoc, List.cons_append]
        exact hu.append (.group hv .nil)

theorem Reader.Shows.after (h : s.Shows u) (hv : s.after (tokens (offset u) v) = .ok s') :
    s'.Shows (u ++ v) := by
  induction v using text_induction generalizing u s with
  | nil =>
    cases hv
    rwa [List.append_nil]
  | @blank c v hb ih =>
    rw [tokens_blank hb] at hv
    have := ih (h.blank hb) (by rwa [offset_append])
    rwa [List.append_assoc] at this
  | @other c v hb hd ih =>
    rw [tokens_other hb hd] at hv
    obtain ⟨r, hr, hv⟩ := exists_step_of_after hv
    have hsign : (c, Symbol.ofChar c) ∈ signs := by
      refine mem_signs_of_ofChar fun x hx => ?_
      rw [hx] at hr
      cases s <;> cases hr
    have := ih (h.sign hsign hr) (by rwa [offset_append])
    rwa [List.append_assoc] at this
  | @run ds v hne hds hhead ih =>
    rw [tokens_run hne hds hhead] at hv
    obtain ⟨r, hr, hv⟩ := exists_step_of_after hv
    have := ih (h.digits hne hds hr) (by rwa [offset_append, offset_digits hds])
    rwa [List.append_assoc] at this

theorem shows_of_after (h : Reader.start.after (tokens 0 cs) = .ok s) : s.Shows cs :=
  shows_start.after h

/-! ## What is wrong -/

/-- What is said of the first character `c` at which a text, `pre` in front of it and `post` behind,
cannot be a guard's. -/
inductive Faults (pre : List Char) (c : Char) (post : List Char) : ParseError → Prop where
  | foreign : isBlank c = false → isDigit c = false → c ∉ signs.map Prod.fst →
      Faults pre c post (.unexpectedCharacter c (offset pre))
  | operand : ¬AwaitsOperand pre → c ∈ ['t', 'f', '!', '('] →
      Faults pre c post (.unexpectedOperand (offset pre))
  | number : ¬AwaitsOperand pre → isDigit c = true → (∀ a ∈ pre.getLast?, isDigit a = false) →
      Faults pre c post (.unexpectedOperand (offset pre))
  | missing : AwaitsOperand pre → c ∈ ['&', '|', ')'] →
      Faults pre c post (.missingOperand (offset pre))
  | unopened : ¬AwaitsOperand pre → c = ')' → Faults pre c post (.unopenedParenthesis (offset pre))
  /-- The digits `ds` in front of `c` and `ds'` behind it are all of its number. -/
  | overflow {u ds ds' v : List Char} : AwaitsOperand u → pre = u ++ ds → post = ds' ++ v →
      (∀ d ∈ ds ++ c :: ds', isDigit d = true) → (∀ a ∈ u.getLast?, isDigit a = false) →
      (∀ b ∈ v.head?, isDigit b = false) →
      Faults pre c post (.indexOverflow (String.ofList (ds ++ c :: ds')))

/-- What is said of a text that ends before it is a guard's. -/
inductive Unfinished (cs : List Char) : ParseError → Prop where
  | nothing : Blank cs → Unfinished cs .noExpression
  /-- The last token is an operator or opens a group. -/
  | missing {u bs : List Char} {c : Char} : cs = u ++ c :: bs → c ∈ openers → Blank bs →
      Unfinished cs (.missingOperand (offset u))
  /-- All that has been opened behind the parenthesis is closed, and the parenthesis is not. -/
  | unclosed {u v : List Char} : ¬AwaitsOperand cs → cs = u ++ '(' :: v → Nested v →
      Unfinished cs (.unclosedParenthesis (offset u))

theorem Reader.Shows.awaits {ctx : Context} {last : Option Nat}
    (h : (Reader.operand ctx last).Shows cs) : AwaitsOperand cs := by
  cases h.ending with
  | nothing hcs =>
    have : AwaitsOperand ([] ++ cs) := (awaitsOperand_append_blank hcs).2 nofun
    exact this
  | @opener u bs c _ hcs hopener hbs =>
    rw [hcs, List.append_cons, awaitsOperand_append_blank hbs,
      awaitsOperand_concat (of_mem_openers hopener).1]
    exact hopener

theorem Reader.Shows.not_awaits {ctx : Context} {g : Guard}
    (h : (Reader.operator ctx g).Shows cs) : ¬AwaitsOperand cs := by
  cases h.ending with
  | operand hcs => exact hcs

theorem unfinished_of_finish (h : s.Shows cs) (he : s.finish = .error e) : Unfinished cs e := by
  cases s with
  | operand ctx last =>
    cases h.ending with
    | nothing hcs =>
      cases he
      exact .nothing hcs
    | opener hcs hopener hbs =>
      cases he
      exact .missing hcs hopener hbs
  | operator ctx g =>
    obtain ⟨l, outer⟩ := ctx
    have hawaits := h.not_awaits
    cases h.opened with
    | none _ => cases he
    | group hu hv =>
      cases he
      exact .unclosed hawaits rfl hv

/-- What is said of a sign that is refused. -/
theorem faults_of_sign {symbol : Symbol} (h : s.Shows u) (hc : (c, symbol) ∈ signs)
    (hstep : s.step ⟨symbol, offset u⟩ = .error e) : Faults u c v e := by
  simp only [signs, List.mem_cons, Prod.mk.injEq, List.not_mem_nil, or_false] at hc
  cases s with
  | operand ctx last =>
    have hawaits := h.awaits
    rcases hc with ⟨rfl, rfl⟩ | ⟨rfl, rfl⟩ | ⟨rfl, rfl⟩ | ⟨rfl, rfl⟩ | ⟨rfl, rfl⟩ | ⟨rfl, rfl⟩ |
      ⟨rfl, rfl⟩ <;> cases hstep
    · exact .missing hawaits (by decide)
    · exact .missing hawaits (by decide)
    · exact .missing hawaits (by decide)
  | operator ctx g =>
    have hawaits := h.not_awaits
    rcases hc with ⟨rfl, rfl⟩ | ⟨rfl, rfl⟩ | ⟨rfl, rfl⟩ | ⟨rfl, rfl⟩ | ⟨rfl, rfl⟩ | ⟨rfl, rfl⟩ |
      ⟨rfl, rfl⟩
    · cases hstep
      exact .operand hawaits (by decide)
    · cases hstep
      exact .operand hawaits (by decide)
    · cases hstep
      exact .operand hawaits (by decide)
    · cases hstep
    · cases hstep
    · cases hstep
      exact .operand hawaits (by decide)
    · obtain ⟨l, outer⟩ := ctx
      cases outer with
      | nil =>
        cases hstep
        exact .unopened hawaits rfl
      | cons x outer => cases hstep

theorem exists_first_impossible (hu : Viable u) (h : ¬Viable (u ++ v)) :
    ∃ w c w', v = w ++ c :: w' ∧ Viable (u ++ w) ∧ ¬Viable (u ++ w ++ [c]) := by
  induction v generalizing u with
  | nil =>
    rw [List.append_nil] at h
    exact absurd hu h
  | cons c v ih =>
    by_cases hc : Viable (u ++ [c])
    · rw [List.append_cons] at h
      obtain ⟨w, d, w', rfl, hw, hd⟩ := ih hc h
      rw [← List.append_cons] at hw hd
      exact ⟨c :: w, d, w', rfl, hw, hd⟩
    · refine ⟨[], c, v, rfl, ?_, ?_⟩
      · rwa [List.append_nil]
      · rwa [List.append_nil]

theorem exists_fault (h : Reader.start.after (tokens 0 cs) = .error e) :
    ∃ pre c post, cs = pre ++ c :: post ∧ Viable pre ∧ ¬Viable (pre ++ [c]) ∧
      Faults pre c post e := by
  obtain ⟨ts, t, us, s, hsplit, hts, ht⟩ := exists_refused h
  cases found_of_tokens hsplit with
  | @other u v c hcs hu hb hd =>
    rw [← hu] at hts
    have hnot : ¬Viable (u ++ [c]) := by
      refine not_viable_of_after (e := e) ?_
      rw [tokens_append_other hb hd, after_append hts, after_cons_error ht]
    refine ⟨u, c, v, hcs, viable_of_after hts, hnot, ?_⟩
    by_cases hc : c ∈ signs.map Prod.fst
    · obtain ⟨⟨_, symbol⟩, hsign, rfl⟩ := List.mem_map.1 hc
      rw [(ofChar_of_mem_signs hsign).2.2] at ht
      exact faults_of_sign (shows_of_after hts) hsign ht
    · rw [ofChar_of_not_mem_signs hc] at ht
      cases s <;> cases ht <;> exact .foreign hb hd hc
  | @run u ds v hcs hu hne hds hlast hhead =>
    rw [← hu] at hts
    have hshows := shows_of_after hts
    have hnot : ¬Viable (u ++ ds) := by
      refine not_viable_of_after (e := e) ?_
      rw [tokens_append_run hne hds hlast, after_append hts, after_cons_error ht]
    cases s with
    | operand ctx last =>
      simp only [Reader.step] at ht
      split at ht
      · cases ht
      · cases ht
        obtain ⟨w, d, w', rfl, hw, hd⟩ := exists_first_impossible (viable_of_after hts) hnot
        refine ⟨u ++ w, d, w' ++ v, by simp [hcs], hw, hd, ?_⟩
        exact .overflow hshows.awaits rfl rfl hds hlast hhead
    | operator ctx g =>
      cases ht
      obtain ⟨d, ds, rfl⟩ := List.exists_cons_of_ne_nil hne
      have hd : isDigit d = true := hds d List.mem_cons_self
      refine ⟨u, d, ds ++ v, hcs, viable_of_after hts, ?_, .number hshows.not_awaits hd hlast⟩
      refine not_viable_of_after (e := .unexpectedOperand (offset u)) ?_
      rw [tokens_append_run (by simp) (by simp [hd]) hlast, after_append hts]
      exact after_cons_error rfl _

theorem run_of_refused {ts : List Token} (h : s.after ts = .error e) : s.run ts = .error e := by
  obtain ⟨us, t, vs, s', rfl, hus, ht⟩ := exists_refused h
  rw [run_append hus, run_refused ht]

theorem run_of_after {ts : List Token} (h : s.after ts = .ok s') : s.run ts = s'.finish := by
  have := run_append h []
  rwa [List.append_nil] at this

/-- **Errors point at the first impossible character**, or at what is missing at the end. Two stacks
report the same, so no reduction lacks an operand and no operand is left over. -/
theorem parse_error_located (text : String) :
    (∀ e, parse text = .error e →
      (∃ pre c post, text.toList = pre ++ c :: post ∧ Viable pre ∧ ¬Viable (pre ++ [c]) ∧
        Faults pre c post e) ∨
      (∀ pre, pre <+: text.toList → Viable pre) ∧ Unfinished text.toList e) ∧
    Yard.read text = (parse text).mapError .ofParse ∧
    (∀ p, Yard.read text ≠ .error (.exhausted p)) ∧
    ∀ k, Yard.read text = .error (.operandCount k) → k = 0 := by
  refine ⟨fun e he => ?_, yard_read_eq text, yard_read_ne text⟩
  rw [parse, parseChars] at he
  cases hafter : Reader.start.after (tokens 0 text.toList) with
  | error e' =>
    rw [run_of_refused hafter] at he
    cases he
    exact .inl (exists_fault hafter)
  | ok s =>
    rw [run_of_after hafter] at he
    refine .inr ⟨?_, unfinished_of_finish (shows_of_after hafter) he⟩
    rintro pre ⟨rest, hrest⟩
    have hviable : Viable (pre ++ rest) := hrest ▸ viable_of_after hafter
    exact hviable.of_append

/-- A foreign character, a number that is too large, and a group that is never closed. -/
theorem parse_error_located_group :
    parse "!(é" = .error (.unexpectedCharacter 'é' 2) ∧
    (∃ pre c post, "!(é".toList = pre ++ c :: post ∧ Viable pre ∧ ¬Viable (pre ++ [c]) ∧
      Faults pre c post (.unexpectedCharacter 'é' 2)) ∧
    parse "(0) & (1 |\n42949672960)" = .error (.indexOverflow "42949672960") ∧
    (∃ pre c post, "(0) & (1 |\n42949672960)".toList = pre ++ c :: post ∧ Viable pre ∧
      ¬Viable (pre ++ [c]) ∧ Faults pre c post (.indexOverflow "42949672960")) ∧
    parse "(0) & ((1)" = .error (.unclosedParenthesis 6) ∧
    (∀ pre, pre <+: "(0) & ((1)".toList → Viable pre) ∧
    Unfinished "(0) & ((1)".toList (.unclosedParenthesis 6) := by
  have hforeign : parse "!(é" = .error (.unexpectedCharacter 'é' 2) := rfl
  have hlarge : parse "(0) & (1 |\n42949672960)" = .error (.indexOverflow "42949672960") := rfl
  have hopen : parse "(0) & ((1)" = .error (.unclosedParenthesis 6) := rfl
  refine ⟨hforeign, ?_, hlarge, ?_, hopen, ?_⟩
  · rcases (parse_error_located _).1 _ hforeign with h | ⟨-, h⟩
    · exact h
    · cases h
  · rcases (parse_error_located _).1 _ hlarge with h | ⟨-, h⟩
    · exact h
    · cases h
  · rcases (parse_error_located _).1 _ hopen with ⟨_, _, _, -, -, -, h⟩ | h
    · cases h
    · exact h

end RabinReward.Guard
