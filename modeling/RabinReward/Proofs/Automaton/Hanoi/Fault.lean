import RabinReward.Proofs.Automaton.Hanoi.Document
import RabinReward.Proofs.Guard.Binding

/-!
# The line that is at fault

Header and body are read one line at a time (`readHeader_cons`, `readBody_cons`), and the first line
that is wrong ends the reading. The error names that line (`Blames`), and what follows the line is
not looked at (`readHeader_eq_error`, `readBody_eq_error`). The states that the body has declared up
to there are what it would have given if it had ended there, so nothing before the line is wrong.

One error that names a line is not of this kind: the initial state is compared with the number of
states when the whole header has been read, which a later line may have changed.
-/

namespace RabinReward.Hanoi

open Text

variable {line count : Nat} {cs : List Char} {lines rest : List (List Char)} {h : Header} {b : Body}
  {e : ParseError}

def ParseError.line? : ParseError → Option Nat
  | .missing _ | .incompleteStates _ _ => none
  | .acceptanceBeforeStates l | .acceptanceMismatch l _ _ | .initialStateOutOfRange l _ _
  | .stateOutOfRange l _ _ | .duplicateState l _ | .transitionBeforeState l
  | .destinationOutOfRange l _ _ | .guard l _ | .malformed l _ => some l

/-! ## One line -/

/-- Reads one line of the body other than its last one. -/
def Body.step (b : Body) (count line : Nat) (cs : List Char) : Except ParseError Body :=
  match bodyLine cs with
  | .state index label => b.addState count line index label
  | .transition guard destination tokens => b.addTransition count line guard destination tokens
  | .malformed => .error (.malformed line (String.ofList cs))
  | .blank | .ending => .ok b

theorem headerLine_eq_body_iff : headerLine cs = .body ↔ cs = "--BODY--".toList := by
  constructor
  · intro hsaid
    have hform := headerForm cs
    rw [hsaid] at hform
    cases hform with
    | body hcs => exact hcs
  · rintro rfl
    rfl

theorem bodyLine_eq_ending_iff : bodyLine cs = .ending ↔ cs = "--END--".toList := by
  constructor
  · intro hsaid
    have hform := bodyForm cs
    rw [hsaid] at hform
    cases hform with
    | ending hcs => exact hcs
  · rintro rfl
    rfl

theorem readHeader_cons (hcs : cs ≠ "--BODY--".toList) :
    readHeader h line (cs :: rest) =
      h.step line cs >>= fun h => readHeader h (line + 1) rest := by
  rw [readHeader, if_neg (mt headerLine_eq_body_iff.1 hcs)]
  cases h.step line cs <;> rfl

theorem readBody_cons (hcs : cs ≠ "--END--".toList) :
    readBody count b line (cs :: rest) =
      b.step count line cs >>= fun b => readBody count b (line + 1) rest := by
  have hsaid := mt bodyLine_eq_ending_iff.1 hcs
  rw [readBody, Body.step]
  generalize bodyLine cs = said at hsaid
  cases said with
  | blank | malformed => rfl
  | ending => exact absurd rfl hsaid
  | state index label => simp only; cases b.addState count line index label <;> rfl
  | transition guard destination tokens =>
    simp only
    cases b.addTransition count line guard destination tokens <;> rfl

/-- The error names the line, and quotes it if it is malformed. -/
structure Blames (e : ParseError) (line : Nat) (cs : List Char) : Prop where
  line_eq : e.line? = some line
  content_eq : ∀ l content, e = .malformed l content → content = String.ofList cs

theorem Blames.eq_line (h : Blames e line cs) {l : Nat} (hl : e.line? = some l) : l = line :=
  Option.some.inj (hl.symm.trans h.line_eq)

theorem blames_malformed (line : Nat) (cs : List Char) :
    Blames (.malformed line (String.ofList cs)) line cs :=
  ⟨rfl, by rintro _ _ ⟨⟩; rfl⟩

theorem Header.blames_of_step (hs : h.step line cs = .error e) : Blames e line cs := by
  unfold Header.step at hs
  generalize headerLine cs = said at hs
  cases said with
  | body | states | start | other => cases hs
  | malformed =>
    cases hs
    exact blames_malformed line cs
  | acceptance content =>
    simp only at hs
    split at hs
    · cases hs
      exact ⟨rfl, by rintro _ _ ⟨⟩⟩
    cases content with
    | none =>
      cases hs
      exact blames_malformed line cs
    | some p =>
      simp only at hs
      split at hs <;> cases hs
      exact ⟨rfl, by rintro _ _ ⟨⟩⟩

theorem Body.blames_of_addState {i : Nat} {label : List Char}
    (hs : b.addState count line i label = .error e) : Blames e line cs := by
  unfold Body.addState at hs
  split at hs
  · cases hs
    exact ⟨rfl, by rintro _ _ ⟨⟩⟩
  split at hs
  · cases hs
    exact ⟨rfl, by rintro _ _ ⟨⟩⟩
  · cases hs

theorem Body.blames_of_addTransition {guard tokens : List Char} {destination : Nat}
    (hs : b.addTransition count line guard destination tokens = .error e) : Blames e line cs := by
  unfold Body.addTransition at hs
  split at hs
  · cases hs
    exact ⟨rfl, by rintro _ _ ⟨⟩⟩
  split at hs
  · cases hs
    exact ⟨rfl, by rintro _ _ ⟨⟩⟩
  split at hs
  · cases hs
    exact ⟨rfl, by rintro _ _ ⟨⟩⟩
  · cases hs

theorem Body.blames_of_step (hs : b.step count line cs = .error e) : Blames e line cs := by
  unfold Body.step at hs
  generalize bodyLine cs = said at hs
  cases said with
  | blank | ending => cases hs
  | state index label => exact Body.blames_of_addState hs
  | transition guard destination tokens => exact Body.blames_of_addTransition hs
  | malformed =>
    cases hs
    exact blames_malformed line cs

/-! ## The first line that is wrong -/

theorem readHeader_eq_error (hr : readHeader h line lines = .error e) :
    ∃ before cs after, lines = before ++ cs :: after ∧ "--BODY--".toList ∉ before ∧
      Blames e (line + before.length) cs ∧
      ∀ after', readHeader h line (before ++ cs :: after') = .error e := by
  induction lines generalizing h line with
  | nil => cases hr
  | cons cs rest ih =>
    have hcs : cs ≠ "--BODY--".toList := by
      rintro rfl
      cases hr
    rw [readHeader_cons hcs] at hr
    cases hstep : h.step line cs with
    | error e' =>
      rw [hstep] at hr
      cases hr
      refine ⟨[], cs, rest, rfl, List.not_mem_nil, Header.blames_of_step hstep, fun after' => ?_⟩
      rw [List.nil_append, readHeader_cons hcs, hstep]
      rfl
    | ok h₁ =>
      rw [hstep] at hr
      obtain ⟨before, cs', after, rfl, hbody, hblames, hlocal⟩ := ih hr
      refine ⟨cs :: before, cs', after, rfl, List.not_mem_cons_of_ne_of_not_mem hcs.symm hbody, ?_,
        fun after' => ?_⟩
      · rwa [List.length_cons, ← Nat.add_assoc, Nat.add_right_comm]
      · rw [List.cons_append, readHeader_cons hcs, hstep]
        exact hlocal after'

/-- Either the body does not end, or some line of it is wrong and it could have ended there. -/
theorem readBody_eq_error (hr : readBody count b line lines = .error e) :
    e = .missing .ending ∨ ∃ before cs after, lines = before ++ cs :: after ∧
      Blames e (line + before.length) cs ∧
      (∀ after', readBody count b line (before ++ cs :: after') = .error e) ∧
      ∃ b', ∀ after', readBody count b line (before ++ "--END--".toList :: after') = .ok b' := by
  induction lines generalizing b line with
  | nil =>
    cases hr
    exact .inl rfl
  | cons cs rest ih =>
    have hcs : cs ≠ "--END--".toList := by
      rintro rfl
      cases hr
    rw [readBody_cons hcs] at hr
    cases hstep : b.step count line cs with
    | error e' =>
      rw [hstep] at hr
      cases hr
      refine .inr ⟨[], cs, rest, rfl, Body.blames_of_step hstep, fun after' => ?_,
        b, fun after' => rfl⟩
      rw [List.nil_append, readBody_cons hcs, hstep]
      rfl
    | ok b₁ =>
      rw [hstep] at hr
      refine (ih hr).imp_right ?_
      rintro ⟨before, cs', after, rfl, hblames, hlocal, b', hends⟩
      refine ⟨cs :: before, cs', after, rfl, ?_, fun after' => ?_, b', fun after' => ?_⟩
      · rwa [List.length_cons, ← Nat.add_assoc, Nat.add_right_comm]
      · rw [List.cons_append, readBody_cons hcs, hstep]
        exact hlocal after'
      · rw [List.cons_append, readBody_cons hcs, hstep]
        exact hends after'

/-! ## Whole texts -/

def contents (text : String) : List (List Char) := (Text.lines text.toList).map trim

/-- A text whose header is in order is as good as its body. -/
theorem parseLines_of_header {header : List (List Char)} {pairs : List RabinPair} {initial : Nat}
    (hs : HeaderSays 1 .empty header h) (hstates : h.states = some count)
    (hpairs : h.acceptance = some pairs) (hinitial : h.initial count = .ok initial)
    (rest : List (List Char)) :
    parseLines (header ++ "--BODY--".toList :: rest) =
      readBody count [] (1 + header.length + 1) rest >>= fun b =>
        if b.length = count then .ok ⟨initial, pairs, b.states count⟩
        else .error (.incompleteStates count b.length) := by
  rw [parseLines, hs.readHeader]
  simp only [bind, Except.bind, hstates, hpairs, hinitial]
  rfl

/-- An error that names a line comes from one of the two loops, unless it is about the initial
state. -/
theorem header_or_body_eq_error {l : Nat} (hp : parseLines lines = .error e)
    (hline : e.line? = some l) (hinitial : ∀ l i n, e ≠ .initialStateOutOfRange l i n) :
    readHeader .empty 1 lines = .error e ∨
      ∃ header h count pairs initial rest, lines = header ++ "--BODY--".toList :: rest ∧
        HeaderSays 1 .empty header h ∧ h.states = some count ∧ h.acceptance = some pairs ∧
        h.initial count = .ok initial ∧
        readBody count [] (1 + header.length + 1) rest = .error e := by
  rw [parseLines] at hp
  refine (bind_eq_error.1 hp).imp_right ?_
  rintro ⟨⟨h, read⟩, hheader, hrest⟩
  simp only at hrest
  split at hrest
  swap
  · cases hrest
    cases hline
  rename_i count hcount
  split at hrest
  swap
  · cases hrest
    cases hline
  rename_i pairs hpairs
  split at hrest
  swap
  · cases hrest
    cases hline
  rename_i k rest
  rcases bind_eq_error.1 hrest with hstart | ⟨initial, hstart, hrest⟩
  · unfold Header.initial at hstart
    split at hstart
    · cases hstart
    split at hstart
    · cases hstart
      exact absurd rfl (hinitial _ _ _)
    · cases hstart
  rcases bind_eq_error.1 hrest with hbody | ⟨b, -, hrest⟩
  swap
  · split at hrest <;> cases hrest
    cases hline
  obtain ⟨header, rfl, hread⟩ := readHeader_eq_ok hheader
  rw [hread.readHeader] at hheader
  cases hheader
  exact ⟨header, h, count, pairs, initial, rest, rfl, hread, hcount, hpairs, hstart, hbody⟩

/-- What the lines say of the error: a line of the given number is at fault, whatever follows it,
and no line of the body before it. -/
def FirstFault (e : ParseError) (line : Nat) (lines : List (List Char)) : Prop :=
  ∃ before cs after, lines = before ++ cs :: after ∧ line = before.length + 1 ∧
    (∀ after', parseLines (before ++ cs :: after') = .error e) ∧
    (∀ l content, e = .malformed l content → content = String.ofList cs) ∧
    ("--BODY--".toList ∈ before → ∀ after',
      (∃ d, parseLines (before ++ "--END--".toList :: after') = .ok d) ∨
      ∃ declared found, parseLines (before ++ "--END--".toList :: after') =
        .error (.incompleteStates declared found))

theorem firstFault_of_header (hr : readHeader .empty 1 lines = .error e) {l : Nat}
    (hline : e.line? = some l) : FirstFault e l lines := by
  obtain ⟨before, cs, after, rfl, hbody, hblames, hlocal⟩ := readHeader_eq_error hr
  refine ⟨before, cs, after, rfl, ?_, fun after' => ?_, hblames.content_eq,
    fun hmem => absurd hmem hbody⟩
  · rw [hblames.eq_line hline, Nat.add_comm]
  · rw [parseLines, hlocal after']
    rfl

theorem firstFault_of_parseLines {l : Nat} (hp : parseLines lines = .error e)
    (hline : e.line? = some l) (hinitial : ∀ l i n, e ≠ .initialStateOutOfRange l i n) :
    FirstFault e l lines := by
  rcases header_or_body_eq_error hp hline hinitial with hr |
    ⟨header, h, count, pairs, initial, rest, rfl, hread, hcount, hpairs, hstart, hr⟩
  · exact firstFault_of_header hr hline
  rcases readBody_eq_error hr with rfl | ⟨before, cs, after, rfl, hblames, hlocal, b, hends⟩
  · cases hline
  have hparse (ls : List (List Char)) :=
    parseLines_of_header hread hcount hpairs hstart (before ++ ls)
  refine ⟨header ++ "--BODY--".toList :: before, cs, after, by simp, ?_, fun after' => ?_,
    hblames.content_eq, fun _ after' => ?_⟩
  · rw [hblames.eq_line hline, List.length_append, List.length_cons]
    omega
  · rw [List.append_assoc, List.cons_append, hparse, hlocal after']
    rfl
  · rw [List.append_assoc, List.cons_append, hparse, hends after']
    by_cases hlength : b.length = count
    · exact .inl ⟨_, if_pos hlength⟩
    · exact .inr ⟨_, _, if_neg hlength⟩

theorem exists_append_of_take {α : Type} {l before : List α} {a : α}
    (h : l.take (before.length + 1) = before ++ [a]) : ∃ after, l = before ++ a :: after :=
  ⟨l.drop (before.length + 1), by
    rw [List.append_cons, ← h, List.take_append_drop]⟩

/-- An error that names a line names the first one that is wrong: it depends on the lines up to that
one only, a malformed line is quoted, and a body that is cut off in front of the line has at most
too few states. -/
theorem first_fault_located {text : String} {e : ParseError} {l : Nat} (hp : parse text = .error e)
    (hline : e.line? = some l) (hinitial : ∀ l i n, e ≠ .initialStateOutOfRange l i n) :
    (0 < l ∧ l ≤ (contents text).length) ∧
    (∀ text', (contents text').take l = (contents text).take l → parse text' = .error e) ∧
    (∀ l' content, e = .malformed l' content →
      (contents text)[l - 1]?.map String.ofList = some content) ∧
    ("--BODY--".toList ∈ (contents text).take (l - 1) → ∀ text',
      (contents text').take l = (contents text).take (l - 1) ++ ["--END--".toList] →
        (∃ d, parse text' = .ok d) ∨
          ∃ declared found, parse text' = .error (.incompleteStates declared found)) := by
  obtain ⟨before, cs, after, hcontents, rfl, hlocal, hcontent, hends⟩ :=
    (firstFault_of_parseLines hp hline hinitial : FirstFault e l (contents text))
  have htake : (contents text).take (before.length + 1) = before ++ [cs] := by
    rw [hcontents, List.append_cons, List.take_left' (by simp)]
  have hbefore : (contents text).take (before.length + 1 - 1) = before := by
    rw [hcontents, Nat.add_sub_cancel, List.take_left]
  refine ⟨⟨Nat.succ_pos _, by simp [hcontents]⟩, fun text' hsame => ?_, fun l' content he => ?_,
    fun hbody text' hcut => ?_⟩
  · obtain ⟨after', hafter⟩ := exists_append_of_take (hsame.trans htake)
    have := hlocal after'
    rwa [← hafter] at this
  · rw [hcontent l' content he, hcontents, Nat.add_sub_cancel, List.getElem?_append_right le_rfl,
      Nat.sub_self]
    rfl
  · rw [hbefore] at hbody hcut
    obtain ⟨after', hafter⟩ := exists_append_of_take hcut
    have := hends hbody after'
    rwa [← hafter] at this

def unquoted : String :=
  "States: 2\nAcceptance: 2 Fin(0) & Inf(1)\n--BODY--\nState: 0\n[t] 1 \x7b1\x7d\n" ++
  "  State: 1 goal \n--END--"

theorem first_fault_located_unquoted :
    parse unquoted = .error (.malformed 6 "State: 1 goal") ∧
    (∀ text', (contents text').take 6 = (contents unquoted).take 6 →
      parse text' = .error (.malformed 6 "State: 1 goal")) ∧
    ∀ text', (contents text').take 6 = (contents unquoted).take 5 ++ ["--END--".toList] →
      (∃ d, parse text' = .ok d) ∨
        ∃ declared found, parse text' = .error (.incompleteStates declared found) :=
  have hparse : parse unquoted = .error (.malformed 6 "State: 1 goal") := by decide +kernel
  have hlocated := first_fault_located hparse rfl nofun
  ⟨hparse, hlocated.2.1, hlocated.2.2.2 (by decide +kernel)⟩

/-- Cut off in front of that line, the text lacks the second state. -/
example : parse
    "States: 2\nAcceptance: 2 Fin(0) & Inf(1)\n--BODY--\nState: 0\n[t] 1 \x7b1\x7d\n--END--" =
      .error (.incompleteStates 2 1) := by decide +kernel

end RabinReward.Hanoi
