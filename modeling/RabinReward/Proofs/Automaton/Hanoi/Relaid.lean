import RabinReward.Proofs.Automaton.Hanoi.Fault
import RabinReward.Proofs.Text.Layout
import Mathlib.Order.Monotone.Basic

/-!
# Texts that differ in their layout

What is read of a text are the trimmed contents of its lines, without the lines of the header that
say nothing and without what follows the last line of the body. `Relaid` puts together the changes
that leave this alone; the outcome stays the same.

Blank lines move the lines behind them. Two runs of the readers over lines that are numbered
differently (`Numbered`) stay in step: one line changes header and body alike, and its errors differ
in the number only (`Header.step_renumber`, `Body.step_renumber`).
-/

namespace RabinReward.Hanoi

open Text

variable {line count i j : Nat} {f : Nat → Nat} {cs cs' : List Char}
  {before ls ls' : List (List Char)} {h : Header} {b : Body}

/-! ## Lines that are not read -/

theorem readHeader_otherLine (hcs : OtherLine cs) (rest : List (List Char)) :
    readHeader h line (cs :: rest) = readHeader h (line + 1) rest := by
  rw [readHeader_cons hcs.not_body, (LineSays.other hcs).step.1]
  rfl

theorem readHeader_replace (hbefore : "--BODY--".toList ∉ before) (hcs : OtherLine cs)
    (hcs' : OtherLine cs') (after : List (List Char)) :
    readHeader h line (before ++ cs :: after) = readHeader h line (before ++ cs' :: after) := by
  induction before generalizing h line with
  | nil => exact (readHeader_otherLine hcs after).trans (readHeader_otherLine hcs' after).symm
  | cons k before ih =>
    rw [List.mem_cons, not_or] at hbefore
    have hk : k ≠ "--BODY--".toList := Ne.symm hbefore.1
    rw [List.cons_append, List.cons_append, readHeader_cons hk, readHeader_cons hk]
    simp only [ih hbefore.2]

theorem parseLines_replace (hbefore : "--BODY--".toList ∉ before) (hcs : OtherLine cs)
    (hcs' : OtherLine cs') (after : List (List Char)) :
    parseLines (before ++ cs :: after) = parseLines (before ++ cs' :: after) := by
  rw [parseLines, parseLines, readHeader_replace hbefore hcs hcs']

/-- A header that is closed is read without regard to the end of the text. -/
theorem readHeader_append (hbefore : "--BODY--".toList ∈ before) :
    (∃ e, ∀ rest, readHeader h line (before ++ rest) = .error e) ∨
      ∃ h' k body, ∀ rest,
        readHeader h line (before ++ rest) = .ok (h', some (k, body ++ rest)) := by
  induction before generalizing h line with
  | nil => cases hbefore
  | cons cs before ih =>
    by_cases hcs : cs = "--BODY--".toList
    · subst hcs
      exact .inr ⟨h, line + 1, before, fun _ => rfl⟩
    · have hread (rest : List (List Char)) : readHeader h line (cs :: before ++ rest) =
          h.step line cs >>= fun h => readHeader h (line + 1) (before ++ rest) :=
        readHeader_cons hcs
      simp only [hread]
      cases h.step line cs with
      | error e => exact .inl ⟨e, fun _ => rfl⟩
      | ok h₁ => exact ih ((List.mem_cons.1 hbefore).resolve_left (Ne.symm hcs))

theorem readBody_append_ending (body after : List (List Char)) :
    readBody count b line (body ++ "--END--".toList :: after) =
      readBody count b line (body ++ ["--END--".toList]) := by
  induction body generalizing b line with
  | nil => rfl
  | cons cs body ih =>
    by_cases hcs : cs = "--END--".toList
    · subst hcs
      rfl
    · rw [List.cons_append, List.cons_append, readBody_cons hcs, readBody_cons hcs]
      simp only [ih]

theorem parseLines_append_ending (hbefore : "--BODY--".toList ∈ before)
    (after : List (List Char)) :
    parseLines (before ++ "--END--".toList :: after) =
      parseLines (before ++ ["--END--".toList]) := by
  rcases readHeader_append hbefore with ⟨e, he⟩ | ⟨h, k, body, hok⟩
  · rw [parseLines, parseLines, he, he]
  · simp only [parseLines, hok, bind, Except.bind, readBody_append_ending body after]

/-! ## Lines that are numbered differently -/

def ParseError.renumber (f : Nat → Nat) : ParseError → ParseError
  | .missing part => .missing part
  | .acceptanceBeforeStates l => .acceptanceBeforeStates (f l)
  | .acceptanceMismatch l sets pairs => .acceptanceMismatch (f l) sets pairs
  | .initialStateOutOfRange l i n => .initialStateOutOfRange (f l) i n
  | .stateOutOfRange l i n => .stateOutOfRange (f l) i n
  | .duplicateState l i => .duplicateState (f l) i
  | .incompleteStates declared found => .incompleteStates declared found
  | .transitionBeforeState l => .transitionBeforeState (f l)
  | .destinationOutOfRange l destination n => .destinationOutOfRange (f l) destination n
  | .guard l source => .guard (f l) source
  | .malformed l content => .malformed (f l) content

def Header.renumber (f : Nat → Nat) (h : Header) : Header :=
  { h with start := h.start.map fun (l, i) => (f l, i) }

theorem Header.step_renumber (f : Nat → Nat) (h : Header) (line : Nat) (cs : List Char) :
    (h.renumber f).step (f line) cs =
      ((h.step line cs).map (Header.renumber f)).mapError (ParseError.renumber f) := by
  unfold Header.step
  cases headerLine cs with
  | body | states | start | malformed | other => rfl
  | acceptance content =>
    obtain ⟨states, start, acceptance⟩ := h
    cases states with
    | none => rfl
    | some count =>
      cases content with
      | none => rfl
      | some p =>
        simp only [Header.renumber, Option.isNone_some, Bool.false_eq_true, ↓reduceIte]
        split <;> rfl

theorem Body.addState_renumber (f : Nat → Nat) (index : Nat) (label : List Char) :
    b.addState count (f line) index label =
      (b.addState count line index label).mapError (ParseError.renumber f) := by
  unfold Body.addState
  split
  · rfl
  split <;> rfl

theorem Body.addTransition_renumber (f : Nat → Nat) (guard tokens : List Char)
    (destination : Nat) :
    b.addTransition count (f line) guard destination tokens =
      (b.addTransition count line guard destination tokens).mapError (ParseError.renumber f) := by
  unfold Body.addTransition
  split
  · rfl
  split
  · rfl
  split <;> rfl

theorem Body.step_renumber (f : Nat → Nat) (b : Body) (count line : Nat) (cs : List Char) :
    b.step count (f line) cs = (b.step count line cs).mapError (ParseError.renumber f) := by
  unfold Body.step
  cases bodyLine cs with
  | state index label => exact Body.addState_renumber f index label
  | transition guard destination tokens =>
    exact Body.addTransition_renumber f guard tokens destination
  | malformed | blank | ending => rfl

theorem Header.initial_renumber (f : Nat → Nat) (h : Header) (count : Nat) :
    (h.renumber f).initial count = (h.initial count).mapError (ParseError.renumber f) := by
  obtain ⟨states, start, acceptance⟩ := h
  cases start with
  | none => rfl
  | some p =>
    simp only [Header.initial, Header.renumber, Option.map_some]
    split <;> rfl

/-- The second list has the lines of the first and empty ones. The line with number `l` in the first
list has number `f l` in the second; the lists begin with the numbers `i` and `j`. -/
inductive Numbered (f : Nat → Nat) : Nat → Nat → List (List Char) → List (List Char) → Prop where
  | nil {i j : Nat} : Numbered f i j [] []
  | blank {i j : Nat} {ls ls' : List (List Char)} : Numbered f i (j + 1) ls ls' →
      Numbered f i j ls ([] :: ls')
  | line {i j : Nat} {cs : List Char} {ls ls' : List (List Char)} : f i = j →
      Numbered f (i + 1) (j + 1) ls ls' → Numbered f i j (cs :: ls) (cs :: ls')

/-- What is read of a header whose lines are numbered differently. -/
inductive SameHeader (f : Nat → Nat) :
    Except ParseError (Header × Option (Nat × List (List Char))) →
    Except ParseError (Header × Option (Nat × List (List Char))) → Prop where
  | error {e : ParseError} : SameHeader f (.error e) (.error (e.renumber f))
  | unclosed {h : Header} : SameHeader f (.ok (h, none)) (.ok (h.renumber f, none))
  | closed {h : Header} {i j : Nat} {ls ls' : List (List Char)} : Numbered f i j ls ls' →
      SameHeader f (.ok (h, some (i, ls))) (.ok (h.renumber f, some (j, ls')))

theorem Numbered.readHeader (hn : Numbered f i j ls ls') (h : Header) :
    SameHeader f (readHeader h i ls) (readHeader (h.renumber f) j ls') := by
  induction hn generalizing h with
  | nil => exact .unclosed
  | blank _ ih => exact ih h
  | @line i j cs ls ls' hf hn ih =>
    by_cases hcs : cs = "--BODY--".toList
    · subst hcs
      exact .closed hn
    · rw [readHeader_cons hcs, readHeader_cons hcs, ← hf, Header.step_renumber]
      cases h.step i cs with
      | error e => exact .error
      | ok h => rw [hf]; exact ih h

theorem Numbered.readBody (hn : Numbered f i j ls ls') (b : Body) :
    readBody count b j ls' = (readBody count b i ls).mapError (ParseError.renumber f) := by
  induction hn generalizing b with
  | nil => rfl
  | blank _ ih => exact ih b
  | @line i j cs ls ls' hf _ ih =>
    by_cases hcs : cs = "--END--".toList
    · subst hcs
      rfl
    · rw [readBody_cons hcs, readBody_cons hcs, ← hf, Body.step_renumber]
      cases b.step count i cs with
      | error e => rfl
      | ok b => rw [hf]; exact ih b

theorem Numbered.parseLines (hn : Numbered f 1 1 ls ls') :
    parseLines ls' = (parseLines ls).mapError (ParseError.renumber f) := by
  have hheader := hn.readHeader .empty
  rw [Hanoi.parseLines, Hanoi.parseLines]
  change SameHeader f _ (Hanoi.readHeader .empty 1 ls') at hheader
  generalize Hanoi.readHeader .empty 1 ls = read, Hanoi.readHeader .empty 1 ls' = read' at hheader ⊢
  cases hheader with
  | error => rfl
  | @unclosed h =>
    obtain ⟨states, start, acceptance⟩ := h
    cases states <;> cases acceptance <;> rfl
  | @closed h i j ls ls' hn =>
    have hinitial := h.initial_renumber f
    obtain ⟨states, start, acceptance⟩ := h
    cases states with
    | none => rfl
    | some count =>
      cases acceptance with
      | none => rfl
      | some pairs =>
        simp only [Header.renumber, bind, Except.bind] at hinitial ⊢
        rw [hinitial count, hn.readBody]
        cases Header.initial _ count with
        | error e => rfl
        | ok initial =>
          cases Hanoi.readBody count [] i ls with
          | error e => rfl
          | ok b =>
            simp only [Except.mapError]
            split <;> rfl

/-! ## Changes of the layout -/

/-- Blank lines are put between the lines, in front of them and behind them. -/
inductive Interspersed : List (List Char) → List (List Char) → Prop where
  | nil : Interspersed [] []
  | blank {l : List Char} {ls ls' : List (List Char)} : Blank l → Interspersed ls ls' →
      Interspersed ls (l :: ls')
  | line {l : List Char} {ls ls' : List (List Char)} : Interspersed ls ls' →
      Interspersed (l :: ls) (l :: ls')

/-- The lines keep their order, and a numbering goes with their new places. -/
theorem Interspersed.exists_places (hi : Interspersed ls ls') : ∃ place : Nat → Nat,
    StrictMono place ∧ (∀ k, ls'[place k]? = ls[k]?) ∧
      ∀ f i j, (∀ k, f (i + k) = j + place k) → Numbered f i j (ls.map trim) (ls'.map trim) := by
  induction hi with
  | nil => exact ⟨id, strictMono_id, fun _ => rfl, fun _ _ _ _ => .nil⟩
  | @blank l ls ls' hl _ ih =>
    obtain ⟨place, hmono, hplace, hnumbered⟩ := ih
    refine ⟨fun k => place k + 1, fun k k' hk => Nat.succ_lt_succ (hmono hk), hplace,
      fun f i j hf => ?_⟩
    have htrim : trim l = [] := by
      rw [trim, trimLeft_blank hl]
      rfl
    rw [List.map_cons, htrim]
    refine .blank (hnumbered f i (j + 1) fun k => (hf k).trans ?_)
    rw [Nat.add_right_comm, Nat.add_assoc]
  | @line l ls ls' _ ih =>
    obtain ⟨place, hmono, hplace, hnumbered⟩ := ih
    refine ⟨fun k => k.casesOn 0 fun k => place k + 1, ?_, ?_, fun f i j hf => ?_⟩
    · refine strictMono_nat_of_lt_succ fun k => ?_
      cases k with
      | zero => exact Nat.succ_pos _
      | succ k => exact Nat.succ_lt_succ (hmono k.lt_succ_self)
    · intro k
      cases k with
      | zero => rfl
      | succ k => exact hplace k
    · refine .line (hf 0) (hnumbered f (i + 1) (j + 1) fun k => ?_)
      rw [Nat.add_right_comm, Nat.add_assoc]
      refine (hf (k + 1)).trans ?_
      rw [Nat.add_right_comm, Nat.add_assoc]

inductive Relaid (text : String) : String → Prop where
  /-- Every line feed becomes a carriage return and a line feed. -/
  | returned : Relaid text (String.ofList (returnLines text.toList))
  /-- The white space at the ends of lines is changed. -/
  | repadded {text' : String} :
      List.Forall₂ Repadded (Text.lines text.toList) (Text.lines text'.toList) → Relaid text text'
  /-- A line of the header that says nothing is replaced by another one. -/
  | replaced {text' : String} {before after : List (List Char)} {l l' : List Char} :
      Text.lines text.toList = before ++ l :: after →
      Text.lines text'.toList = before ++ l' :: after → "--BODY--".toList ∉ before.map trim →
      OtherLine (trim l) → OtherLine (trim l') → Relaid text text'
  /-- Something else follows the last line of the body. -/
  | extended {text' : String} {before after after' : List (List Char)} {closing : List Char} :
      Text.lines text.toList = before ++ closing :: after →
      Text.lines text'.toList = before ++ closing :: after' → "--BODY--".toList ∈ before.map trim →
      trim closing = "--END--".toList → Relaid text text'

theorem parse_eq_of_repadded {text text' : String}
    (h : List.Forall₂ Repadded (Text.lines text.toList) (Text.lines text'.toList)) :
    parse text' = parse text :=
  congrArg Hanoi.parseLines (map_trim_of_repadded h)

theorem parse_eq_of_lines {text : String} {before after : List (List Char)} {l : List Char}
    (h : Text.lines text.toList = before ++ l :: after) :
    parse text = Hanoi.parseLines (before.map trim ++ trim l :: after.map trim) := by
  rw [parse, h, List.map_append, List.map_cons]

theorem Relaid.parse_eq {text text' : String} (h : Relaid text text') :
    parse text' = parse text := by
  cases h with
  | returned =>
    refine parse_eq_of_repadded ?_
    rw [String.toList_ofList]
    exact (lines_returnLines text.toList).imp fun _ _ hl => hl.repadded
  | repadded hpadded => exact parse_eq_of_repadded hpadded
  | replaced htext htext' hbefore hl hl' =>
    rw [parse_eq_of_lines htext, parse_eq_of_lines htext']
    exact parseLines_replace hbefore hl' hl _
  | extended htext htext' hbefore hclosing =>
    rw [parse_eq_of_lines htext, parse_eq_of_lines htext', hclosing]
    exact (parseLines_append_ending hbefore _).trans (parseLines_append_ending hbefore _).symm

/-- The outcome does not depend on the layout. Blank lines change nothing but the numbers of lines
in an error, which move with their lines. -/
theorem layout_irrelevant (text text' : String) :
    (Relaid text text' → parse text' = parse text) ∧
    (Interspersed (Text.lines text.toList) (Text.lines text'.toList) →
      ∃ place : Nat → Nat, StrictMono place ∧
        (∀ k, (Text.lines text'.toList)[place k]? = (Text.lines text.toList)[k]?) ∧
        parse text' =
          (parse text).mapError (ParseError.renumber fun line => place (line - 1) + 1)) := by
  refine ⟨Relaid.parse_eq, fun hi => ?_⟩
  obtain ⟨place, hmono, hplace, hnumbered⟩ := hi.exists_places
  refine ⟨place, hmono, hplace, (hnumbered _ 1 1 fun k => ?_).parseLines⟩
  rw [Nat.add_sub_cancel_left, Nat.add_comm]

def headless : String := "States: 1\nAcceptance: 0 t\n--BODY--\n[t] 0\n--END--"

def headlessSpread : String := "States: 1\n\nAcceptance: 0 t\n--BODY--\n \t\n[t] 0\n--END--"

theorem headless_interspersed :
    Interspersed (Text.lines headless.toList) (Text.lines headlessSpread.toList) := by
  have htext : Text.lines headless.toList = ["States: 1".toList, "Acceptance: 0 t".toList,
    "--BODY--".toList, "[t] 0".toList, "--END--".toList] := by decide +kernel
  have hspread : Text.lines headlessSpread.toList = ["States: 1".toList, [],
    "Acceptance: 0 t".toList, "--BODY--".toList, " \t".toList, "[t] 0".toList,
    "--END--".toList] := by decide +kernel
  rw [htext, hspread]
  exact .line (.blank (by decide) (.line (.line (.blank (by decide) (.line (.line .nil))))))

theorem layout_irrelevant_headless :
    parse (String.ofList (returnLines headless.toList)) = .error (.transitionBeforeState 4) ∧
    ∃ place : Nat → Nat, StrictMono place ∧
      (∀ k, (Text.lines headlessSpread.toList)[place k]? = (Text.lines headless.toList)[k]?) ∧
      parse headlessSpread = .error (.transitionBeforeState (place 3 + 1)) := by
  have hparse : parse headless = .error (.transitionBeforeState 4) := by decide +kernel
  obtain ⟨place, hmono, hplace, hspread⟩ :=
    (layout_irrelevant headless headlessSpread).2 headless_interspersed
  rw [hparse] at hspread
  exact ⟨((layout_irrelevant headless _).1 .returned).trans hparse, place, hmono, hplace, hspread⟩

end RabinReward.Hanoi
