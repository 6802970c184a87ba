import RabinReward.Text.Blank
import RabinReward.Proofs.Text.Numeral
import Mathlib.Data.List.Forall2

/-!
# Laying text out

The reverse side of cutting a text at white space. `LaidOut contents cs` says that the text `cs` has
a line for each of the given contents, with any white space around it, so a carriage return may end
a line; trimming the lines of such a text gives the contents back (`map_trim_lines`).
`Separated ws cs` says that `cs` holds the words `ws` with white space around and between them;
`words` finds them (`words_of_separated`).

Lines that differ in the white space around their content (`Repadded`) are the same when trimmed. A
carriage return in front of every line feed is white space at the ends of lines
(`lines_returnLines`).
-/

namespace RabinReward.Text

/-! ## Trimming -/

def Blank (cs : List Char) : Prop := ∀ c ∈ cs, isBlank c = true

instance (cs : List Char) : Decidable (Blank cs) :=
  decidable_of_iff (cs.all isBlank = true) List.all_eq_true

/-- There is a first character and it is not white space. -/
def Opens (cs : List Char) : Prop := ∃ c r, cs = c :: r ∧ isBlank c = false

/-- There is a last character and it is not white space. -/
def Closes (cs : List Char) : Prop := ∃ r c, cs = r ++ [c] ∧ isBlank c = false

theorem Opens.append {u : List Char} (h : Opens u) (v : List Char) : Opens (u ++ v) := by
  obtain ⟨c, r, rfl, hc⟩ := h
  exact ⟨c, r ++ v, rfl, hc⟩

theorem Closes.append {v : List Char} (h : Closes v) (u : List Char) : Closes (u ++ v) := by
  obtain ⟨r, c, rfl, hc⟩ := h
  exact ⟨u ++ r, c, (List.append_assoc u r [c]).symm, hc⟩

theorem Closes.cons {cs : List Char} (h : Closes cs) (c : Char) : Closes (c :: cs) :=
  h.append [c]

theorem Closes.reverse {cs : List Char} (h : Closes cs) : Opens cs.reverse := by
  obtain ⟨r, c, rfl, hc⟩ := h
  exact ⟨c, r.reverse, List.reverse_concat, hc⟩

theorem trimLeft_append {u cs : List Char} (hu : Blank u) : trimLeft (u ++ cs) = trimLeft cs :=
  List.dropWhile_append_of_pos hu

theorem trimLeft_of_opens {cs : List Char} (h : Opens cs) : trimLeft cs = cs := by
  obtain ⟨c, r, rfl, hc⟩ := h
  exact List.dropWhile_cons_of_neg (by simp [hc])

theorem Blank.reverse {cs : List Char} (h : Blank cs) : Blank cs.reverse :=
  fun c hc => h c (List.mem_reverse.1 hc)

theorem trimLeft_blank {cs : List Char} (h : Blank cs) : trimLeft cs = [] := by
  have happend : trimLeft (cs ++ []) = [] := trimLeft_append h
  rwa [List.append_nil] at happend

theorem trim_append_left {u cs : List Char} (hu : Blank u) : trim (u ++ cs) = trim cs := by
  rw [trim, trimLeft_append hu, trim]

theorem trim_append_right {u cs : List Char} (hu : Blank u) : trim (cs ++ u) = trim cs := by
  have hleft : trimLeft (cs ++ u) =
      if (trimLeft cs).isEmpty then trimLeft u else trimLeft cs ++ u := List.dropWhile_append
  rw [trim, trim, hleft]
  split
  · rename_i hnil
    rw [trimLeft_blank hu, List.isEmpty_iff.1 hnil]
  · rw [List.reverse_append, trimLeft_append hu.reverse]

theorem trim_eq_self {cs : List Char} (ho : Opens cs) (hc : Closes cs) : trim cs = cs := by
  rw [trim, trimLeft_of_opens ho, trimLeft_of_opens hc.reverse, List.reverse_reverse]

/-! ## Lines -/

theorem splitAt_append {sep : Char → Bool} {w cs r : List Char} {rs : List (List Char)}
    (hw : ∀ c ∈ w, sep c = false) (h : splitAt sep cs = r :: rs) :
    splitAt sep (w ++ cs) = (w ++ r) :: rs := by
  induction w with
  | nil => exact h
  | cons c w ih =>
    rw [List.cons_append, splitAt, hw c List.mem_cons_self,
      ih fun d hd => hw d (List.mem_cons_of_mem c hd)]
    rfl

theorem ne_feed {l : List Char} (h : '\n' ∉ l) : ∀ c ∈ l, (c == '\n') = false :=
  fun _ hc => beq_eq_false_iff_ne.2 fun heq => h (heq ▸ hc)

/-- The text has one line for each content, the content with white space around it. The last line
has no line feed. -/
inductive LaidOut : List (List Char) → List Char → Prop where
  | last {u cs v : List Char} : Blank u → Blank v → '\n' ∉ u ++ cs ++ v →
      LaidOut [cs] (u ++ cs ++ v)
  | cons {u cs v rest : List Char} {contents : List (List Char)} : Blank u → Blank v →
      '\n' ∉ u ++ cs ++ v → LaidOut contents rest →
      LaidOut (cs :: contents) (u ++ cs ++ v ++ '\n' :: rest)

theorem lines_cons {l rest : List Char} (h : '\n' ∉ l) :
    lines (l ++ '\n' :: rest) = l :: lines rest := by
  rw [lines, splitAt_append (ne_feed h) rfl, List.append_nil]
  rfl

theorem lines_last {l : List Char} (h : '\n' ∉ l) : lines l = [l] := by
  have hsplit : lines (l ++ []) = [l ++ []] := splitAt_append (ne_feed h) rfl
  rwa [List.append_nil] at hsplit

theorem trim_padded {u cs v : List Char} (hu : Blank u) (hv : Blank v) :
    trim (u ++ cs ++ v) = trim cs := by
  rw [trim_append_right hv, trim_append_left hu]

/-- Laid out contents come back when lines are trimmed, also in front of further lines. -/
theorem map_trim_lines {contents : List (List Char)} {cs : List Char} (h : LaidOut contents cs)
    (rest : List Char) :
    (lines (cs ++ '\n' :: rest)).map trim = contents.map trim ++ (lines rest).map trim ∧
      (lines cs).map trim = contents.map trim := by
  induction h with
  | last hu hv hfeed =>
    rw [lines_cons hfeed, lines_last hfeed]
    simp only [List.map_cons, List.map_nil, List.singleton_append, trim_padded hu hv, and_self]
  | cons hu hv hfeed _ ih =>
    rw [List.append_assoc, List.cons_append, lines_cons hfeed, lines_cons hfeed]
    simp only [List.map_cons, List.cons_append, trim_padded hu hv, ih.1, ih.2, and_self]

/-- The lines have the same content with white space around it. -/
def Repadded (l l' : List Char) : Prop :=
  ∃ u cs v u' v', (Blank u ∧ Blank v ∧ l = u ++ cs ++ v) ∧ Blank u' ∧ Blank v' ∧ l' = u' ++ cs ++ v'

theorem Repadded.trim_eq {l l' : List Char} (h : Repadded l l') : trim l' = trim l := by
  obtain ⟨u, cs, v, u', v', ⟨hu, hv, rfl⟩, hu', hv', rfl⟩ := h
  rw [trim_padded hu hv, trim_padded hu' hv']

theorem map_trim_of_repadded {ls ls' : List (List Char)} (h : List.Forall₂ Repadded ls ls') :
    ls'.map trim = ls.map trim := by
  rw [eq_comm, ← List.forall₂_eq_eq_eq, List.forall₂_map_left_iff, List.forall₂_map_right_iff]
  exact h.imp fun _ _ hl => hl.trim_eq.symm

def returnLines (cs : List Char) : List Char :=
  cs.flatMap fun c => if c = '\n' then ['\r', '\n'] else [c]

def Trailed (l l' : List Char) : Prop := ∃ v, Blank v ∧ l' = l ++ v

theorem Trailed.refl (l : List Char) : Trailed l l :=
  ⟨[], List.forall_mem_nil _, (List.append_nil l).symm⟩

theorem Trailed.repadded {l l' : List Char} (h : Trailed l l') : Repadded l l' := by
  obtain ⟨v, hv, rfl⟩ := h
  have hnil : Blank [] := List.forall_mem_nil _
  exact ⟨[], l, [], [], v, ⟨hnil, hnil, (List.append_nil l).symm⟩, hnil, hv, rfl⟩

theorem Trailed.cons {l l' : List Char} (h : Trailed l l') (c : Char) :
    Trailed (c :: l) (c :: l') := by
  obtain ⟨v, hv, rfl⟩ := h
  exact ⟨v, hv, rfl⟩

theorem trailed_consWord {ls ls' : List (List Char)} (h : List.Forall₂ Trailed ls ls') (c : Char) :
    List.Forall₂ Trailed (consWord c ls) (consWord c ls') := by
  cases h with
  | nil => exact .cons (.refl [c]) .nil
  | cons hl hrest => exact .cons (hl.cons c) hrest

/-- A carriage return that ends a line is white space at its end. -/
theorem lines_returnLines (cs : List Char) :
    List.Forall₂ Trailed (lines cs) (lines (returnLines cs)) := by
  induction cs with
  | nil => exact .cons (.refl []) .nil
  | cons c cs ih =>
    by_cases hc : c = '\n'
    · subst hc
      exact .cons ⟨['\r'], by decide, rfl⟩ ih
    · have hreturn : returnLines (c :: cs) = c :: returnLines cs := by
        rw [returnLines, List.flatMap_cons, if_neg hc]
        rfl
      have hfeed : ¬(c == '\n') = true := by simpa using hc
      rw [hreturn, lines, lines, splitAt, splitAt, if_neg hfeed, if_neg hfeed]
      exact trailed_consWord ih c

/-! ## Words -/

/-- The text holds the given words, with white space around and between them. -/
inductive Separated : List (List Char) → List Char → Prop where
  | nil : Separated [] []
  | blank {c : Char} {cs : List Char} {ws : List (List Char)} : isBlank c = true →
      Separated ws cs → Separated ws (c :: cs)
  | word {w cs : List Char} {ws : List (List Char)} : w ≠ [] → (∀ c ∈ w, isBlank c = false) →
      (∀ c ∈ cs.head?, isBlank c = true) → Separated ws cs → Separated (w :: ws) (w ++ cs)

theorem words_of_separated {ws : List (List Char)} {cs : List Char} (h : Separated ws cs) :
    words cs = ws := by
  induction h with
  | nil => rfl
  | blank hc _ ih =>
    rw [words, splitAt, if_pos hc]
    exact ih
  | @word w cs ws hne hw hcs _ ih =>
    -- the run that ends at `cs` is empty there, so `w` is a run of its own
    obtain ⟨rs, hrs⟩ : ∃ rs, splitAt isBlank cs = [] :: rs := by
      cases cs with
      | nil => exact ⟨[], rfl⟩
      | cons c cs => exact ⟨splitAt isBlank cs, by rw [splitAt, if_pos (hcs c rfl)]⟩
    rw [words, hrs] at ih
    rw [words, splitAt_append hw hrs, List.append_nil, List.filter_cons_of_pos (by simpa using hne)]
    exact congrArg (w :: ·) ih

end RabinReward.Text
