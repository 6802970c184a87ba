import RabinReward.Proofs.Automaton.Hanoi.Document
import RabinReward.Proofs.Automaton.Hanoi.Pairs
import RabinReward.Proofs.Guard.Print
import RabinReward.Proofs.Text.Layout

/-!
# Writing descriptions

`Renders d text` says that the text is a way to write the description down. It leaves the choices
that a writer has: the order of the states, parentheses around acceptance pairs, what is left out
when it is empty, further header lines, blank lines, and white space around lines, between tokens
and between the parts of a line. Whatever the choices, the text is a document of the description and
reads back (`parse_of_renders`).
-/

namespace RabinReward.Hanoi

open Text

/-! ## Descriptions that can be written -/

/-- What the format can express: counts are machine words like all its numbers, indices are in
range, each acceptance pair is one of two sets, and labels and tokens do not hold what would end
them. -/
structure Writable (d : Description) : Prop where
  states_lt : d.states.length < wordBound
  pairs_lt : 2 * d.pairs.length < wordBound
  initial : d.initial < d.states.length ∨ d.states = [] ∧ d.initial = 0
  destination : ∀ s ∈ d.states, ∀ t ∈ s.transitions, t.destination < d.states.length
  pairs : ∀ p ∈ d.pairs, ∃ i j, i < wordBound ∧ j < wordBound ∧ p.fin.toList = [Nat.repr i] ∧
    p.inf.toList = [Nat.repr j]
  label : ∀ s ∈ d.states, '"' ∉ s.label.toList ∧ '\n' ∉ s.label.toList
  tokens : ∀ s ∈ d.states, ∀ t ∈ s.transitions, ∀ x ∈ t.tokens, x.toList ≠ [] ∧
    ∀ c ∈ x.toList, isBlank c = false ∧ c ≠ '}'

/-! ## Ways to write a description -/

inductive RendersPair (p : RabinPair) : List Char → Prop where
  | bare {i j : Nat} {cs : List Char} : p.fin.toList = [Nat.repr i] → p.inf.toList = [Nat.repr j] →
      PairText i j cs → RendersPair p cs
  | parentheses {cs : List Char} : RendersPair p cs → RendersPair p ('(' :: (cs ++ [')']))

inductive RendersPairs : List RabinPair → List Char → Prop where
  | last {p : RabinPair} {cs : List Char} : RendersPair p cs → RendersPairs [p] cs
  | cons {p : RabinPair} {ps : List RabinPair} {cs u v rest : List Char} : RendersPair p cs →
      Spaces u → Spaces v → RendersPairs ps rest →
      RendersPairs (p :: ps) (cs ++ (u ++ '|' :: (v ++ rest)))

/-- What follows the number of sets; a condition without pairs may be a constant. -/
inductive RendersCondition : List RabinPair → List Char → Prop where
  | none : RendersCondition [] []
  | constant {u : List Char} {c : Char} : Spaces u → c = 't' ∨ c = 'f' →
      RendersCondition [] (u ++ [c])
  | some {ps : List RabinPair} {u cs : List Char} : Spaces u → RendersPairs ps cs →
      RendersCondition ps (u ++ cs)

def StartLine (d : Description) (cs : List Char) : Prop :=
  d.initial < d.states.length ∧ CountLine "Start:" d.initial cs

/-- A header: the number of states, later the acceptance condition, and anywhere the initial state,
unless it is the first one, and lines that are ignored. -/
inductive RendersHeader (d : Description) : List (List Char) → Prop where
  | intro (first second third : List (List Char)) {states acceptance condition : List Char} :
      CountLine "States:" d.states.length states →
      AcceptanceLine (2 * d.pairs.length) condition acceptance →
      RendersCondition d.pairs condition →
      (∀ l ∈ first ++ (second ++ third), OtherLine (trim l) ∨ StartLine d l) →
      (d.initial = 0 ∨ ∃ l ∈ first ++ (second ++ third), StartLine d l) →
      RendersHeader d (first ++ states :: (second ++ acceptance :: third))

/-- The printed guard, the destination and the tokens in any order. -/
def RendersTransition (t : Transition Guard) (cs : List Char) : Prop :=
  ∃ tokens ws, TransitionLine t.guard.print.toList t.destination tokens cs ∧
    Separated ws tokens ∧ ∀ x, x ∈ t.tokens ↔ x.toList ∈ ws

def numbered (d : Description) : Body := d.states.zipIdx.map Prod.swap

/-- The lines of the text are a header and the blocks of the states, in any order, and what opens
and closes the body; nothing depends on what follows. -/
def Renders (d : Description) (text : String) : Prop :=
  ∃ header body bs cs, RendersHeader d header ∧ Blocks RendersTransition body bs ∧
    bs.Perm (numbered d) ∧
    LaidOut (header ++ "--BODY--".toList :: (body ++ ["--END--".toList])) cs ∧
    (text.toList = cs ∨ ∃ rest, text.toList = cs ++ '\n' :: rest)

/-! ## Pairs -/

theorem pairOfSets_eq {p : RabinPair} {i j : Nat} (hfin : p.fin.toList = [Nat.repr i])
    (hinf : p.inf.toList = [Nat.repr j]) : pairOfSets (i, j) = p := by
  have hset {s : TokenSet} {x : String} (hs : s.toList = [x]) : .ofList [x] = s :=
    SortedSet.ext_mem fun y => by rw [SortedSet.mem_ofList, SortedSet.mem_def, hs]
  rw [pairOfSets, hset hfin, hset hinf]

theorem RendersPair.rabinPairs {p : RabinPair} {cs : List Char} (h : RendersPair p cs)
    (rest : List Char) :
    (rabinPairs (cs ++ rest)).map pairOfSets = p :: (rabinPairs rest).map pairOfSets := by
  induction h generalizing rest with
  | @bare i j cs hfin hinf htext =>
    rw [htext.rabinPairs, List.map_cons, pairOfSets_eq hfin hinf]
  | parentheses _ ih =>
    rw [List.cons_append, rabinPairs_cons_of_ne (by decide), List.append_assoc, ih,
      rabinPairs_append (by decide)]

theorem RendersPairs.rabinPairs {ps : List RabinPair} {cs : List Char} (h : RendersPairs ps cs)
    (rest : List Char) :
    (rabinPairs (cs ++ rest)).map pairOfSets = ps ++ (rabinPairs rest).map pairOfSets := by
  induction h with
  | last hp => exact hp.rabinPairs rest
  | @cons p ps cs sp sp' rest' hp hsp hsp' _ ih =>
    rw [List.append_assoc, hp.rabinPairs, List.append_assoc, rabinPairs_append hsp.not_mem,
      List.cons_append, rabinPairs_cons_of_ne (by decide), List.append_assoc,
      rabinPairs_append hsp'.not_mem, ih]
    rfl

theorem RendersCondition.rabinPairs {ps : List RabinPair} {cs : List Char}
    (h : RendersCondition ps cs) : (rabinPairs cs).map pairOfSets = ps := by
  cases h with
  | none => rfl
  | constant hsp hc =>
    rw [rabinPairs_append hsp.not_mem]
    rcases hc with rfl | rfl <;> rfl
  | some hsp hpairs =>
    have hread := hpairs.rabinPairs []
    rw [List.append_nil] at hread
    rw [rabinPairs_append hsp.not_mem, hread]
    exact List.append_nil ps

/-! ## Trimmed lines -/

theorem closes_numeral {n : Nat} {ds : List Char} (h : IsNumeral n ds) : Closes ds :=
  ⟨ds.dropLast, ds.getLast h.ne_nil, (List.dropLast_append_getLast h.ne_nil).symm,
    Guard.isBlank_of_isDigit (h.digits _ (List.getLast_mem h.ne_nil))⟩

theorem CountLine.trim {name : String} {n : Nat} {cs : List Char} (hname : Opens name.toList)
    (h : CountLine name n cs) : trim cs = cs := by
  obtain ⟨-, sp, ds, rfl, -, hds⟩ := h
  exact trim_eq_self (hname.append _) (((closes_numeral hds).append _).append _)

theorem RendersPair.closes {p : RabinPair} {cs : List Char} (h : RendersPair p cs) :
    Closes cs := by
  cases h with
  | bare _ _ htext =>
    obtain ⟨-, -, ds, sp, sp', es, rfl, -⟩ := htext
    exact ⟨"Fin(".toList ++ (ds ++ ')' :: (sp ++ '&' :: (sp' ++ ("Inf(".toList ++ es)))), ')',
      by simp, rfl⟩
  | parentheses _ => exact .cons ⟨_, _, rfl, rfl⟩ _

theorem RendersPairs.closes {ps : List RabinPair} {cs : List Char} (h : RendersPairs ps cs) :
    Closes cs := by
  induction h with
  | last hp => exact hp.closes
  | cons _ _ _ _ ih => exact ((ih.append _).cons _).append _ |>.append _

theorem AcceptanceLine.trim {sets : Nat} {ps : List RabinPair} {condition cs : List Char}
    (h : AcceptanceLine sets condition cs) (hcondition : RendersCondition ps condition) :
    trim cs = cs := by
  obtain ⟨-, sp, ds, rfl, -, hds, -⟩ := h
  refine trim_eq_self ⟨'A', _, rfl, rfl⟩ (.append (.append ?_ _) _)
  cases hcondition with
  | none =>
    rw [List.append_nil]
    exact closes_numeral hds
  | @constant u c _ hc =>
    have hclosing : Closes [c] := ⟨[], c, rfl, by rcases hc with rfl | rfl <;> rfl⟩
    exact .append (hclosing.append _) _
  | some _ hpairs => exact .append (hpairs.closes.append _) _

theorem StateLine.trim {i : Nat} {label cs : List Char} (h : StateLine i label cs) :
    trim cs = cs := by
  obtain ⟨-, sp, ds, r, rfl, -, hds, hlabel⟩ := h
  refine trim_eq_self ⟨'S', _, rfl, rfl⟩ (.append (.append ?_ _) _)
  cases hlabel with
  | none =>
    rw [List.append_nil]
    exact closes_numeral hds
  | quoted _ _ _ => exact .append (.append (.cons ⟨_, '"', rfl, rfl⟩ _) _) _

theorem TransitionLine.trim {guard tokens cs : List Char} {destination : Nat}
    (h : TransitionLine guard destination tokens cs) : trim cs = cs := by
  obtain ⟨-, -, sp, ds, r, rfl, -, -, hds, htokens⟩ := h
  refine trim_eq_self ⟨'[', _, rfl, rfl⟩ (.cons (.append (.cons (.append ?_ _) _) _) _)
  cases htokens with
  | none =>
    rw [List.append_nil]
    exact closes_numeral hds
  | braces _ _ => exact .append (.append (.cons ⟨_, '}', rfl, rfl⟩ _) _) _

/-! ## The header -/

theorem HeaderSays.append {line : Nat} {h h' h'' : Header} {ls ls' : List (List Char)}
    (hs : HeaderSays line h ls h') (hs' : HeaderSays (line + ls.length) h' ls' h'') :
    HeaderSays line h (ls ++ ls') h'' := by
  induction hs with
  | nil => exact hs'
  | cons hl _ ih =>
    refine .cons hl (ih ?_)
    rwa [Nat.add_assoc, Nat.add_comm 1, ← List.length_cons]

/-- The header so far names the initial state, or no line of those seen does. -/
def Starts (d : Description) (seen : List (List Char)) (start : Option (Nat × Nat)) : Prop :=
  start = none ∧ (∀ l ∈ seen, ¬StartLine d l) ∨
    d.initial < d.states.length ∧ ∃ line, start = some (line, d.initial)

theorem StartLine.trim {d : Description} {cs : List Char} (h : StartLine d cs) : trim cs = cs :=
  CountLine.trim ⟨'S', _, rfl, rfl⟩ h.2

/-- Lines that may stand anywhere change nothing but the initial state. -/
theorem exists_headerSays {d : Description} {ls : List (List Char)}
    (hfree : ∀ l ∈ ls, OtherLine (trim l) ∨ StartLine d l) {seen : List (List Char)} (line : Nat)
    {h : Header} (hstarts : Starts d seen h.start) :
    ∃ start, HeaderSays line h (ls.map trim) { h with start := start } ∧
      Starts d (seen ++ ls) start := by
  induction ls generalizing line h seen with
  | nil =>
    refine ⟨h.start, .nil, ?_⟩
    rwa [List.append_nil]
  | cons l ls ih =>
    obtain ⟨hl, hls⟩ := List.forall_mem_cons.1 hfree
    rw [List.append_cons]
    rcases hl with hother | hstart
    · have hstarts' : Starts d (seen ++ [l]) h.start := by
        refine hstarts.imp_left fun ⟨hnone, hseen⟩ => ⟨hnone, List.forall_mem_append.2 ⟨hseen, ?_⟩⟩
        rw [List.forall_mem_singleton]
        intro hstart
        rw [hstart.trim] at hother
        exact hother.not_start hstart.2.begins
      obtain ⟨start, hsays, hstarts'⟩ := ih hls (line + 1) hstarts'
      exact ⟨start, .cons (.other hother) hsays, hstarts'⟩
    · obtain ⟨start, hsays, hstarts'⟩ := ih hls (line + 1)
        (h := { h with start := some (line, d.initial) }) (.inr ⟨hstart.1, line, rfl⟩)
      refine ⟨start, .cons (.start ?_) hsays, hstarts'⟩
      rw [hstart.trim]
      exact hstart.2

theorem initial_of_starts {d : Description} {seen : List (List Char)} {h : Header}
    (hstarts : Starts d seen h.start) (hseen : d.initial = 0 ∨ ∃ l ∈ seen, StartLine d l) :
    h.initial d.states.length = .ok d.initial := by
  unfold Header.initial
  rcases hstarts with ⟨hnone, hnot⟩ | ⟨hlt, line, hsome⟩
  · rcases hseen with hzero | ⟨l, hl, hstart⟩
    · rw [hnone, hzero]
    · exact absurd hstart (hnot l hl)
  · rw [hsome]
    exact if_neg (Nat.not_le.2 hlt)

theorem RendersHeader.says {d : Description} {header : List (List Char)}
    (hr : RendersHeader d header) :
    ∃ h, HeaderSays 1 .empty (header.map trim) h ∧ h.states = some d.states.length ∧
      h.acceptance = some d.pairs ∧ h.initial d.states.length = .ok d.initial := by
  obtain ⟨first, second, third, hstates, hacceptance, hcondition, hfree, hseen⟩ := hr
  rename_i states acceptance condition
  rw [List.forall_mem_append, List.forall_mem_append] at hfree
  obtain ⟨hfirst, hsecond, hthird⟩ := hfree
  have hpairs := hcondition.rabinPairs
  have hsets : 2 * d.pairs.length = (rabinPairs condition).length * 2 := by
    rw [← hpairs, List.length_map, Nat.mul_comm]
  have hacceptanceLine := hacceptance.trim hcondition
  rw [hsets] at hacceptance
  have hnone : Starts d [] none := .inl ⟨rfl, nofun⟩
  obtain ⟨start₁, hsays₁, hstarts₁⟩ := exists_headerSays hfirst 1 (h := .empty) hnone
  obtain ⟨start₂, hsays₂, hstarts₂⟩ := exists_headerSays hsecond (1 + (first.map trim).length + 1)
    (h := ⟨some d.states.length, start₁, none⟩) hstarts₁
  obtain ⟨start₃, hsays₃, hstarts₃⟩ := exists_headerSays hthird
    (1 + (first.map trim).length + 1 + (second.map trim).length + 1)
    (h := ⟨some d.states.length, start₂, some ((rabinPairs condition).map pairOfSets)⟩) hstarts₂
  refine ⟨⟨some d.states.length, start₃, some ((rabinPairs condition).map pairOfSets)⟩, ?_, rfl,
    congrArg some hpairs, initial_of_starts hstarts₃ ?_⟩
  · simp only [List.map_append, List.map_cons, hstates.trim ⟨'S', _, rfl, rfl⟩, hacceptanceLine]
    exact hsays₁.append (.cons (.states hstates)
      (hsays₂.append (.cons (.acceptance rfl hacceptance) hsays₃)))
  · rwa [List.nil_append, List.append_assoc]

/-! ## The body -/

theorem RendersTransition.says {t : Transition Guard} {cs : List Char}
    (hr : RendersTransition t cs) : SaysTransition t (trim cs) := by
  obtain ⟨tokens, ws, hline, hwords, hmem⟩ := hr
  rw [hline.trim]
  refine ⟨_, tokens, hline, Guard.parseChars_print t.guard, SortedSet.ext_mem fun x => ?_⟩
  rw [words_of_separated hwords, SortedSet.mem_ofList, List.mem_map, hmem]
  constructor
  · exact fun hx => ⟨x.toList, hx, String.ofList_toList⟩
  · rintro ⟨w, hw, rfl⟩
    rwa [String.toList_ofList]

theorem Section.says {ls : List (List Char)} {ts : List (Transition Guard)}
    (hs : Section RendersTransition ls ts) : Section SaysTransition (ls.map trim) ts := by
  induction hs with
  | nil => exact .nil
  | blank _ ih => exact .blank ih
  | transition hr _ ih => exact .transition hr.says ih

theorem Blocks.says {ls : List (List Char)} {bs : Body} (hs : Blocks RendersTransition ls bs) :
    Blocks SaysTransition (ls.map trim) bs := by
  induction hs with
  | nil => exact .nil
  | blank _ ih => exact .blank ih
  | block hl hsection _ ih =>
    rw [List.map_cons, List.map_append, hl.trim]
    exact .block hl hsection.says ih

theorem mem_numbered {d : Description} {p : Nat × State Guard} :
    p ∈ numbered d ↔ d.states[p.1]? = some p.2 := by
  obtain ⟨i, s⟩ := p
  rw [numbered, List.mem_map]
  constructor
  · rintro ⟨⟨s', j⟩, hmem, heq⟩
    cases heq
    exact List.mem_zipIdx_iff_getElem?.1 hmem
  · exact fun h => ⟨(s, i), List.mem_zipIdx_iff_getElem?.2 h, rfl⟩

theorem map_fst_numbered (d : Description) :
    (numbered d).map Prod.fst = List.range d.states.length := by
  rw [numbered, List.map_map, List.range_eq_range', ← List.zipIdx_map_snd]
  rfl

theorem Writable.fits {d : Description} (hd : Writable d) {bs : Body}
    (hperm : bs.Perm (numbered d)) : bs.Fits d.states.length where
  distinct := by
    rw [(hperm.map Prod.fst).nodup_iff, map_fst_numbered]
    exact List.nodup_range
  index_lt p hp := (List.getElem?_eq_some_iff.1 (mem_numbered.1 (hperm.mem_iff.1 hp))).1
  destination_lt p hp :=
    hd.destination p.2 (List.mem_of_getElem? (mem_numbered.1 (hperm.mem_iff.1 hp)))

/-! ## Whole texts -/

theorem lines_of_laidOut {header body : List (List Char)} {cs : List Char} {text : String}
    (hcs : LaidOut (header ++ "--BODY--".toList :: (body ++ ["--END--".toList])) cs)
    (htext : text.toList = cs ∨ ∃ rest, text.toList = cs ++ '\n' :: rest) :
    ∃ after, (Text.lines text.toList).map trim =
      header.map trim ++ "--BODY--".toList :: (body.map trim ++ "--END--".toList :: after) := by
  have hbody : trim "--BODY--".toList = "--BODY--".toList := rfl
  have hending : trim "--END--".toList = "--END--".toList := rfl
  rcases htext with htext | ⟨rest, htext⟩
  · refine ⟨[], ?_⟩
    rw [htext, (map_trim_lines hcs []).2]
    simp only [List.map_append, List.map_cons, List.map_nil, hbody, hending]
  · refine ⟨(Text.lines rest).map trim, ?_⟩
    rw [htext, (map_trim_lines hcs rest).1]
    simp only [List.map_append, List.map_cons, List.map_nil, hbody, hending, List.append_assoc,
      List.cons_append, List.nil_append]

/-- **Every way to write a description down reads back.** -/
theorem parse_of_renders {d : Description} (hd : Writable d) {text : String}
    (hr : Renders d text) : parse text = .ok d := by
  obtain ⟨header, body, bs, cs, hheader, hbody, hperm, hcs, htext⟩ := hr
  obtain ⟨h, hsays, hstates, hpairs, hinitial⟩ := hheader.says
  obtain ⟨after, hlines⟩ := lines_of_laidOut hcs htext
  refine parseLines_eq_ok_iff.2 ⟨_, _, after, h, bs, hlines, hsays, hstates, hpairs, hinitial,
    hbody.says, hd.fits hperm, ?_, fun p hp => mem_numbered.1 (hperm.mem_iff.1 hp)⟩
  rw [hperm.length_eq, numbered, List.length_map, List.length_zipIdx]

def shuffled : Description :=
  ⟨1, [⟨.ofList ["0"], .ofList ["1"]⟩, ⟨.ofList ["2"], .ofList ["3"]⟩],
    [⟨"", [⟨.literal true, 0, .empty⟩, ⟨.prop 0, 2, .empty⟩]⟩,
      ⟨"wait", [⟨.not (.prop 0), 0, .empty⟩]⟩,
      ⟨"", [⟨.prop 1, 2, .ofList ["1", "3"]⟩]⟩]⟩

def shuffledBlocks : Body :=
  [(2, ⟨"", [⟨.prop 1, 2, .ofList ["1", "3"]⟩]⟩),
    (0, ⟨"", [⟨.literal true, 0, .empty⟩, ⟨.prop 0, 2, .empty⟩]⟩),
    (1, ⟨"wait", [⟨.not (.prop 0), 0, .empty⟩]⟩)]

/-- What is empty is left out. -/
def shuffledText : String :=
  "HOA: v1\nStates: 3\nStart: 1\nAcceptance: 4 (Fin(0) & Inf(1)) | Fin(2)&Inf(3)\r\n--BODY--\n" ++
  "State: 2\n  [1] 2\t\x7b3 1 \x7d\nState: 0\n[t] 0\n\n[0] 2\nState: 1 \"wait\"\n[!0] 0\n" ++
  "--END--\nrest"

theorem writable_shuffled : Writable shuffled := by
  have htokens : ∀ s ∈ shuffled.states, ∀ t ∈ s.transitions, ∀ x ∈ t.tokens.toList,
      x = "1" ∨ x = "3" := by
    decide
  refine ⟨by decide, by decide, .inl (by decide), by decide, fun p hp => ?_, by decide,
    fun s hs t ht x hx => ?_⟩
  · rcases List.mem_pair.1 hp with rfl | rfl
    · exact ⟨0, 1, by decide, by decide, rfl, rfl⟩
    · exact ⟨2, 3, by decide, by decide, rfl, rfl⟩
  · rcases htokens s hs t ht x hx with rfl | rfl
    · exact ⟨by decide, List.forall_mem_singleton.2 (by decide)⟩
    · exact ⟨by decide, List.forall_mem_singleton.2 (by decide)⟩

theorem rendersHeader_shuffled : RendersHeader shuffled ["HOA: v1".toList, "States: 3".toList,
    "Start: 1".toList, "Acceptance: 4 (Fin(0) & Inf(1)) | Fin(2)&Inf(3)".toList] := by
  have hfirst : RendersPair ⟨.ofList ["0"], .ofList ["1"]⟩ "(Fin(0) & Inf(1))".toList :=
    .parentheses (.bare (i := 0) (j := 1) rfl rfl ⟨by decide, by decide, ['0'], [' '], [' '],
      ['1'], rfl, isNumeral_repr 0, by decide, by decide, isNumeral_repr 1⟩)
  have hsecond : RendersPair ⟨.ofList ["2"], .ofList ["3"]⟩ "Fin(2)&Inf(3)".toList :=
    .bare (i := 2) (j := 3) rfl rfl ⟨by decide, by decide, ['2'], [], [], ['3'], rfl,
      isNumeral_repr 2, by decide, by decide, isNumeral_repr 3⟩
  have hcondition : RendersCondition shuffled.pairs
      " (Fin(0) & Inf(1)) | Fin(2)&Inf(3)".toList :=
    .some (u := [' ']) (by decide)
      (.cons (u := [' ']) (v := [' ']) hfirst (by decide) (by decide) (.last hsecond))
  have hstart : StartLine shuffled "Start: 1".toList :=
    ⟨by decide, by decide, [' '], ['1'], rfl, by decide, isNumeral_repr 1⟩
  have hversion : OtherLine (trim "HOA: v1".toList) :=
    ⟨by decide, by decide, by decide, by decide⟩
  exact .intro ["HOA: v1".toList] ["Start: 1".toList] []
    ⟨by decide, [' '], ['3'], rfl, by decide, isNumeral_repr 3⟩
    ⟨by decide, [' '], ['4'], rfl, by decide, isNumeral_repr 4, by rintro c ⟨⟩; rfl⟩ hcondition
    (List.forall_mem_cons.2 ⟨.inl hversion, List.forall_mem_singleton.2 (.inr hstart)⟩)
    (.inr ⟨_, List.mem_cons_of_mem _ List.mem_cons_self, hstart⟩)

theorem blocks_shuffled : Blocks RendersTransition
    ["State: 2".toList, "[1] 2\t\x7b3 1 \x7d".toList, "State: 0".toList, "[t] 0".toList, [],
      "[0] 2".toList, "State: 1 \"wait\"".toList, "[!0] 0".toList]
    shuffledBlocks := by
  have hbare : ∀ (g : Guard) (k : Nat), k < wordBound → RendersTransition ⟨g, k, .empty⟩
      ('[' :: (g.print.toList ++ ']' :: ([' '] ++ ((Nat.repr k).toList ++ [])))) := fun g k hk =>
    ⟨[], [], ⟨Guard.not_mem_print (by decide) (by decide), hk, [' '], _, [], rfl, by simp,
      by decide, isNumeral_repr k, .none⟩, .nil, fun x => iff_of_false nofun nofun⟩
  have hmarked : RendersTransition ⟨.prop 1, 2, .ofList ["1", "3"]⟩
      "[1] 2\t\x7b3 1 \x7d".toList := by
    refine ⟨"3 1 ".toList, ["3".toList, "1".toList], ⟨by decide, by decide, [' '], ['2'],
      "\t\x7b3 1 \x7d".toList, rfl, by decide, by decide, isNumeral_repr 2,
      @TokenPart.braces ['\t'] _ (by decide) (by decide)⟩, ?_, fun x => ?_⟩
    · have hlast : Separated ["1".toList] " 1 ".toList :=
        .blank rfl (.word (by decide) (List.forall_mem_singleton.2 rfl) (by rintro c ⟨⟩; rfl)
          (.blank rfl .nil))
      exact .word (by decide) (List.forall_mem_singleton.2 rfl) (by rintro c ⟨⟩; rfl) hlast
    · rw [SortedSet.mem_ofList, List.mem_pair, List.mem_pair, String.toList_inj,
        String.toList_inj, or_comm]
  have hstate : ∀ i, i < wordBound →
      StateLine i [] ("State:".toList ++ ([' '] ++ ((Nat.repr i).toList ++ []))) := fun i hi =>
    ⟨hi, [' '], _, [], rfl, by decide, isNumeral_repr i, .none⟩
  have hwait : StateLine 1 "wait".toList "State: 1 \"wait\"".toList :=
    ⟨by decide, [' '], ['1'], " \"wait\"".toList, rfl, by decide, isNumeral_repr 1,
      @LabelPart.quoted [' '] _ (by decide) (by decide) (by decide)⟩
  have hlast := Blocks.block hwait
    (.transition (hbare (.not (.prop 0)) 0 (by decide)) .nil) .nil
  have hmiddle := Blocks.block (hstate 0 (by decide))
    (.transition (hbare (.literal true) 0 (by decide))
      (.blank (.transition (hbare (.prop 0) 2 (by decide)) .nil))) hlast
  exact Blocks.block (hstate 2 (by decide)) (.transition hmarked .nil) hmiddle

theorem renders_shuffled : Renders shuffled shuffledText := by
  have hperm : shuffledBlocks.Perm (numbered shuffled) :=
    (List.perm_append_singleton _ [_, _]).symm
  have hlaid : ∃ cs, LaidOut
      ["HOA: v1".toList, "States: 3".toList, "Start: 1".toList,
        "Acceptance: 4 (Fin(0) & Inf(1)) | Fin(2)&Inf(3)".toList, "--BODY--".toList,
        "State: 2".toList, "[1] 2\t\x7b3 1 \x7d".toList, "State: 0".toList, "[t] 0".toList, [],
        "[0] 2".toList, "State: 1 \"wait\"".toList, "[!0] 0".toList, "--END--".toList] cs ∧
      ∃ rest, shuffledText.toList = cs ++ '\n' :: rest := by
    have hline {cs rest : List Char} {contents : List (List Char)} (hcs : '\n' ∉ cs)
        (hrest : LaidOut contents rest) : LaidOut (cs :: contents) (cs ++ [] ++ '\n' :: rest) :=
      .cons (u := []) nofun nofun (by rwa [List.nil_append, List.append_nil]) hrest
    refine ⟨_, hline (by decide) <| hline (by decide) <| hline (by decide) <|
      .cons (u := []) (v := ['\r']) (by decide) (by decide) (by decide) <|
      hline (by decide) <| hline (by decide) <|
      .cons (u := [' ', ' ']) (v := []) (by decide) (by decide) (by decide) <|
      hline (by decide) <| hline (by decide) <| hline (by decide) <| hline (by decide) <|
      hline (by decide) <| hline (by decide) <|
      .last (u := []) (v := []) (by decide) (by decide) (by decide),
      "rest".toList, by decide +kernel⟩
  obtain ⟨cs, hcs, htext⟩ := hlaid
  exact ⟨_, _, _, cs, rendersHeader_shuffled, blocks_shuffled, hperm, hcs, .inr htext⟩

theorem parse_of_renders_shuffled :
    Writable shuffled ∧ Renders shuffled shuffledText ∧ parse shuffledText = .ok shuffled :=
  ⟨writable_shuffled, renders_shuffled, parse_of_renders writable_shuffled renders_shuffled⟩

end RabinReward.Hanoi
