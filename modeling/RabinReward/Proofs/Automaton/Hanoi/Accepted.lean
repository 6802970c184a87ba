import RabinReward.Proofs.Automaton.Hanoi.Document
import RabinReward.Proofs.Machine.Construction
import Mathlib.Data.Option.Basic

/-!
# What an accepted text declares

Of the header lines of one kind the last one counts (`HeaderSays.last`), and every state of the
description is declared by one line of the body, whose section ends at the next state line
(`Blocks.declared`). As many states are declared as there are indices, so the states of the
description are the declared ones in another order (`Document.perm`). `Describes` collects this for
a description and the lines of its text; `describes_of_parse` is the result, with what follows for
the machine: its ranges are never the reason that it is not made.
-/

namespace RabinReward.Hanoi

open Text

variable {line count : Nat} {cs : List Char} {lines body : List (List Char)} {h h' : Header}

/-! ## The last header line of a kind -/

/-- The last of the lines with the given beginning has the property. -/
def LastLine (name : String) (p : List Char → Prop) (lines : List (List Char)) : Prop :=
  ∃ before cs after, lines = before ++ cs :: after ∧ p cs ∧ ∀ l ∈ after, ¬name.toList <+: l

/-- A part of the header that a line either sets, or leaves alone if it does not begin with the
name, is what the last line of that name says. -/
theorem HeaderSays.last {α : Type} {part : Header → Option α} {name : String}
    {r : α → List Char → Prop}
    (hstep : ∀ {line h cs h'}, LineSays line h cs h' →
      (∃ a, part h' = some a ∧ r a cs) ∨ part h' = part h ∧ ¬name.toList <+: cs)
    (hs : HeaderSays line h lines h') :
    (∃ a, part h' = some a ∧ LastLine name (r a) lines) ∨
      part h' = part h ∧ ∀ l ∈ lines, ¬name.toList <+: l := by
  induction hs with
  | nil => exact .inr ⟨rfl, nofun⟩
  | @cons line h h₁ h₂ cs rest hl _ ih =>
    rcases ih with ⟨a, ha, before, l, after, rfl, hsays, hafter⟩ | ⟨hsame, hrest⟩
    · exact .inl ⟨a, ha, cs :: before, l, after, rfl, hsays, hafter⟩
    rcases hstep hl with ⟨a, ha, hsays⟩ | ⟨hkeep, hcs⟩
    · exact .inl ⟨a, hsame.trans ha, [], cs, rest, rfl, hsays, hrest⟩
    · exact .inr ⟨hsame.trans hkeep, List.forall_mem_cons.2 ⟨hcs, hrest⟩⟩

theorem LineSays.states_or (hl : LineSays line h cs h') :
    (∃ n, h'.states = some n ∧ CountLine "States:" n cs) ∨
      h'.states = h.states ∧ ¬"States:".toList <+: cs := by
  cases hl with
  | states hn => exact .inl ⟨_, rfl, hn⟩
  | start hi => exact .inr ⟨rfl, not_begins hi.begins (by decide) (by decide)⟩
  | acceptance _ ha => exact .inr ⟨rfl, not_begins ha.begins (by decide) (by decide)⟩
  | other ho => exact .inr ⟨rfl, ho.not_states⟩

theorem LineSays.start_or (hl : LineSays line h cs h') :
    (∃ i, h'.start.map Prod.snd = some i ∧ CountLine "Start:" i cs) ∨
      h'.start.map Prod.snd = h.start.map Prod.snd ∧ ¬"Start:".toList <+: cs := by
  cases hl with
  | states hn => exact .inr ⟨rfl, not_begins hn.begins (by decide) (by decide)⟩
  | start hi => exact .inl ⟨_, rfl, hi⟩
  | acceptance _ ha => exact .inr ⟨rfl, not_begins ha.begins (by decide) (by decide)⟩
  | other ho => exact .inr ⟨rfl, ho.not_start⟩

def DeclaresPairs (pairs : List RabinPair) (cs : List Char) : Prop :=
  ∃ condition, AcceptanceLine (2 * pairs.length) condition cs ∧
    pairs = (rabinPairs condition).map pairOfSets

theorem LineSays.acceptance_or (hl : LineSays line h cs h') :
    (∃ pairs, h'.acceptance = some pairs ∧ DeclaresPairs pairs cs) ∨
      h'.acceptance = h.acceptance ∧ ¬"Acceptance:".toList <+: cs := by
  cases hl with
  | states hn => exact .inr ⟨rfl, not_begins hn.begins (by decide) (by decide)⟩
  | start hi => exact .inr ⟨rfl, not_begins hi.begins (by decide) (by decide)⟩
  | @acceptance condition _ ha =>
    refine .inl ⟨_, rfl, condition, ?_, rfl⟩
    rwa [List.length_map, Nat.mul_comm]
  | other ho => exact .inr ⟨rfl, ho.not_acceptance⟩

theorem HeaderSays.body_not_mem (hs : HeaderSays line h lines h') :
    "--BODY--".toList ∉ lines := by
  induction hs with
  | nil => exact List.not_mem_nil
  | cons hl _ ih =>
    refine List.not_mem_cons_of_ne_of_not_mem ?_ ih
    rintro rfl
    exact hl.step.2 rfl

/-! ## The lines of the body -/

def IsTransition (cs : List Char) : Prop :=
  ∃ guard destination tokens, TransitionLine guard destination tokens cs

instance : DecidablePred IsTransition := fun cs =>
  decidable_of_iff ((transition? cs).isSome = true) <| by
    simp only [Option.isSome_iff_exists, Prod.exists, transition?_eq_some_iff, IsTransition]

theorem not_isTransition_nil : ¬IsTransition [] := by
  rintro ⟨_, _, _, hl⟩
  exact absurd (List.prefix_nil.1 hl.begins) (by decide)

theorem StateLine.not_isTransition {i : Nat} {label : List Char} (hl : StateLine i label cs) :
    ¬IsTransition cs := by
  rintro ⟨_, _, _, ht⟩
  exact ht.not_state hl

theorem StateLine.index_eq {i j : Nat} {label label' : List Char} (hi : StateLine i label cs)
    (hj : StateLine j label' cs) : i = j := by
  have := (state?_eq_some_iff.2 hi).symm.trans (state?_eq_some_iff.2 hj)
  simp only [Option.some.injEq, Prod.mk.injEq] at this
  exact this.1

theorem StateLine.ne_nil {i : Nat} {label : List Char} (hl : StateLine i label cs) : cs ≠ [] := by
  rintro rfl
  exact absurd (List.prefix_nil.1 hl.begins) (by decide)

theorem Section.mem {ls : List (List Char)} {ts : List (Transition Guard)}
    (hs : Section SaysTransition ls ts) : ∀ l ∈ ls, l = [] ∨ IsTransition l := by
  induction hs with
  | nil => nofun
  | blank _ ih => exact List.forall_mem_cons.2 ⟨.inl rfl, ih⟩
  | transition hl _ ih =>
    obtain ⟨guard, tokens, hl, -⟩ := hl
    exact List.forall_mem_cons.2 ⟨.inr ⟨guard, _, tokens, hl⟩, ih⟩

/-- A line of the body is blank, gives a transition or declares the state of a block. -/
theorem Blocks.mem {bs : Body} (hs : Blocks SaysTransition body bs) :
    ∀ l ∈ body, l = [] ∨ IsTransition l ∨ ∃ i ∈ bs.map Prod.fst, ∃ label, StateLine i label l := by
  induction hs with
  | nil => nofun
  | blank _ ih => exact List.forall_mem_cons.2 ⟨.inl rfl, ih⟩
  | @block i label cs ls rest ts bs hline hsection _ ih =>
    refine List.forall_mem_cons.2 ⟨.inr (.inr ⟨i, List.mem_cons_self, label, hline⟩),
      List.forall_mem_append.2 ⟨fun l hl => ?_, fun l hl => ?_⟩⟩
    · exact (hsection.mem l hl).imp_right .inl
    · refine (ih l hl).imp_right (.imp_right ?_)
      rintro ⟨j, hj, hstate⟩
      exact ⟨j, List.mem_cons_of_mem i hj, hstate⟩

theorem Section.not_state {ls : List (List Char)} {ts : List (Transition Guard)}
    (hs : Section SaysTransition ls ts) : ∀ l ∈ ls, ∀ i label, ¬StateLine i label l := by
  intro l hl i label hstate
  rcases hs.mem l hl with hnil | htransition
  · exact hstate.ne_nil hnil
  · exact hstate.not_isTransition htransition

theorem Blocks.index_mem {bs : Body} (hs : Blocks SaysTransition body bs) {i : Nat}
    {label : List Char} (hcs : cs ∈ body) (hl : StateLine i label cs) : i ∈ bs.map Prod.fst := by
  rcases hs.mem cs hcs with hnil | htransition | ⟨j, hj, label', hline⟩
  · exact absurd hnil hl.ne_nil
  · exact absurd htransition hl.not_isTransition
  · rwa [hl.index_eq hline]

theorem Blocks.ending_not_mem {bs : Body} (hs : Blocks SaysTransition body bs) :
    "--END--".toList ∉ body := by
  intro hmem
  rcases hs.mem _ hmem with hnil | ⟨_, _, _, hl⟩ | ⟨_, _, _, hl⟩
  · exact absurd hnil (by decide)
  · exact absurd hl.begins (by decide)
  · exact absurd hl.begins (by decide)

/-! ## The declaration of a state -/

theorem Section.blanks (n : Nat) : Section SaysTransition (List.replicate n []) [] := by
  induction n with
  | zero => exact .nil
  | succ n ih => exact .blank ih

theorem Section.append_blanks {ls blanks : List (List Char)} {ts : List (Transition Guard)}
    (hs : Section SaysTransition ls ts) (hblanks : ∀ l ∈ blanks, l = []) :
    Section SaysTransition (ls ++ blanks) ts := by
  induction hs with
  | nil =>
    rw [List.eq_replicate_of_mem hblanks, List.nil_append]
    exact .blanks _
  | blank _ ih => exact .blank ih
  | transition hl _ ih => exact .transition hl ih

/-- Nothing follows, or a state line does. -/
def AtState : List (List Char) → Prop
  | [] => True
  | cs :: _ => ∃ i label, StateLine i label cs

/-- Blank lines in front of blocks belong to the section before them. -/
theorem Blocks.exists_atState {bs : Body} (hs : Blocks SaysTransition body bs) :
    ∃ blanks rest, body = blanks ++ rest ∧ (∀ l ∈ blanks, l = []) ∧
      Blocks SaysTransition rest bs ∧ AtState rest := by
  induction hs with
  | nil => exact ⟨[], [], rfl, nofun, .nil, trivial⟩
  | blank _ ih =>
    obtain ⟨blanks, rest, rfl, hblanks, hrest, hat⟩ := ih
    exact ⟨[] :: blanks, rest, rfl, List.forall_mem_cons.2 ⟨rfl, hblanks⟩, hrest, hat⟩
  | block hl hsection hrest _ =>
    exact ⟨[], _, rfl, nofun, .block hl hsection hrest, _, _, hl⟩

/-- The body declares the state `i` in one line, and its transitions in the lines up to the next
state line. -/
def Declared (body : List (List Char)) (i : Nat) (s : State Guard) : Prop :=
  ∃ before cs ls rest, body = before ++ cs :: (ls ++ rest) ∧
    StateLine i s.label.toList cs ∧ Section SaysTransition ls s.transitions ∧ AtState rest ∧
    (∀ l ∈ ls, ∀ j label, ¬StateLine j label l) ∧
    ∀ l ∈ before ++ (ls ++ rest), ∀ label, ¬StateLine i label l

theorem Blocks.declared {bs : Body} (hs : Blocks SaysTransition body bs)
    (hdistinct : (bs.map Prod.fst).Nodup) {i : Nat} {s : State Guard} (hp : (i, s) ∈ bs) :
    Declared body i s := by
  induction hs with
  | nil => cases hp
  | blank _ ih =>
    obtain ⟨before, cs, ls, rest, rfl, hline, hsection, hat, hls, hother⟩ := ih hdistinct hp
    exact ⟨[] :: before, cs, ls, rest, rfl, hline, hsection, hat, hls,
      List.forall_mem_cons.2 ⟨fun _ hl => hl.ne_nil rfl, hother⟩⟩
  | @block j label cs ls rest ts bs hline hsection hrest ih =>
    rw [List.map_cons, List.nodup_cons] at hdistinct
    rcases List.mem_cons.1 hp with heq | hp
    · cases heq
      obtain ⟨blanks, rest, rfl, hblanks, hblocks, hat⟩ := hrest.exists_atState
      have hsection := hsection.append_blanks hblanks
      refine ⟨[], cs, ls ++ blanks, rest, by rw [List.append_assoc]; rfl, ?_, hsection, hat,
        hsection.not_state, ?_⟩
      · rwa [String.toList_ofList]
      · rw [List.nil_append]
        intro l hl label hstate
        rcases List.mem_append.1 hl with hl | hl
        · exact hsection.not_state l hl i label hstate
        · exact hdistinct.1 (hblocks.index_mem hl hstate)
    · obtain ⟨before, cs', ls', rest', rfl, hline', hsection', hat, hls, hother⟩ :=
        ih hdistinct.2 hp
      refine ⟨cs :: (ls ++ before), cs', ls', rest', by simp, hline', hsection', hat, hls, ?_⟩
      rw [List.cons_append, List.append_assoc]
      refine List.forall_mem_cons.2 ⟨fun _ hl => ?_, List.forall_mem_append.2
        ⟨fun l hl label => hsection.not_state l hl i label, hother⟩⟩
      rw [hl.index_eq hline] at hp
      exact hdistinct.1 (List.mem_map.2 ⟨_, hp, rfl⟩)

/-! ## The number of transitions -/

theorem Section.countP {ls : List (List Char)} {ts : List (Transition Guard)}
    (hs : Section SaysTransition ls ts) : ls.countP (IsTransition ·) = ts.length := by
  induction hs with
  | nil => rfl
  | blank _ ih => rw [List.countP_cons_of_neg (by simpa using not_isTransition_nil), ih]
  | transition hl _ ih =>
    obtain ⟨guard, tokens, hl, _⟩ := hl
    have htransition : IsTransition _ := ⟨guard, _, tokens, hl⟩
    rw [List.countP_cons_of_pos (by simpa using htransition), ih, List.length_cons]

theorem Blocks.countP {bs : Body} (hs : Blocks SaysTransition body bs) :
    body.countP (IsTransition ·) = (bs.flatMap (·.2.transitions)).length := by
  induction hs with
  | nil => rfl
  | blank _ ih => rw [List.countP_cons_of_neg (by simpa using not_isTransition_nil), ih]
  | block hl hsection _ ih =>
    rw [List.countP_cons_of_neg (by simpa using hl.not_isTransition), List.countP_append,
      hsection.countP, ih, List.flatMap_cons, List.length_append]

theorem Document.perm {header : List (List Char)} {bs : Body} {d : Description}
    (hd : Document header body h bs d) : (bs.map Prod.snd).Perm d.states := by
  have hindices := (hd.fits.indices hd.complete).map (d.states[·]?)
  have hbs : (bs.map Prod.fst).map (d.states[·]?) = (bs.map Prod.snd).map some := by
    rw [List.map_map, List.map_map]
    exact List.map_congr_left hd.state
  have hstates : (List.range d.states.length).map (d.states[·]?) = d.states.map some := by
    refine List.ext_getElem (by simp) fun i hi _ => ?_
    rw [List.length_map, List.length_range] at hi
    simp [hi]
  rw [hbs, hstates] at hindices
  exact (List.map_perm_map_iff (Option.some_injective _)).1 hindices

/-! ## Accepted texts -/

def Sections (lines header body : List (List Char)) : Prop :=
  "--BODY--".toList ∉ header ∧ "--END--".toList ∉ body ∧
    ∃ after, lines = header ++ "--BODY--".toList :: (body ++ "--END--".toList :: after)

/-- What the lines of the header and the body say of the description. -/
structure Describes (header body : List (List Char)) (d : Description) : Prop where
  count : LastLine "States:" (CountLine "States:" d.states.length) header
  pairs : LastLine "Acceptance:" (DeclaresPairs d.pairs) header
  initial : d.initial < d.states.length ∨
    d.states = [] ∧ d.initial = 0 ∧ ∀ l ∈ header, ¬"Start:".toList <+: l
  destination : ∀ s ∈ d.states, ∀ t ∈ s.transitions, t.destination < d.states.length
  declared : ∀ i s, d.states[i]? = some s → Declared body i s
  transitionCount : d.transitionCount = body.countP (IsTransition ·)

theorem Document.initial_lt_or {header : List (List Char)} {bs : Body} {d : Description}
    (hd : Document header body h bs d) : d.initial < d.states.length ∨
      d.states = [] ∧ d.initial = 0 ∧ ∀ l ∈ header, ¬"Start:".toList <+: l := by
  have hinitial := hd.initial
  unfold Header.initial at hinitial
  split at hinitial
  · rename_i hstart
    have hzero : 0 = d.initial := Except.ok.inj hinitial
    rcases hd.header.last LineSays.start_or with ⟨i, hi, -⟩ | ⟨-, hnone⟩
    · rw [hstart] at hi
      cases hi
    cases hstates : d.states with
    | nil => exact .inr ⟨rfl, hzero.symm, hnone⟩
    | cons s ss => exact .inl (hzero ▸ Nat.zero_lt_succ _)
  · split at hinitial
    · cases hinitial
    · rename_i _ i _ hlt
      have hi : i = d.initial := Except.ok.inj hinitial
      exact .inl (hi ▸ Nat.not_le.1 hlt)

theorem Document.describes {header : List (List Char)} {bs : Body} {d : Description}
    (hd : Document header body h bs d) : Describes header body d where
  count := by
    rcases hd.header.last LineSays.states_or with ⟨n, hn, hlast⟩ | ⟨hnone, -⟩
    · cases hd.states.symm.trans hn
      exact hlast
    · cases hd.states.symm.trans hnone
  pairs := by
    rcases hd.header.last LineSays.acceptance_or with ⟨pairs, hpairs, hlast⟩ | ⟨hnone, -⟩
    · cases hd.pairs.symm.trans hpairs
      exact hlast
    · cases hd.pairs.symm.trans hnone
  initial := hd.initial_lt_or
  destination s hs := by
    obtain ⟨p, hp, rfl⟩ := List.mem_map.1 (hd.perm.mem_iff.2 hs)
    exact hd.fits.destination_lt p hp
  declared i s hs := by
    obtain ⟨s', hp⟩ := hd.fits.exists_index hd.complete (List.getElem?_eq_some_iff.1 hs).1
    cases (hd.state _ hp).symm.trans hs
    exact hd.body.declared hd.fits.distinct hp
  transitionCount := by
    rw [Description.transitionCount, hd.body.countP, ← (hd.perm.flatMap_right _).length_eq,
      List.flatMap_map]

/-- A description whose indices are in range fails to become a machine for other reasons only. -/
theorem materialize_eq_error {d : Description}
    (hinitial : d.initial < d.states.length ∨ d.states = [])
    (hdest : ∀ s ∈ d.states, ∀ t ∈ s.transitions, t.destination < d.states.length)
    {props : List Predicate} {config : Config} {fresh : Identity} {e : BuildError}
    (he : d.materialize props config fresh = .error e) :
    (∃ source, e = .resolution source) ∨ e = .noStates ∨ e = .noProgressMetric := by
  unfold Description.materialize at he
  split at he
  · cases he
    exact .inl ⟨_, rfl⟩
  rename_i states k hstates
  have hbinds := bindStates_eq_ok hstates
  have hlength := hbinds.length_eq
  have hdangling : firstDangling states.length 0 states = none := by
    refine firstDangling_eq_none.2 fun s' hs' t' ht' => ?_
    obtain ⟨i, hi⟩ := List.mem_iff_getElem?.1 hs'
    obtain ⟨s, hs, hbind⟩ := exists_getElem?_of_forall₂ hbinds hi
    obtain ⟨j, hj⟩ := List.mem_iff_getElem?.1 ht'
    obtain ⟨t, ht, hbind⟩ := exists_getElem?_of_forall₂ hbind.transitions hj
    rw [hbind.destination, ← hlength]
    exact hdest s (List.mem_of_getElem? hs) t (List.mem_of_getElem? ht)
  simp only [Machine.ofStates, hdangling] at he
  split at he
  · cases he
    exact .inr (.inl rfl)
  rename_i hne
  split at he
  · rename_i hle
    rcases hinitial with hlt | hnil
    · omega
    · rw [hnil] at hlength
      exact absurd hlength.symm hne
  split at he <;> cases he
  exact .inr (.inr rfl)

/-- An accepted text describes what is read from it: the counts are those of its last headers, all
indices are in range, and every state is declared once, with the transitions of its section. -/
theorem describes_of_parse {text : String} {d : Description} (h : parse text = .ok d) :
    (∃ header body, Sections ((Text.lines text.toList).map trim) header body ∧
      Describes header body d) ∧
    ∀ props config fresh e, d.materialize props config fresh = .error e →
      (∀ i n, e ≠ .initialStateOutOfRange i n) ∧ ∀ i t n, e ≠ .destinationOutOfRange i t n := by
  obtain ⟨header, body, after, said, bs, hlines, hd⟩ := parseLines_eq_ok_iff.1 h
  have hdescribes := hd.describes
  refine ⟨⟨header, body, ⟨hd.header.body_not_mem, hd.body.ending_not_mem, after, hlines⟩,
    hdescribes⟩, fun props config fresh e he => ?_⟩
  obtain ⟨source, rfl⟩ | rfl | rfl :=
    materialize_eq_error (hdescribes.initial.imp_right And.left) hdescribes.destination he <;> simp

/-- A text that says the number of states twice and declares the second state first. -/
def reordered : String :=
  "States: 7\nAcceptance: 0 t\nStart: 1\nStates: 2\nAcceptance: 2 Fin(0) & Inf(1)\n--BODY--\n" ++
  "State: 1 \"goal\"\n[t] 1 \x7b1\x7d\n\nState: 0\n[0] 1\n[!0] 0 \x7b0\x7d\n--END--"

def reorderedDescription : Description :=
  ⟨1, [⟨.ofList ["0"], .ofList ["1"]⟩],
    [⟨"", [⟨.prop 0, 1, .ofList []⟩, ⟨.not (.prop 0), 0, .ofList ["0"]⟩]⟩,
      ⟨"goal", [⟨.literal true, 1, .ofList ["1"]⟩]⟩]⟩

theorem describes_of_parse_reordered : parse reordered = .ok reorderedDescription ∧
    (∃ header body, Sections ((Text.lines reordered.toList).map trim) header body ∧
      Describes header body reorderedDescription) ∧
    ∀ props config fresh e, reorderedDescription.materialize props config fresh = .error e →
      (∀ i n, e ≠ .initialStateOutOfRange i n) ∧ ∀ i t n, e ≠ .destinationOutOfRange i t n :=
  have hparse : parse reordered = .ok reorderedDescription := by decide +kernel
  ⟨hparse, describes_of_parse hparse⟩

end RabinReward.Hanoi
