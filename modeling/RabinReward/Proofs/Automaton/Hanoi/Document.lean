import RabinReward.Automaton.Hanoi.Reader
import RabinReward.Proofs.Automaton.Hanoi.Line
import RabinReward.Proofs.Guard.Value
import Mathlib.Data.List.Nodup
import Mathlib.Data.List.Perm.Subperm
import Mathlib.Data.List.Range

/-!
# The texts that are accepted

A text is read as a header, line by line (`HeaderSays`), and a body of blocks, each a state line
followed by the lines of its transitions (`Blocks`). `Document` puts both together with the
conditions that tie them to a description: the counts agree, the indices are in range and every
state is declared once. A text is accepted exactly when it is such a document
(`parseLines_eq_ok_iff`).

The reader keeps the declared states with the latest one first and adds a transition to it.
`Continues` says what a rest of the body makes of the states so far; it holds for what is read
(`readBody_eq_ok`). In the other direction sections and blocks are read as a whole
(`Section.readBody`, `Blocks.readBody`).
-/

namespace RabinReward.Hanoi

open Text

/-! ## The header -/

inductive LineSays (line : Nat) (h : Header) (cs : List Char) : Header → Prop where
  | states {n : Nat} : CountLine "States:" n cs → LineSays line h cs { h with states := some n }
  | start {i : Nat} : CountLine "Start:" i cs →
      LineSays line h cs { h with start := some (line, i) }
  /-- The number of states is known and the number of sets is twice that of pairs. -/
  | acceptance {condition : List Char} : h.states.isSome = true →
      AcceptanceLine ((rabinPairs condition).length * 2) condition cs →
      LineSays line h cs { h with acceptance := some ((rabinPairs condition).map pairOfSets) }
  | other : OtherLine cs → LineSays line h cs h

/-- The lines of the header, of which the first has the given number, one after the other. -/
inductive HeaderSays : Nat → Header → List (List Char) → Header → Prop where
  | nil {line : Nat} {h : Header} : HeaderSays line h [] h
  | cons {line : Nat} {h h' h'' : Header} {cs : List Char} {rest : List (List Char)} :
      LineSays line h cs h' → HeaderSays (line + 1) h' rest h'' →
      HeaderSays line h (cs :: rest) h''

variable {line count : Nat} {cs : List Char} {lines : List (List Char)} {h h' : Header}

theorem lineSays_of_step (hs : h.step line cs = .ok h') (hbody : headerLine cs ≠ .body) :
    LineSays line h cs h' := by
  unfold Header.step at hs
  have hform := headerForm cs
  generalize headerLine cs = said at hs hform hbody
  cases hform with
  | body _ => exact absurd rfl hbody
  | states hn =>
    cases hs
    exact .states hn
  | start hi =>
    cases hs
    exact .start hi
  | malformed => cases hs
  | other ho =>
    cases hs
    exact .other ho
  | acceptance _ =>
    simp only at hs
    split at hs
    · cases hs
    rename_i hstates
    split at hs
    · cases hs
    rename_i sets pairs hread
    obtain ⟨condition, hline, rfl⟩ := acceptance?_eq_some_iff.1 hread
    split at hs
    · rename_i hsets
      cases hs
      subst hsets
      refine .acceptance ?_ hline
      rwa [Bool.not_eq_true, Option.isNone_eq_false_iff] at hstates
    · cases hs

theorem LineSays.step (hl : LineSays line h cs h') :
    h.step line cs = .ok h' ∧ headerLine cs ≠ .body := by
  unfold Header.step
  cases hl with
  | states hn => simp [headerLine_states hn]
  | start hi => simp [headerLine_start hi]
  | other ho => simp [headerLine_other ho]
  | @acceptance condition hstates hline =>
    rw [headerLine_acceptance hline.begins, acceptance?_eq_some_iff.2 ⟨condition, hline, rfl⟩]
    simp [← Option.not_isSome, hstates]

theorem readHeader_eq_ok {rest : List (List Char)} {k : Nat}
    (hr : readHeader h line lines = .ok (h', some (k, rest))) :
    ∃ header, lines = header ++ "--BODY--".toList :: rest ∧ HeaderSays line h header h' := by
  induction lines generalizing h line with
  | nil => cases hr
  | cons cs ls ih =>
    rw [readHeader] at hr
    split at hr
    · rename_i hbody
      cases hr
      have hform := headerForm cs
      rw [hbody] at hform
      cases hform with
      | body hcs => exact ⟨[], by rw [hcs]; rfl, .nil⟩
    · rename_i hbody
      split at hr
      · rename_i h₁ hstep
        obtain ⟨header, rfl, hsays⟩ := ih hr
        exact ⟨cs :: header, rfl, .cons (lineSays_of_step hstep hbody) hsays⟩
      · cases hr

theorem HeaderSays.readHeader {header : List (List Char)} (hs : HeaderSays line h header h')
    (rest : List (List Char)) :
    readHeader h line (header ++ "--BODY--".toList :: rest) =
      .ok (h', some (line + header.length + 1, rest)) := by
  induction hs with
  | nil => rfl
  | @cons line h h₁ h₂ cs ls hline _ ih =>
    obtain ⟨hstep, hbody⟩ := hline.step
    rw [List.cons_append, Hanoi.readHeader, if_neg hbody, hstep]
    simp only [ih, List.length_cons, Nat.add_right_comm, Nat.add_assoc]

/-! ## The body -/

def SaysTransition (t : Transition Guard) (cs : List Char) : Prop :=
  ∃ guard tokens, TransitionLine guard t.destination tokens cs ∧
    Guard.parseChars guard = .ok t.guard ∧ t.tokens = .ofList ((words tokens).map String.ofList)

section

variable (R : Transition Guard → List Char → Prop)

/-- Lines that give transitions, in order; blank lines are skipped. -/
inductive Section : List (List Char) → List (Transition Guard) → Prop where
  | nil : Section [] []
  | blank {ls : List (List Char)} {ts : List (Transition Guard)} : Section ls ts →
      Section ([] :: ls) ts
  | transition {cs : List Char} {t : Transition Guard} {ls : List (List Char)}
      {ts : List (Transition Guard)} : R t cs → Section ls ts → Section (cs :: ls) (t :: ts)

/-- State lines, each followed by the transitions of the state. -/
inductive Blocks : List (List Char) → Body → Prop where
  | nil : Blocks [] []
  | blank {ls : List (List Char)} {bs : Body} : Blocks ls bs → Blocks ([] :: ls) bs
  | block {i : Nat} {label cs : List Char} {ls rest : List (List Char)}
      {ts : List (Transition Guard)} {bs : Body} : StateLine i label cs → Section R ls ts →
      Blocks rest bs → Blocks (cs :: (ls ++ rest)) ((i, ⟨String.ofList label, ts⟩) :: bs)

end

/-- The states are declared once and all indices are in range. -/
structure Body.Fits (b : Body) (count : Nat) : Prop where
  distinct : (b.map Prod.fst).Nodup
  index_lt : ∀ p ∈ b, p.1 < count
  destination_lt : ∀ p ∈ b, ∀ t ∈ p.2.transitions, t.destination < count

/-- What a rest of the body makes of the states so far: first come transitions of the latest state,
then further blocks. -/
inductive Continues : Body → List (List Char) → Body → Prop where
  | none {body : List (List Char)} {bs : Body} : Blocks SaysTransition body bs →
      Continues [] body bs.reverse
  | some {i : Nat} {s : State Guard} {b bs : Body} {ls rest : List (List Char)}
      {ts : List (Transition Guard)} : Section SaysTransition ls ts →
      Blocks SaysTransition rest bs → Continues ((i, s) :: b) (ls ++ rest)
        (bs.reverse ++ (i, ⟨s.label, s.transitions ++ ts⟩) :: b)

variable {b b' : Body} {body : List (List Char)}

theorem Continues.ofBlocks {bs : Body} (h : Blocks SaysTransition body bs) (b : Body) :
    Continues b body (bs.reverse ++ b) := by
  cases b with
  | nil =>
    rw [List.append_nil]
    exact .none h
  | cons p b =>
    have hcontinues := Continues.some (i := p.1) (s := p.2) (b := b) .nil h
    simpa only [List.nil_append, List.append_nil] using hcontinues

theorem Continues.blank (h : Continues b body b') : Continues b ([] :: body) b' := by
  cases h with
  | none hblocks => exact .none hblocks.blank
  | some hsection hblocks => exact .some hsection.blank hblocks

theorem Continues.state {i : Nat} {label : List Char} (hl : StateLine i label cs)
    (h : Continues ((i, ⟨String.ofList label, []⟩) :: b) body b') :
    Continues b (cs :: body) b' := by
  cases h with
  | some hsection hblocks =>
    have hcontinues := Continues.ofBlocks (.block hl hsection hblocks) b
    simpa only [List.reverse_cons, List.append_assoc, List.singleton_append, List.nil_append]
      using hcontinues

theorem Continues.transition {i : Nat} {s : State Guard} {t : Transition Guard}
    (hl : SaysTransition t cs)
    (h : Continues ((i, ⟨s.label, s.transitions ++ [t]⟩) :: b) body b') :
    Continues ((i, s) :: b) (cs :: body) b' := by
  cases h with
  | some hsection hblocks =>
    rw [List.append_assoc, List.singleton_append]
    exact .some (hsection.transition hl) hblocks

/-! ## Reading the body -/

theorem Body.fits_nil (count : Nat) : Body.Fits [] count :=
  ⟨List.nodup_nil, nofun, nofun⟩

theorem lookup_eq_none_iff {i : Nat} : b.lookup i = none ↔ i ∉ b.map Prod.fst := by
  rw [List.lookup_eq_none_iff]
  simp only [List.mem_map, not_exists, not_and, bne_iff_ne, ne_eq]
  exact forall₂_congr fun p _ => not_congr eq_comm

theorem Body.fits_cons_iff {i : Nat} {s : State Guard} : Body.Fits ((i, s) :: b) count ↔
    b.lookup i = none ∧ i < count ∧ (∀ t ∈ s.transitions, t.destination < count) ∧
      b.Fits count := by
  rw [lookup_eq_none_iff]
  constructor
  · rintro ⟨hdistinct, hindex, hdest⟩
    rw [List.map_cons, List.nodup_cons] at hdistinct
    rw [List.forall_mem_cons] at hindex hdest
    exact ⟨hdistinct.1, hindex.1, hdest.1, hdistinct.2, hindex.2, hdest.2⟩
  · rintro ⟨hnew, hindex, hdest, hb⟩
    refine ⟨?_, List.forall_mem_cons.2 ⟨hindex, hb.index_lt⟩,
      List.forall_mem_cons.2 ⟨hdest, hb.destination_lt⟩⟩
    rw [List.map_cons]
    exact List.nodup_cons.2 ⟨hnew, hb.distinct⟩

theorem Body.Fits.append_right {b₀ : Body} (hb : Body.Fits (b₀ ++ b) count) : b.Fits count where
  distinct := by
    have hdistinct := hb.distinct
    rw [List.map_append] at hdistinct
    exact (List.nodup_append.1 hdistinct).2.1
  index_lt p hp := hb.index_lt p (List.mem_append_right _ hp)
  destination_lt p hp := hb.destination_lt p (List.mem_append_right _ hp)

theorem Body.addState_eq_ok_iff {i : Nat} {label : List Char} :
    b.addState count line i label = .ok b' ↔
      (i < count ∧ b.lookup i = none) ∧ b' = (i, ⟨String.ofList label, []⟩) :: b := by
  rw [Body.addState]
  split
  · rename_i hcount
    simp [Nat.not_lt.2 hcount]
  · rename_i hcount
    split
    · rename_i hsome
      simp [Option.isSome_iff_ne_none.1 hsome]
    · rename_i hnone
      rw [Bool.not_eq_true, Option.isSome_eq_false_iff, Option.isNone_iff_eq_none] at hnone
      simp [Nat.not_le.1 hcount, hnone, eq_comm]

theorem Body.addTransition_eq_ok_iff {guard tokens : List Char} {destination : Nat} :
    b.addTransition count line guard destination tokens = .ok b' ↔
      ∃ i s b₀ g, b = (i, s) :: b₀ ∧ destination < count ∧ Guard.parseChars guard = .ok g ∧
        b' = (i, ⟨s.label, s.transitions ++
          [⟨g, destination, .ofList ((words tokens).map String.ofList)⟩]⟩) :: b₀ := by
  cases b with
  | nil => simp [Body.addTransition]
  | cons p b =>
    obtain ⟨i, s⟩ := p
    rw [Body.addTransition]
    split
    · rename_i hcount
      simp [Nat.not_lt.2 hcount]
    · rename_i hcount
      cases Guard.parseChars guard with
      | error e => simp
      | ok g => simp [Nat.not_le.1 hcount, eq_comm]

theorem readBody_eq_ok (hb : b.Fits count) (hr : readBody count b line lines = .ok b') :
    b'.Fits count ∧
      ∃ body after, lines = body ++ "--END--".toList :: after ∧ Continues b body b' := by
  induction lines generalizing b line with
  | nil => cases hr
  | cons cs ls ih =>
    rw [readBody] at hr
    have hform := bodyForm cs
    generalize bodyLine cs = said at hr hform
    cases hform with
    | malformed => cases hr
    | ending hcs =>
      cases hr
      exact ⟨hb, [], ls, by rw [hcs]; rfl, .ofBlocks .nil _⟩
    | blank hcs =>
      obtain ⟨hfits, body, after, rfl, hcontinues⟩ := ih hb hr
      exact ⟨hfits, [] :: body, after, by rw [hcs]; rfl, hcontinues.blank⟩
    | @state i label hline =>
      simp only at hr
      split at hr
      · rename_i b₁ hadd
        obtain ⟨⟨hcount, hnew⟩, rfl⟩ := Body.addState_eq_ok_iff.1 hadd
        have hb₁ : Body.Fits ((i, ⟨String.ofList label, []⟩) :: b) count :=
          Body.fits_cons_iff.2 ⟨hnew, hcount, fun _ ht => absurd ht List.not_mem_nil, hb⟩
        obtain ⟨hfits, body, after, rfl, hcontinues⟩ := ih hb₁ hr
        exact ⟨hfits, cs :: body, after, rfl, hcontinues.state hline⟩
      · cases hr
    | @transition guard tokens destination hline =>
      simp only at hr
      split at hr
      · rename_i b₁ hadd
        obtain ⟨i, s, b₀, g, rfl, hcount, hguard, rfl⟩ := Body.addTransition_eq_ok_iff.1 hadd
        obtain ⟨hnew, hindex, hdest, hb₀⟩ := Body.fits_cons_iff.1 hb
        have hb₁ : Body.Fits ((i, ⟨s.label, s.transitions ++
            [⟨g, destination, .ofList ((words tokens).map String.ofList)⟩]⟩) :: b₀) count :=
          Body.fits_cons_iff.2 ⟨hnew, hindex,
            List.forall_mem_append.2 ⟨hdest, List.forall_mem_singleton.2 hcount⟩, hb₀⟩
        obtain ⟨hfits, body, after, rfl, hcontinues⟩ := ih hb₁ hr
        exact ⟨hfits, cs :: body, after, rfl, hcontinues.transition ⟨_, _, hline, hguard, rfl⟩⟩
      · cases hr

theorem readBody_blank (rest : List (List Char)) :
    readBody count b line ([] :: rest) = readBody count b (line + 1) rest := rfl

theorem readBody_ending (rest : List (List Char)) :
    readBody count b line ("--END--".toList :: rest) = .ok b := rfl

theorem Section.readBody {ls : List (List Char)} {ts : List (Transition Guard)}
    (hs : Section SaysTransition ls ts) (hdest : ∀ t ∈ ts, t.destination < count) (i : Nat)
    (s : State Guard) (b : Body) (line : Nat) (rest : List (List Char)) :
    readBody count ((i, s) :: b) line (ls ++ rest) =
      readBody count ((i, ⟨s.label, s.transitions ++ ts⟩) :: b) (line + ls.length) rest := by
  induction hs generalizing s line with
  | nil => rw [List.append_nil]; rfl
  | blank _ ih =>
    rw [List.cons_append, readBody_blank, ih hdest, List.length_cons, Nat.add_right_comm,
      Nat.add_assoc]
  | @transition cs t ls ts hline _ ih =>
    obtain ⟨guard, tokens, hline, hguard, htokens⟩ := hline
    obtain ⟨hcount, hdest⟩ := List.forall_mem_cons.1 hdest
    have hadd : Body.addTransition ((i, s) :: b) count line guard t.destination tokens =
        .ok ((i, ⟨s.label, s.transitions ++ [t]⟩) :: b) :=
      Body.addTransition_eq_ok_iff.2 ⟨i, s, b, t.guard, rfl, hcount, hguard, by rw [← htokens]⟩
    rw [List.cons_append, Hanoi.readBody, bodyLine_transition hline]
    simp only [hadd]
    rw [ih hdest, List.append_assoc, List.length_cons, Nat.add_right_comm, Nat.add_assoc]
    rfl

theorem Blocks.readBody {ls : List (List Char)} {bs : Body} (hs : Blocks SaysTransition ls bs)
    (hfits : Body.Fits (bs.reverse ++ b) count) (line : Nat) (rest : List (List Char)) :
    readBody count b line (ls ++ rest) =
      readBody count (bs.reverse ++ b) (line + ls.length) rest := by
  induction hs generalizing b line with
  | nil => rfl
  | blank _ ih =>
    rw [List.cons_append, readBody_blank, ih hfits, List.length_cons, Nat.add_right_comm,
      Nat.add_assoc]
  | @block i label cs ls rest' ts bs hline hsection _ ih =>
    rw [List.reverse_cons, List.append_assoc, List.singleton_append] at hfits ⊢
    obtain ⟨hnew, hindex, hdest, -⟩ := Body.fits_cons_iff.1 hfits.append_right
    have hadd : Body.addState b count line i label = .ok ((i, ⟨String.ofList label, []⟩) :: b) :=
      Body.addState_eq_ok_iff.2 ⟨⟨hindex, hnew⟩, rfl⟩
    rw [List.cons_append, Hanoi.readBody, bodyLine_state hline]
    simp only [hadd]
    rw [List.append_assoc, hsection.readBody hdest, List.nil_append, ih hfits]
    congr 1
    simp only [List.length_cons, List.length_append]
    omega

/-! ## The states in order -/

theorem Body.fits_reverse : Body.Fits b.reverse count ↔ b.Fits count := by
  constructor <;> rintro ⟨hdistinct, hindex, hdest⟩
  · rw [List.map_reverse, List.nodup_reverse] at hdistinct
    exact ⟨hdistinct, fun p hp => hindex p (List.mem_reverse.2 hp),
      fun p hp => hdest p (List.mem_reverse.2 hp)⟩
  · refine ⟨?_, fun p hp => hindex p (List.mem_reverse.1 hp),
      fun p hp => hdest p (List.mem_reverse.1 hp)⟩
    rwa [List.map_reverse, List.nodup_reverse]

theorem Body.Fits.lookup (hb : b.Fits count) {p : Nat × State Guard} (hp : p ∈ b) :
    b.lookup p.1 = some p.2 := by
  obtain ⟨b₁, b₂, rfl⟩ := List.append_of_mem hp
  refine List.lookup_eq_some_iff.2 ⟨b₁, b₂, rfl, fun q hq => bne_iff_ne.2 fun heq => ?_⟩
  have hdistinct := hb.distinct
  rw [List.map_append, List.nodup_append] at hdistinct
  exact hdistinct.2.2 q.1 (List.mem_map_of_mem hq) p.1 (List.mem_map_of_mem List.mem_cons_self)
    heq.symm

/-- As many states as there are indices, so every index is declared. -/
theorem Body.Fits.indices (hb : b.Fits count) (hlength : b.length = count) :
    (b.map Prod.fst).Perm (List.range count) := by
  have hsubset : b.map Prod.fst ⊆ List.range count := by
    intro i hi
    obtain ⟨p, hp, rfl⟩ := List.mem_map.1 hi
    exact List.mem_range.2 (hb.index_lt p hp)
  refine (List.subperm_of_subset hb.distinct hsubset).perm_of_length_le ?_
  rw [List.length_range, List.length_map, hlength]

theorem Body.Fits.exists_index (hb : b.Fits count) (hlength : b.length = count) {i : Nat}
    (hi : i < count) : ∃ s, (i, s) ∈ b := by
  have hmem := (hb.indices hlength).mem_iff.2 (List.mem_range.2 hi)
  obtain ⟨⟨_, s⟩, hp, rfl⟩ := List.mem_map.1 hmem
  exact ⟨s, hp⟩

theorem map_some_filterMap {α β : Type} {f : α → Option β} {l : List α}
    (h : ∀ a ∈ l, (f a).isSome = true) : (l.filterMap f).map some = l.map f := by
  rw [List.map_filterMap, ← List.filterMap_eq_map]
  refine List.filterMap_congr fun a ha => ?_
  obtain ⟨b, hb⟩ := Option.isSome_iff_exists.1 (h a ha)
  rw [Function.comp_apply, hb]
  rfl

theorem Body.Fits.states_eq_iff (hb : b.Fits count) (hlength : b.length = count)
    {states : List (State Guard)} :
    b.states count = states ↔ states.length = count ∧ ∀ p ∈ b, states[p.1]? = some p.2 := by
  have hmap : (b.states count).map some = (List.range count).map (b.lookup ·) := by
    refine map_some_filterMap fun i hi => ?_
    obtain ⟨s, hp⟩ := hb.exists_index hlength (List.mem_range.1 hi)
    rw [hb.lookup hp, Option.isSome_some]
  have hcount : (b.states count).length = count := by
    have := congrArg List.length hmap
    rwa [List.length_map, List.length_map, List.length_range] at this
  have hget : ∀ p ∈ b, (b.states count)[p.1]? = some p.2 := by
    intro p hp
    have := congrArg (·[p.1]?) hmap
    simp only [List.getElem?_map, List.getElem?_range (hb.index_lt p hp), Option.map_some,
      hb.lookup hp, Option.map_eq_some_iff, Option.some.injEq, exists_eq_right] at this
    exact this
  constructor
  · intro hstates
    rw [← hstates]
    exact ⟨hcount, hget⟩
  · rintro ⟨hstates, hall⟩
    refine List.ext_getElem? fun i => ?_
    rcases Nat.lt_or_ge i count with hi | hi
    · obtain ⟨s, hp⟩ := hb.exists_index hlength hi
      rw [hget _ hp, hall _ hp]
    · rw [List.getElem?_eq_none (hcount.symm ▸ hi), List.getElem?_eq_none (hstates.symm ▸ hi)]

/-! ## Whole texts -/

/-- A header and a body give the description. -/
structure Document (header body : List (List Char)) (h : Header) (bs : Body) (d : Description) :
    Prop where
  header : HeaderSays 1 .empty header h
  states : h.states = some d.states.length
  pairs : h.acceptance = some d.pairs
  initial : h.initial d.states.length = .ok d.initial
  body : Blocks SaysTransition body bs
  fits : bs.Fits d.states.length
  complete : bs.length = d.states.length
  state : ∀ p ∈ bs, d.states[p.1]? = some p.2

theorem parseLines_eq_ok_iff {d : Description} : parseLines lines = .ok d ↔
    ∃ header body after h bs,
      lines = header ++ "--BODY--".toList :: (body ++ "--END--".toList :: after) ∧
      Document header body h bs d := by
  constructor
  · intro hd
    rw [parseLines] at hd
    obtain ⟨⟨h, read⟩, hheader, hd⟩ := bind_eq_ok.1 hd
    simp only at hd
    split at hd
    swap
    · cases hd
    rename_i count hcount
    split at hd
    swap
    · cases hd
    rename_i pairs hpairs
    split at hd
    swap
    · cases hd
    rename_i line rest
    obtain ⟨initial, hinitial, hd⟩ := bind_eq_ok.1 hd
    obtain ⟨b, hbody, hd⟩ := bind_eq_ok.1 hd
    split at hd
    swap
    · cases hd
    rename_i hlength
    cases hd
    obtain ⟨header, rfl, hsays⟩ := readHeader_eq_ok hheader
    obtain ⟨hfits, body, after, rfl, hcontinues⟩ := readBody_eq_ok (Body.fits_nil count) hbody
    cases hcontinues with
    | @none _ bs hblocks =>
    obtain ⟨hstates, hget⟩ := (hfits.states_eq_iff hlength).1 rfl
    refine ⟨header, body, after, h, bs, rfl, hsays, ?_, hpairs, ?_, hblocks, ?_, ?_, ?_⟩
    · rw [hstates]; exact hcount
    · rw [hstates]; exact hinitial
    · rw [hstates]; exact Body.fits_reverse.1 hfits
    · rw [hstates, ← hlength, List.length_reverse]
    · exact fun p hp => hget p (List.mem_reverse.2 hp)
  · rintro ⟨header, body, after, h, bs, rfl, hdoc⟩
    have hfits := Body.fits_reverse.2 hdoc.fits
    have hlength : bs.reverse.length = d.states.length := by
      rw [List.length_reverse, hdoc.complete]
    have hstates := (hfits.states_eq_iff hlength).2
      ⟨rfl, fun p hp => hdoc.state p (List.mem_reverse.1 hp)⟩
    have hbody (line : Nat) : readBody d.states.length [] line (body ++ "--END--".toList :: after) =
        .ok bs.reverse := by
      rw [hdoc.body.readBody (by rwa [List.append_nil]), List.append_nil, readBody_ending]
    rw [parseLines, hdoc.header.readHeader]
    simp only [bind, Except.bind, hdoc.states, hdoc.pairs, hdoc.initial, hbody]
    rw [if_pos hlength, hstates]
    rfl

end RabinReward.Hanoi
