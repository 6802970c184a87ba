import RabinReward.Proofs.Automaton.Hanoi.Rendering

/-!
# Every writable description can be written

The conditions of `Writable` are what the format needs: each part of a writable description has a
line without a line feed, and the lines laid out under one another are a text of the description
(`exists_renders`).
-/

namespace RabinReward.Hanoi

open Text

theorem countLine_repr (name : String) {n : Nat} (hn : n < wordBound) :
    CountLine name n (name.toList ++ ([' '] ++ (Nat.repr n).toList)) :=
  ⟨hn, [' '], _, rfl, by decide, isNumeral_repr n⟩

theorem feed_not_mem_digits (n : Nat) : '\n' ∉ Nat.toDigits 10 n := by
  rw [← Nat.toList_repr]
  exact fun hfeed => absurd ((isNumeral_repr n).digits '\n' hfeed) (by decide)

theorem Writable.exists_pair {d : Description} (hd : Writable d) {p : RabinPair}
    (hp : p ∈ d.pairs) : ∃ cs, RendersPair p cs ∧ '\n' ∉ cs := by
  obtain ⟨i, j, hi, hj, hfin, hinf⟩ := hd.pairs p hp
  refine ⟨_, .bare hfin hinf ⟨hi, hj, _, [], [], _, rfl, isNumeral_repr i, nofun, nofun,
    isNumeral_repr j⟩, ?_⟩
  simp [feed_not_mem_digits]

theorem exists_pairs {ps : List RabinPair} (hne : ps ≠ [])
    (hps : ∀ p ∈ ps, ∃ cs, RendersPair p cs ∧ '\n' ∉ cs) :
    ∃ cs, RendersPairs ps cs ∧ '\n' ∉ cs := by
  induction ps with
  | nil => exact absurd rfl hne
  | cons p ps ih =>
    obtain ⟨⟨cs, hcs, hfeed⟩, hps⟩ := List.forall_mem_cons.1 hps
    by_cases hnil : ps = []
    · subst hnil
      exact ⟨cs, .last hcs, hfeed⟩
    · obtain ⟨rest, hrest, hfeed'⟩ := ih hnil hps
      refine ⟨_, .cons hcs (u := [' ']) (v := [' ']) (by decide) (by decide) hrest, ?_⟩
      simp [hfeed, hfeed']

/-- The condition follows a space, so it does not continue the number of sets. -/
theorem Writable.exists_condition {d : Description} (hd : Writable d) :
    ∃ cs, RendersCondition d.pairs cs ∧ (∀ c ∈ cs.head?, isDigit c = false) ∧ '\n' ∉ cs := by
  by_cases hnil : d.pairs = []
  · rw [hnil]
    exact ⟨[], .none, nofun, List.not_mem_nil⟩
  · obtain ⟨cs, hcs, hfeed⟩ := exists_pairs hnil fun p => hd.exists_pair
    refine ⟨[' '] ++ cs, .some (by decide) hcs, ?_, by simp [hfeed]⟩
    rintro c ⟨⟩
    rfl

theorem Writable.exists_header {d : Description} (hd : Writable d) :
    ∃ header, RendersHeader d header ∧ ∀ l ∈ header, '\n' ∉ l := by
  obtain ⟨condition, hcondition, hhead, hfeed⟩ := hd.exists_condition
  have hstates := countLine_repr "States:" hd.states_lt
  have hacceptance : AcceptanceLine (2 * d.pairs.length) condition ("Acceptance:".toList ++
      ([' '] ++ ((Nat.repr (2 * d.pairs.length)).toList ++ condition))) :=
    ⟨hd.pairs_lt, [' '], _, rfl, by decide, isNumeral_repr _, hhead⟩
  rcases hd.initial with hlt | ⟨-, hzero⟩
  · have hstart : StartLine d _ :=
      ⟨hlt, countLine_repr "Start:" (Nat.lt_trans hlt hd.states_lt)⟩
    refine ⟨_, .intro [] [] [_] hstates hacceptance hcondition
      (by simpa using .inr hstart) (.inr ⟨_, by simp, hstart⟩), ?_⟩
    simp [hfeed, feed_not_mem_digits]
  · refine ⟨_, .intro [] [] [] hstates hacceptance hcondition
      (by simp) (.inl hzero), ?_⟩
    simp [hfeed, feed_not_mem_digits]

theorem exists_separated {ws : List (List Char)}
    (hws : ∀ w ∈ ws, w ≠ [] ∧ ∀ c ∈ w, isBlank c = false ∧ c ≠ '}') :
    ∃ cs, Separated ws cs ∧ '}' ∉ cs ∧ '\n' ∉ cs := by
  induction ws with
  | nil => exact ⟨[], .nil, List.not_mem_nil, List.not_mem_nil⟩
  | cons w ws ih =>
    obtain ⟨⟨hne, hw⟩, hws⟩ := List.forall_mem_cons.1 hws
    obtain ⟨cs, hcs, hbrace, hfeed⟩ := ih hws
    refine ⟨w ++ ' ' :: cs, .word hne (fun c hc => (hw c hc).1) ?_ (.blank rfl hcs), ?_, ?_⟩
    · rintro c ⟨⟩
      rfl
    · simpa [hbrace] using fun hmem => (hw '}' hmem).2 rfl
    · simpa [hfeed] using fun hmem => absurd (hw '\n' hmem).1 (by decide)

theorem exists_transition {t : Transition Guard} (hlt : t.destination < wordBound)
    (htokens : ∀ x ∈ t.tokens, x.toList ≠ [] ∧ ∀ c ∈ x.toList, isBlank c = false ∧ c ≠ '}') :
    ∃ cs, RendersTransition t cs ∧ '\n' ∉ cs := by
  have hwords : ∀ w ∈ t.tokens.toList.map String.toList,
      w ≠ [] ∧ ∀ c ∈ w, isBlank c = false ∧ c ≠ '}' := by
    intro w hw
    obtain ⟨x, hx, rfl⟩ := List.mem_map.1 hw
    exact htokens x hx
  obtain ⟨tokens, htokens, hbrace, hfeed⟩ := exists_separated hwords
  have hbracket : ']' ∉ t.guard.print.toList := Guard.not_mem_print (by decide) (by decide)
  have hguard : '\n' ∉ t.guard.print.toList := Guard.not_mem_print (by decide) (by decide)
  refine ⟨_, ⟨tokens, _, ⟨hbracket, hlt, [' '], _, _, rfl, by simp, by decide,
    isNumeral_repr t.destination, @TokenPart.braces [' '] _ (by decide) hbrace⟩, htokens, ?_⟩, ?_⟩
  · intro x
    rw [SortedSet.mem_def, List.mem_map]
    constructor
    · exact fun hx => ⟨x, hx, rfl⟩
    · rintro ⟨y, hy, heq⟩
      rwa [← String.toList_inj.1 heq]
  · simp [hguard, hfeed, feed_not_mem_digits]

theorem exists_section {ts : List (Transition Guard)}
    (hts : ∀ t ∈ ts, ∃ cs, RendersTransition t cs ∧ '\n' ∉ cs) :
    ∃ ls, Section RendersTransition ls ts ∧ ∀ l ∈ ls, '\n' ∉ l := by
  induction ts with
  | nil => exact ⟨[], .nil, nofun⟩
  | cons t ts ih =>
    obtain ⟨⟨cs, hcs, hfeed⟩, hts⟩ := List.forall_mem_cons.1 hts
    obtain ⟨ls, hls, hfeeds⟩ := ih hts
    exact ⟨cs :: ls, .transition hcs hls, List.forall_mem_cons.2 ⟨hfeed, hfeeds⟩⟩

structure WritableState (i : Nat) (s : State Guard) : Prop where
  index_lt : i < wordBound
  quote : '"' ∉ s.label.toList
  feed : '\n' ∉ s.label.toList
  transitions : ∀ t ∈ s.transitions, ∃ cs, RendersTransition t cs ∧ '\n' ∉ cs

theorem exists_blocks {bs : Body} (hbs : ∀ p ∈ bs, WritableState p.1 p.2) :
    ∃ body, Blocks RendersTransition body bs ∧ ∀ l ∈ body, '\n' ∉ l := by
  induction bs with
  | nil => exact ⟨[], .nil, nofun⟩
  | cons p bs ih =>
    obtain ⟨i, label, ts⟩ := p
    obtain ⟨⟨hlt, hquote, hfeed, hts⟩, hbs⟩ := List.forall_mem_cons.1 hbs
    obtain ⟨ls, hls, hfeeds⟩ := exists_section hts
    obtain ⟨rest, hrest, hfeeds'⟩ := ih hbs
    have hline : StateLine i label.toList ("State:".toList ++ ([' '] ++ ((Nat.repr i).toList ++
        ([' '] ++ '"' :: (label.toList ++ ['"']))))) :=
      ⟨hlt, [' '], _, _, rfl, by decide, isNumeral_repr i, .quoted (by simp) (by decide) hquote⟩
    have hblocks := Blocks.block hline hls hrest
    rw [String.ofList_toList] at hblocks
    refine ⟨_, hblocks, List.forall_mem_cons.2 ⟨?_, List.forall_mem_append.2 ⟨hfeeds, hfeeds'⟩⟩⟩
    simp [hfeed, feed_not_mem_digits]

theorem Writable.state {d : Description} (hd : Writable d) {p : Nat × State Guard}
    (hp : p ∈ numbered d) : WritableState p.1 p.2 := by
  obtain ⟨hlt, -⟩ := List.getElem?_eq_some_iff.1 (mem_numbered.1 hp)
  have hmem := List.mem_of_getElem? (mem_numbered.1 hp)
  obtain ⟨hquote, hfeed⟩ := hd.label p.2 hmem
  exact ⟨Nat.lt_trans hlt hd.states_lt, hquote, hfeed, fun t ht => exists_transition
    (Nat.lt_trans (hd.destination p.2 hmem t ht) hd.states_lt) (hd.tokens p.2 hmem t ht)⟩

theorem exists_laidOut {contents : List (List Char)} (hne : contents ≠ [])
    (hfeed : ∀ l ∈ contents, '\n' ∉ l) : ∃ cs, LaidOut contents cs := by
  induction contents with
  | nil => exact absurd rfl hne
  | cons l contents ih =>
    obtain ⟨hl, hfeed⟩ := List.forall_mem_cons.1 hfeed
    have hl : '\n' ∉ [] ++ l ++ [] := by simpa using hl
    by_cases hnil : contents = []
    · subst hnil
      exact ⟨_, .last (u := []) (v := []) nofun nofun hl⟩
    · obtain ⟨cs, hcs⟩ := ih hnil hfeed
      exact ⟨_, .cons (u := []) (v := []) nofun nofun hl hcs⟩

theorem exists_renders {d : Description} (hd : Writable d) : ∃ text, Renders d text := by
  obtain ⟨header, hheader, hfeed⟩ := hd.exists_header
  obtain ⟨body, hbody, hfeed'⟩ := exists_blocks fun p => hd.state (p := p)
  have hfeeds : ∀ l ∈ header ++ "--BODY--".toList :: (body ++ ["--END--".toList]), '\n' ∉ l := by
    refine List.forall_mem_append.2 ⟨hfeed, List.forall_mem_cons.2 ⟨by decide,
      List.forall_mem_append.2 ⟨hfeed', ?_⟩⟩⟩
    rw [List.forall_mem_singleton]
    decide
  obtain ⟨cs, hcs⟩ := exists_laidOut (by simp) hfeeds
  exact ⟨String.ofList cs, header, body, _, cs, hheader, hbody, .refl _, hcs,
    .inl String.toList_ofList⟩

end RabinReward.Hanoi
