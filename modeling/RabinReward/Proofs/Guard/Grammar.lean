import RabinReward.Guard.Parser
import RabinReward.Proofs.Guard.Lexeme

/-!
# The grammar of guards

`Derives` is the grammar that guards are read by, `!` binding tightest, `|` loosest and both infix
operators associating to the left. The reader keeps pieces of a derivation: a level of parentheses
holds a finished disjunction and a finished conjunction, each with the operator that waits for its
right operand, and a number of negations. `Reader.Spells` ties such a state to the symbols that have
been read, one step keeps it (`spells_step`), and so what is accepted is derivable
(`derives_of_run`). In the other direction the reader takes any phrase of the grammar as an operand
of its rank (`derives_consumed`).
-/

namespace RabinReward.Guard

open Text

/-- The ranks of phrases, loosest first. -/
inductive Rank where
  | disjunction
  | conjunction
  | unary

/-- The guard that a sequence of symbols spells as a phrase of the given rank. -/
inductive Derives : Rank → List Symbol → Guard → Prop where
  | or {u v : List Symbol} {l r : Guard} : Derives .disjunction u l → Derives .conjunction v r →
      Derives .disjunction (u ++ .bar :: v) (.or l r)
  | ofConjunction {u : List Symbol} {g : Guard} : Derives .conjunction u g →
      Derives .disjunction u g
  | and {u v : List Symbol} {l r : Guard} : Derives .conjunction u l → Derives .unary v r →
      Derives .conjunction (u ++ .amp :: v) (.and l r)
  | ofUnary {u : List Symbol} {g : Guard} : Derives .unary u g → Derives .conjunction u g
  | not {u : List Symbol} {g : Guard} : Derives .unary u g → Derives .unary (.bang :: u) (.not g)
  | literal (b : Bool) : Derives .unary [.literal b] (.literal b)
  | number {ds : List Char} : numeralValue ds < UInt32.size →
      Derives .unary [.digits ds] (.prop (UInt32.ofNat (numeralValue ds)))
  | group {u : List Symbol} {g : Guard} : Derives .disjunction u g →
      Derives .unary (.opening :: (u ++ [.closing])) g

/-! ## What a state has read -/

/-- The symbols of a finished left operand and of the operator behind it. -/
inductive Waits (r : Rank) (op : Symbol) : Option Guard → List Symbol → Prop where
  | none : Waits r op none []
  | some {u : List Symbol} {g : Guard} : Derives r u g → Waits r op (some g) (u ++ [op])

inductive Level.Spells (l : Level) : List Symbol → Prop where
  | intro {u v : List Symbol} : Waits .disjunction .bar l.disjunction u →
      Waits .conjunction .amp l.conjunction v →
      Spells l (u ++ (v ++ List.replicate l.negations .bang))

inductive Context.Spells : Context → List Symbol → Prop where
  | outermost {l : Level} {v : List Symbol} : l.Spells v → Spells ⟨l, []⟩ v
  | group {l l' : Level} {p : Nat} {outer : List (Nat × Level)} {u v : List Symbol} :
      Spells ⟨l', outer⟩ u → l.Spells v → Spells ⟨l, (p, l') :: outer⟩ (u ++ .opening :: v)

inductive Reader.Spells : Reader → List Symbol → Prop where
  | operand {ctx : Context} {last : Option Nat} {u : List Symbol} : ctx.Spells u →
      Spells (.operand ctx last) u
  | operator {ctx : Context} {g : Guard} {u v : List Symbol} : ctx.Spells u → Derives .unary v g →
      Spells (.operator ctx g) (u ++ v)

theorem Level.spells_empty : Level.empty.Spells [] :=
  Level.Spells.intro (l := .empty) (u := []) (v := []) .none .none

theorem Reader.spells_start : Reader.start.Spells [] := .operand (.outermost Level.spells_empty)

/-! ## Completing a phrase -/

theorem derives_negate {n : Nat} {v : List Symbol} {g : Guard} (h : Derives .unary v g) :
    Derives .unary (List.replicate n .bang ++ v) (Level.negate n g) := by
  induction n generalizing v g with
  | zero => exact h
  | succ n ih =>
    rw [List.replicate_succ', List.append_assoc]
    exact ih (.not h)

theorem derives_conjoin {l : Level} {v w : List Symbol} {g : Guard}
    (hv : Waits .conjunction .amp l.conjunction v) (hw : Derives .unary w g) :
    Derives .conjunction (v ++ (List.replicate l.negations .bang ++ w)) (l.conjoin g) := by
  have hn := derives_negate (n := l.negations) hw
  unfold Level.conjoin
  generalize l.conjunction = c at hv
  cases hv with
  | none => exact .ofUnary hn
  | some hc =>
    rw [List.append_assoc, List.singleton_append]
    exact .and hc hn

theorem derives_disjoin {l : Level} {u v : List Symbol} {g : Guard} (hu : l.Spells u)
    (hv : Derives .unary v g) : Derives .disjunction (u ++ v) (l.disjoin g) := by
  obtain ⟨hd, hc⟩ := hu
  rw [List.append_assoc, List.append_assoc]
  have hcv := derives_conjoin hc hv
  unfold Level.disjoin
  generalize l.disjunction = d at hd
  cases hd with
  | none => exact .ofConjunction hcv
  | some hd =>
    rw [List.append_assoc, List.singleton_append]
    exact .or hd hcv

/-! ## One step -/

/-- The symbols of a context end with those of its level, which another level may replace. -/
theorem Context.Spells.split {ctx : Context} {w : List Symbol} (h : ctx.Spells w) :
    ∃ u v, w = u ++ v ∧ ctx.level.Spells v ∧
      ∀ l v', Level.Spells l v' → Context.Spells ⟨l, ctx.outer⟩ (u ++ v') := by
  cases h with
  | outermost hl => exact ⟨[], _, rfl, hl, fun l v' h => .outermost h⟩
  | @group l l' p outer u v hu hl =>
    refine ⟨u ++ [.opening], v, by simp, hl, fun l v' h => ?_⟩
    rw [List.append_assoc, List.singleton_append]
    exact .group hu h

theorem Level.Spells.bang {l : Level} {v : List Symbol} (h : l.Spells v) :
    Level.Spells ⟨l.disjunction, l.conjunction, l.negations + 1⟩ (v ++ [.bang]) := by
  obtain ⟨hd, hc⟩ := h
  rw [List.append_assoc, List.append_assoc, ← List.replicate_succ']
  exact .intro hd hc

theorem Level.Spells.amp {l : Level} {v w : List Symbol} {g : Guard} (h : l.Spells v)
    (hw : Derives .unary w g) :
    Level.Spells ⟨l.disjunction, some (l.conjoin g), 0⟩ (v ++ w ++ [.amp]) := by
  obtain ⟨hd, hc⟩ := h
  have := Level.Spells.intro (l := ⟨l.disjunction, some (l.conjoin g), 0⟩) hd
    (.some (derives_conjoin hc hw))
  simpa [List.append_assoc] using this

theorem Level.Spells.bar {l : Level} {v w : List Symbol} {g : Guard} (h : l.Spells v)
    (hw : Derives .unary w g) :
    Level.Spells ⟨some (l.disjoin g), none, 0⟩ (v ++ w ++ [.bar]) := by
  have := Level.Spells.intro (l := ⟨some (l.disjoin g), none, 0⟩)
    (.some (derives_disjoin h hw)) .none
  simpa using this

theorem spells_step {s s' : Reader} {t : Token} {w : List Symbol} (hs : s.Spells w)
    (h : s.step t = .ok s') : s'.Spells (w ++ [t.symbol]) := by
  obtain ⟨symbol, p⟩ := t
  cases hs with
  | @operand ctx last u hu =>
    cases symbol with
    | literal b =>
      cases h
      exact .operator hu (.literal b)
    | digits ds =>
      simp only [Reader.step] at h
      split at h
      · rename_i hlt
        cases h
        exact .operator hu (.number hlt)
      · cases h
    | bang =>
      cases h
      obtain ⟨u, v, rfl, hl, hrest⟩ := hu.split
      rw [List.append_assoc]
      exact .operand (hrest _ _ hl.bang)
    | opening =>
      cases h
      exact .operand (.group hu Level.spells_empty)
    | amp | bar | closing | other c => cases h
  | @operator ctx g u x hu hx =>
    cases symbol with
    | literal b | digits ds | bang | opening | other c => cases h
    | amp =>
      cases h
      obtain ⟨u, v, rfl, hl, hrest⟩ := hu.split
      rw [List.append_assoc, List.append_assoc, ← List.append_assoc v]
      exact .operand (hrest _ _ (hl.amp hx))
    | bar =>
      cases h
      obtain ⟨u, v, rfl, hl, hrest⟩ := hu.split
      rw [List.append_assoc, List.append_assoc, ← List.append_assoc v]
      exact .operand (hrest _ _ (hl.bar hx))
    | closing =>
      cases hu with
      | outermost hl => cases h
      | group hu hl =>
        cases h
        rw [List.append_assoc, List.append_assoc, List.cons_append, ← List.append_assoc]
        exact .operator hu (.group (derives_disjoin hl hx))

theorem derives_finish {s : Reader} {w : List Symbol} {g : Guard} (hs : s.Spells w)
    (h : s.finish = .ok g) : Derives .disjunction w g := by
  cases hs with
  | @operand ctx last u hu => cases last <;> cases h
  | operator hu hx =>
    cases hu with
    | outermost hl =>
      cases h
      exact derives_disjoin hl hx
    | group hu hl => cases h

theorem derives_of_run {s : Reader} {w : List Symbol} {ts : List Token} {g : Guard}
    (hs : s.Spells w) (h : s.run ts = .ok g) :
    Derives .disjunction (w ++ ts.map Token.symbol) g := by
  induction ts generalizing s w with
  | nil =>
    rw [List.map_nil, List.append_nil]
    exact derives_finish hs h
  | cons t ts ih =>
    unfold Reader.run at h
    split at h
    · rename_i s' hstep
      have := ih (spells_step hs hstep) h
      rwa [List.append_assoc, List.singleton_append] at this
    · cases h

/-! ## Reading a phrase -/

/-- Wherever a phrase of the given rank may begin, the reader takes the symbols and holds `g` as
that phrase, apart from what the level around it still adds. -/
def Consumed : Rank → List Symbol → Guard → Prop
  | .unary, w, g => ∀ (l : Level) (outer : List (Nat × Level)) (last : Option Nat)
      (ts : List Token), ts.map Token.symbol = w →
      ∃ n g', Level.negate n g' = Level.negate l.negations g ∧
        ∀ rest, Reader.run (.operand ⟨l, outer⟩ last) (ts ++ rest) =
          Reader.run (.operator ⟨⟨l.disjunction, l.conjunction, n⟩, outer⟩ g') rest
  | .conjunction, w, g => ∀ (d : Option Guard) (outer : List (Nat × Level)) (last : Option Nat)
      (ts : List Token), ts.map Token.symbol = w →
      ∃ c n g', Level.conjoin ⟨d, c, n⟩ g' = g ∧
        ∀ rest, Reader.run (.operand ⟨⟨d, none, 0⟩, outer⟩ last) (ts ++ rest) =
          Reader.run (.operator ⟨⟨d, c, n⟩, outer⟩ g') rest
  | .disjunction, w, g => ∀ (outer : List (Nat × Level)) (last : Option Nat) (ts : List Token),
      ts.map Token.symbol = w →
      ∃ l g', Level.disjoin l g' = g ∧
        ∀ rest, Reader.run (.operand ⟨.empty, outer⟩ last) (ts ++ rest) =
          Reader.run (.operator ⟨l, outer⟩ g') rest

theorem run_cons {s s' : Reader} {t : Token} (h : s.step t = .ok s') (ts : List Token) :
    s.run (t :: ts) = s'.run ts := by
  simp only [Reader.run, h]

/-- What is derivable the reader takes. -/
theorem derives_consumed {r : Rank} {w : List Symbol} {g : Guard} (h : Derives r w g) :
    Consumed r w g := by
  induction h with
  | or _ _ ihl ihr =>
    intro outer last ts hts
    obtain ⟨us, _, rfl, hu, htail⟩ := List.map_eq_append_iff.1 hts
    obtain ⟨⟨_, p⟩, vs, rfl, rfl, hv⟩ := List.map_eq_cons_iff.1 htail
    obtain ⟨l, g₁, rfl, hl⟩ := ihl outer last us hu
    obtain ⟨c, n, g₂, rfl, hr⟩ := ihr (some (l.disjoin g₁)) outer (some p) vs hv
    refine ⟨⟨some (l.disjoin g₁), c, n⟩, g₂, rfl, fun rest => ?_⟩
    rw [List.append_assoc, hl, List.cons_append, run_cons rfl, hr]
  | ofConjunction _ ih =>
    intro outer last ts hts
    obtain ⟨c, n, g', hg, hrun⟩ := ih none outer last ts hts
    exact ⟨⟨none, c, n⟩, g', hg, hrun⟩
  | and _ _ ihl ihr =>
    intro d outer last ts hts
    obtain ⟨us, _, rfl, hu, htail⟩ := List.map_eq_append_iff.1 hts
    obtain ⟨⟨_, p⟩, vs, rfl, rfl, hv⟩ := List.map_eq_cons_iff.1 htail
    obtain ⟨c, n, g₁, rfl, hl⟩ := ihl d outer last us hu
    obtain ⟨m, g₂, hg, hr⟩ := ihr ⟨d, some (Level.conjoin ⟨d, c, n⟩ g₁), 0⟩ outer (some p) vs hv
    refine ⟨some (Level.conjoin ⟨d, c, n⟩ g₁), m, g₂, ?_, fun rest => ?_⟩
    · simp only [Level.conjoin, hg, Level.negate]
    · rw [List.append_assoc, hl, List.cons_append, run_cons rfl, hr]
  | ofUnary _ ih =>
    intro d outer last ts hts
    obtain ⟨n, g', hg, hrun⟩ := ih ⟨d, none, 0⟩ outer last ts hts
    exact ⟨none, n, g', hg, hrun⟩
  | not _ ih =>
    intro l outer last ts hts
    obtain ⟨⟨_, p⟩, us, rfl, rfl, hu⟩ := List.map_eq_cons_iff.1 hts
    obtain ⟨n, g', hg, hrun⟩ :=
      ih ⟨l.disjunction, l.conjunction, l.negations + 1⟩ outer (some p) us hu
    refine ⟨n, g', hg, fun rest => ?_⟩
    rw [List.cons_append, run_cons rfl, hrun]
  | literal b =>
    intro l outer last ts hts
    obtain ⟨⟨_, p⟩, us, rfl, rfl, hu⟩ := List.map_eq_cons_iff.1 hts
    obtain rfl := List.map_eq_nil_iff.1 hu
    exact ⟨l.negations, .literal b, rfl, fun rest => run_cons rfl rest⟩
  | @number ds hlt =>
    intro l outer last ts hts
    obtain ⟨⟨_, p⟩, us, rfl, rfl, hu⟩ := List.map_eq_cons_iff.1 hts
    obtain rfl := List.map_eq_nil_iff.1 hu
    refine ⟨l.negations, .prop (UInt32.ofNat (numeralValue ds)), rfl, fun rest => run_cons ?_ rest⟩
    rw [Reader.step, if_pos hlt]
  | group _ ih =>
    intro l outer last ts hts
    obtain ⟨⟨_, p⟩, _, rfl, rfl, hinner⟩ := List.map_eq_cons_iff.1 hts
    obtain ⟨us, _, rfl, hu, htail⟩ := List.map_eq_append_iff.1 hinner
    obtain ⟨⟨_, q⟩, vs, rfl, rfl, hv⟩ := List.map_eq_cons_iff.1 htail
    obtain rfl := List.map_eq_nil_iff.1 hv
    obtain ⟨l', g', rfl, hrun⟩ := ih ((p, l) :: outer) (some p) us hu
    refine ⟨l.negations, l'.disjoin g', rfl, fun rest => ?_⟩
    rw [List.cons_append, run_cons rfl, List.append_assoc, hrun, List.singleton_append,
      run_cons rfl]

/-- The reader accepts a sequence of tokens exactly when their symbols spell a disjunction. -/
theorem run_start_eq_ok_iff {ts : List Token} {g : Guard} :
    Reader.start.run ts = .ok g ↔ Derives .disjunction (ts.map Token.symbol) g := by
  refine ⟨fun h => derives_of_run Reader.spells_start h, fun h => ?_⟩
  obtain ⟨l, g', rfl, hrun⟩ := derives_consumed h [] none ts rfl
  have := hrun []
  rwa [List.append_nil] at this

theorem Derives.unique {w : List Symbol} {g g' : Guard} (h : Derives .disjunction w g)
    (h' : Derives .disjunction w g') : g = g' := by
  have hw : (w.map fun s => (⟨s, 0⟩ : Token)).map Token.symbol = w := by
    rw [List.map_map]
    exact List.map_id w
  rw [← hw, ← run_start_eq_ok_iff] at h h'
  exact Except.ok.inj (h.symm.trans h')

theorem Derives.ne_other {r : Rank} {w : List Symbol} {g : Guard} (h : Derives r w g) :
    ∀ s ∈ w, ∀ c, s ≠ .other c := by
  induction h with
  | or _ _ ihl ihr | and _ _ ihl ihr =>
    intro s hs c
    rcases List.mem_append.1 hs with hs | hs
    · exact ihl s hs c
    rcases List.mem_cons.1 hs with rfl | hs
    · nofun
    · exact ihr s hs c
  | ofConjunction _ ih | ofUnary _ ih => exact ih
  | not _ ih =>
    intro s hs c
    rcases List.mem_cons.1 hs with rfl | hs
    · nofun
    · exact ih s hs c
  | literal b | number _ =>
    intro s hs c
    rw [List.mem_singleton.1 hs]
    nofun
  | group _ ih =>
    intro s hs c
    rcases List.mem_cons.1 hs with rfl | hs
    · nofun
    rcases List.mem_append.1 hs with hs | hs
    · exact ih s hs c
    · rw [List.mem_singleton.1 hs]
      nofun

/-- **Reading accepts exactly the grammar** and returns its tree. -/
theorem parse_eq_ok_iff_derives (text : String) (g : Guard) :
    parse text = .ok g ↔ ∃ ss, Lexes text.toList ss ∧ Derives .disjunction ss g := by
  rw [parse, parseChars, run_start_eq_ok_iff]
  constructor
  · intro h
    refine ⟨_, lexes_of_tokens fun t ht c => ?_, h⟩
    exact h.ne_other t.symbol (List.mem_map_of_mem ht) c
  · rintro ⟨ss, hlex, h⟩
    rwa [symbols_of_lexes hlex 0]

end RabinReward.Guard
