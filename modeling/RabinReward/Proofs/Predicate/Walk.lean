import RabinReward.Predicate.Visit
import Mathlib.Algebra.GroupWithZero.Nat
import Mathlib.Data.List.Nodup
import Mathlib.Data.List.Count
import Mathlib.Data.List.Perm.Basic
import Mathlib.Logic.Function.Iterate

/-!
# Visits as walks

What a visit does depends only on which predicates have an identity and which list which: their
composition. In any composition `walk` is the recursive walk in pre-order that passes over what it
has seen, and `round` is what a loop does that keeps what is still to do on a stack. The loop works
off whatever lies on top of its stack as the walk does (`exists_rounds`), though the stack grows at
a visit: nothing is part of itself, and the walk recurses along this. What the walk visits is then
told by its identities, which it never meets twice and none of which it misses
(`Coherent.mem_identities_iff`), and by what is written out behind them (`walk_inline_perm`). Both
depend on the set of the roots only, if these have identities themselves.
-/

namespace RabinReward

/-- How things are composed of one another. Some have an identity; nothing is part of itself. -/
structure Composition (ν : Type) where
  identity : ν → Option Identity
  operands : ν → List ν
  acyclic : WellFounded fun q p => q ∈ operands p

namespace Composition

variable {ν : Type} (c : Composition ν) {seen : List Identity} {ps roots : List ν} {p q : ν}

/-- Number of things that a thing is composed of, itself included, counted along every path. -/
noncomputable def size : ν → Nat :=
  c.acyclic.fix fun p ih => ((c.operands p).attach.map fun q => ih q.1 q.2).sum + 1

noncomputable def totalSize (ps : List ν) : Nat := (ps.map c.size).sum

theorem size_eq (p : ν) : c.size p = c.totalSize (c.operands p) + 1 := by
  rw [size, WellFounded.fix_eq]
  exact congrArg (fun l : List Nat => l.sum + 1) List.attach_map_val

def Passed (seen : List Identity) (p : ν) : Prop := ∃ id ∈ seen, c.identity p = some id

instance (seen : List Identity) (p : ν) : Decidable (c.Passed seen p) :=
  inferInstanceAs (Decidable (∃ id ∈ seen, c.identity p = some id))

def mark (seen : List Identity) (p : ν) : List Identity := (c.identity p).toList ++ seen

/-- The recursive walk in pre-order that passes over what has been seen: what it visits, and what
has been seen at its end. -/
noncomputable def walk (seen : List Identity) : List ν → List ν × List Identity
  | [] => ([], seen)
  | p :: rest =>
    if c.Passed seen p then walk seen rest
    else
      let below := walk (c.mark seen p) (c.operands p)
      let beside := walk below.2 rest
      (p :: (below.1 ++ beside.1), beside.2)
termination_by ps => c.totalSize ps
decreasing_by
  all_goals
    have := c.size_eq p
    simp only [totalSize, List.map_cons, List.sum_cons] at this ⊢
    omega

/-! ## The loop -/

/-- What the loop holds between two rounds. The stack is listed from its bottom. -/
structure Loop (ν : Type) where
  seen : List Identity
  stack : List ν
  visited : List ν

/-- Takes a thing off the stack and, unless it is passed over, visits it and puts its operands on
the stack, the first one on top. -/
def round (l : Loop ν) : Loop ν :=
  match l.stack.getLast? with
  | none => l
  | some p =>
    if c.Passed l.seen p then ⟨l.seen, l.stack.dropLast, l.visited⟩
    else ⟨c.mark l.seen p, l.stack.dropLast ++ (c.operands p).reverse, l.visited ++ [p]⟩

theorem round_passed (h : c.Passed seen p) (stack visited : List ν) :
    c.round ⟨seen, stack ++ [p], visited⟩ = ⟨seen, stack, visited⟩ := by
  simp only [round, List.getLast?_concat, List.dropLast_concat, if_pos h]

theorem round_visit (h : ¬c.Passed seen p) (stack visited : List ν) :
    c.round ⟨seen, stack ++ [p], visited⟩ =
      ⟨c.mark seen p, stack ++ (c.operands p).reverse, visited ++ [p]⟩ := by
  simp only [round, List.getLast?_concat, List.dropLast_concat, if_neg h]

/-- The loop works off what is on top of its stack as the walk does. -/
theorem exists_rounds (seen : List Identity) (ps stack visited : List ν) :
    ∃ k, c.round^[k] ⟨seen, stack ++ ps.reverse, visited⟩ =
      ⟨(c.walk seen ps).2, stack, visited ++ (c.walk seen ps).1⟩ := by
  fun_induction walk c seen ps generalizing stack visited with
  | case1 seen => exact ⟨0, by simp⟩
  | case2 seen p rest hpassed ih =>
    obtain ⟨k, hk⟩ := ih stack visited
    refine ⟨k + 1, ?_⟩
    rw [Function.iterate_succ_apply, List.reverse_cons, ← List.append_assoc,
      c.round_passed hpassed, hk]
  | case3 seen p rest hpassed below beside ihbelow ihbeside =>
    obtain ⟨k, hk⟩ := ihbelow (stack ++ rest.reverse) (visited ++ [p])
    obtain ⟨j, hj⟩ := ihbeside stack (visited ++ [p] ++ below.1)
    refine ⟨j + (k + 1), ?_⟩
    rw [Function.iterate_add_apply, Function.iterate_succ_apply, List.reverse_cons,
      ← List.append_assoc, c.round_visit hpassed, hk, hj]
    simp [beside]

/-! ## What a walk visits -/

noncomputable def visits (roots : List ν) : List ν := (c.walk [] roots).1

/-- What can be reached from the roots. -/
inductive Below (roots : List ν) : ν → Prop where
  | root {p : ν} : p ∈ roots → Below roots p
  | operand {p q : ν} : Below roots p → q ∈ c.operands p → Below roots q

variable {c} in
theorem Below.mono (h : ∀ p ∈ ps, p ∈ roots) (hq : c.Below ps q) : c.Below roots q := by
  induction hq with
  | root hp => exact .root (h _ hp)
  | operand _ hq ih => exact .operand ih hq

theorem below_append : c.Below (ps ++ roots) q ↔ c.Below ps q ∨ c.Below roots q := by
  constructor
  · intro h
    induction h with
    | root hp => exact (List.mem_append.1 hp).imp .root .root
    | operand _ hq ih => exact ih.imp (.operand · hq) (.operand · hq)
  · rintro (h | h)
    · exact Below.mono (fun _ hp => List.mem_append_left _ hp) h
    · exact Below.mono (fun _ hp => List.mem_append_right _ hp) h

theorem below_singleton : c.Below [p] q ↔ q = p ∨ c.Below (c.operands p) q := by
  constructor
  · intro h
    induction h with
    | root hq => exact .inl (List.mem_singleton.1 hq)
    | operand _ hq ih =>
      rcases ih with rfl | ih
      · exact .inr (.root hq)
      · exact .inr (.operand ih hq)
  · rintro (rfl | h)
    · exact .root List.mem_cons_self
    · induction h with
      | root hq => exact .operand (.root List.mem_cons_self) hq
      | operand _ hq ih => exact .operand ih hq

/-- Things of one identity have the same operands. -/
def Coherent (roots : List ν) : Prop :=
  ∀ p q id, c.Below roots p → c.Below roots q → c.identity p = some id → c.identity q = some id →
    c.operands p = c.operands q

/-- To be checked on what the roots list, what that lists, and so on. -/
theorem coherent_of_closed {known : List ν} (hroots : ∀ p ∈ roots, p ∈ known)
    (hknown : ∀ p ∈ known, ∀ q ∈ c.operands p, q ∈ known)
    (h : ∀ p ∈ known, ∀ q ∈ known, c.identity p = c.identity q → (c.identity p).isSome →
      c.operands p = c.operands q) : c.Coherent roots := by
  have hbelow (q : ν) (hq : c.Below roots q) : q ∈ known := by
    induction hq with
    | root hq => exact hroots _ hq
    | operand _ hq ih => exact hknown _ ih _ hq
  intro p q id hp hq hpid hqid
  exact h p (hbelow p hp) q (hbelow q hq) (hpid.trans hqid.symm) (by rw [hpid]; rfl)

/-- What has been seen at the end is what had been seen and what has been visited. -/
theorem walk_seen_perm (seen : List Identity) (ps : List ν) :
    (c.walk seen ps).2.Perm ((c.walk seen ps).1.filterMap c.identity ++ seen) := by
  fun_induction walk c seen ps with
  | case1 seen => exact .refl seen
  | case2 seen p rest _ ih => exact ih
  | case3 seen p rest _ below beside ihbelow ihbeside =>
    rw [List.perm_iff_count] at ihbelow ihbeside ⊢
    intro id
    have hbelow := ihbelow id
    have hbeside := ihbeside id
    cases hp : c.identity p <;>
      simp only [mark, hp, List.filterMap_cons, List.filterMap_append, List.count_append,
        List.count_cons, Option.toList_none, Option.toList_some, List.nil_append,
        List.cons_append, below, beside] at hbelow hbeside ⊢ <;> omega

theorem walk_seen_nodup (h : seen.Nodup) (ps : List ν) : (c.walk seen ps).2.Nodup := by
  fun_induction walk c seen ps with
  | case1 seen => exact h
  | case2 seen p rest _ ih => exact ih h
  | case3 seen p rest hpassed below beside ihbelow ihbeside =>
    refine ihbeside (ihbelow ?_)
    cases hp : c.identity p with
    | none => simpa [mark, hp] using h
    | some id =>
      have hid : id ∉ seen := fun hmem => hpassed ⟨id, hmem, hp⟩
      simpa [mark, hp] using ⟨hid, h⟩

theorem nodup_identities (roots : List ν) : ((c.visits roots).filterMap c.identity).Nodup := by
  have hperm := c.walk_seen_perm [] roots
  rw [List.append_nil] at hperm
  exact hperm.nodup_iff.1 (c.walk_seen_nodup List.nodup_nil roots)

theorem nodup_visits (h : ∀ p ∈ c.visits roots, (c.identity p).isSome) :
    (c.visits roots).Nodup := by
  have hmap : (c.visits roots).map (fun p => (c.identity p).getD 0) =
      (c.visits roots).filterMap c.identity := by
    rw [← List.filterMap_eq_map]
    refine List.filterMap_congr fun p hp => ?_
    obtain ⟨id, hid⟩ := Option.isSome_iff_exists.1 (h p hp)
    simp [hid]
  refine List.Nodup.of_map (fun p => (c.identity p).getD 0) ?_
  rw [hmap]
  exact c.nodup_identities roots

theorem count_walk [DecidableEq ν] (hq : c.identity q = none) (seen : List Identity)
    (ps : List ν) :
    (c.walk seen ps).1.count q =
      ps.count q + ((c.walk seen ps).1.map fun p => (c.operands p).count q).sum := by
  fun_induction walk c seen ps with
  | case1 seen => rfl
  | case2 seen p rest hpassed ih =>
    obtain ⟨id, -, hid⟩ := hpassed
    have hne : p ≠ q := by
      rintro rfl
      rw [hq] at hid
      cases hid
    rw [ih, List.count_cons_of_ne hne]
  | case3 seen p rest _ below beside ihbelow ihbeside =>
    simp only [List.count_cons, List.count_append, List.map_cons, List.map_append, List.sum_cons,
      List.sum_append, below, beside] at ihbelow ihbeside ⊢
    omega

theorem below_of_mem_walk (hps : ∀ p ∈ ps, c.Below roots p) (hq : q ∈ (c.walk seen ps).1) :
    c.Below roots q := by
  fun_induction walk c seen ps with
  | case1 seen => cases hq
  | case2 seen p rest _ ih => exact ih (fun x hx => hps x (List.mem_cons_of_mem _ hx)) hq
  | case3 seen p rest _ below beside ihbelow ihbeside =>
    have hp := hps p List.mem_cons_self
    rcases List.mem_cons.1 hq with rfl | hq
    · exact hp
    rcases List.mem_append.1 hq with hq | hq
    · exact ihbelow (fun x hx => .operand hp hx) hq
    · exact ihbeside (fun x hx => hps x (List.mem_cons_of_mem _ hx)) hq

theorem below_of_mem_visits (h : q ∈ c.visits roots) : c.Below roots q :=
  c.below_of_mem_walk (fun _ => .root) h

/-- The thing, or one of its identity, has been visited or had been seen before. -/
def Met (w : List ν × List Identity) (q : ν) : Prop := q ∈ w.1 ∨ c.Passed w.2 q

theorem seen_subset (seen : List Identity) (ps : List ν) : seen ⊆ (c.walk seen ps).2 := by
  intro id hid
  exact (c.walk_seen_perm seen ps).mem_iff.2 (List.mem_append_right _ hid)

variable {c} in
theorem Met.mono {w w' : List ν × List Identity} (h : c.Met w q) (hvisited : w.1 ⊆ w'.1)
    (hseen : w.2 ⊆ w'.2) : c.Met w' q := by
  rcases h with h | ⟨id, hid, hq⟩
  · exact .inl (hvisited h)
  · exact .inr ⟨id, hseen hid, hq⟩

theorem walk_met (seen : List Identity) (ps : List ν) :
    (∀ q ∈ ps, c.Met (c.walk seen ps) q) ∧
      ∀ p ∈ (c.walk seen ps).1, ∀ q ∈ c.operands p, c.Met (c.walk seen ps) q := by
  fun_induction walk c seen ps with
  | case1 seen => exact ⟨nofun, nofun⟩
  | case2 seen p rest hpassed ih =>
    refine ⟨fun q hq => ?_, ih.2⟩
    rcases List.mem_cons.1 hq with rfl | hq
    · obtain ⟨id, hid, hp⟩ := hpassed
      exact .inr ⟨id, c.seen_subset seen rest hid, hp⟩
    · exact ih.1 q hq
  | case3 seen p rest _ below beside ihbelow ihbeside =>
    have hbelow {q : ν} (h : c.Met below q) : c.Met (p :: (below.1 ++ beside.1), beside.2) q :=
      h.mono (fun x hx => List.mem_cons_of_mem _ (List.mem_append_left _ hx))
        (c.seen_subset below.2 rest)
    have hbeside {q : ν} (h : c.Met beside q) : c.Met (p :: (below.1 ++ beside.1), beside.2) q :=
      h.mono (fun x hx => List.mem_cons_of_mem _ (List.mem_append_right _ hx))
        (List.Subset.refl _)
    refine ⟨fun q hq => ?_, fun x hx q hq => ?_⟩
    · rcases List.mem_cons.1 hq with rfl | hq
      · exact .inl List.mem_cons_self
      · exact hbeside (ihbeside.1 q hq)
    · rcases List.mem_cons.1 hx with rfl | hx
      · exact hbelow (ihbelow.1 q hq)
      rcases List.mem_append.1 hx with hx | hx
      · exact hbelow (ihbelow.2 x hx q hq)
      · exact hbeside (ihbeside.2 x hx q hq)

theorem exists_of_met (h : c.Met (c.walk [] roots) q) :
    ∃ p ∈ c.visits roots, p = q ∨ ∃ id, c.identity p = some id ∧ c.identity q = some id := by
  rcases h with h | ⟨id, hid, hq⟩
  · exact ⟨q, h, .inl rfl⟩
  · have hmem := (c.walk_seen_perm [] roots).mem_iff.1 hid
    rw [List.append_nil] at hmem
    obtain ⟨p, hp, hpid⟩ := List.mem_filterMap.1 hmem
    exact ⟨p, hp, .inr ⟨id, hpid, hq⟩⟩

variable {c} in
theorem Coherent.exists_visited (h : c.Coherent roots) (hq : c.Below roots q) :
    ∃ p ∈ c.visits roots, p = q ∨ ∃ id, c.identity p = some id ∧ c.identity q = some id := by
  induction hq with
  | root hq => exact c.exists_of_met ((c.walk_met [] roots).1 _ hq)
  | @operand p q hp hq ih =>
    obtain ⟨p', hp', hsame⟩ := ih
    refine c.exists_of_met ((c.walk_met [] roots).2 p' hp' q ?_)
    rcases hsame with rfl | ⟨id, hid', hid⟩
    · exact hq
    · rwa [h p' p id (c.below_of_mem_visits hp') hp hid' hid]

variable {c} in
theorem Coherent.mem_identities_iff (h : c.Coherent roots) {id : Identity} :
    id ∈ (c.visits roots).filterMap c.identity ↔ ∃ p, c.Below roots p ∧ c.identity p = some id := by
  rw [List.mem_filterMap]
  constructor
  · rintro ⟨p, hp, hid⟩
    exact ⟨p, c.below_of_mem_visits hp, hid⟩
  · rintro ⟨q, hq, hid⟩
    obtain ⟨p, hp, rfl | ⟨id', hpid, hqid⟩⟩ := h.exists_visited hq
    · exact ⟨p, hp, hid⟩
    · exact ⟨p, hp, hpid.trans (hqid.symm.trans hid)⟩

/-- If whatever can be reached has an identity of its own, each is visited once. -/
theorem visits_perm_of_named {known : List ν} (hknown : ∀ q, c.Below roots q ↔ q ∈ known)
    (hnamed : ∀ p ∈ known, (c.identity p).isSome) (hnodup : (known.map c.identity).Nodup) :
    (c.visits roots).Perm known := by
  have hsame {p q : ν} (hp : c.Below roots p) (hq : c.Below roots q)
      (h : c.identity p = c.identity q) : p = q :=
    List.inj_on_of_nodup_map hnodup ((hknown p).1 hp) ((hknown q).1 hq) h
  have hcoherent : c.Coherent roots := fun p q id hp hq hpid hqid => by
    rw [hsame hp hq (hpid.trans hqid.symm)]
  have hvisits : (c.visits roots).Nodup :=
    c.nodup_visits fun p hp => hnamed p ((hknown p).1 (c.below_of_mem_visits hp))
  refine (List.perm_ext_iff_of_nodup hvisits hnodup.of_map).2 fun q => ?_
  rw [← hknown]
  refine ⟨c.below_of_mem_visits, fun hq => ?_⟩
  obtain ⟨p, hp, rfl | ⟨id, hpid, hqid⟩⟩ := hcoherent.exists_visited hq
  · exact hp
  · rwa [← hsame (c.below_of_mem_visits hp) hq (hpid.trans hqid.symm)]

/-! ## Other orders -/

/-- What is written out in a list, not behind an identity. -/
noncomputable def inline : List ν → List ν
  | [] => []
  | p :: rest =>
    if (c.identity p).isSome then inline rest
    else p :: (inline (c.operands p) ++ inline rest)
termination_by ps => c.totalSize ps
decreasing_by
  all_goals
    have := c.size_eq p
    simp only [totalSize, List.map_cons, List.sum_cons] at this ⊢
    omega

theorem inline_eq_nil (h : ∀ p ∈ ps, (c.identity p).isSome) : c.inline ps = [] := by
  induction ps with
  | nil => rw [inline]
  | cons p ps ih =>
    rw [List.forall_mem_cons] at h
    rw [inline, if_pos h.1, ih h.2]

/-- The visits without identity are what is written out in the list and in what is visited by its
identity. -/
theorem walk_inline_perm (seen : List Identity) (ps : List ν) :
    ((c.walk seen ps).1.filter fun p => (c.identity p).isNone).Perm
      (c.inline ps ++ ((c.walk seen ps).1.filter fun p => (c.identity p).isSome).flatMap
        fun p => c.inline (c.operands p)) := by
  classical
  fun_induction walk c seen ps with
  | case1 seen => simp [inline]
  | case2 seen p rest hpassed ih =>
    obtain ⟨id, -, hid⟩ := hpassed
    rwa [inline, if_pos (by simp [hid])]
  | case3 seen p rest _ below beside ihbelow ihbeside =>
    rw [List.perm_iff_count] at ihbelow ihbeside ⊢
    intro q
    have hbelow := ihbelow q
    have hbeside := ihbeside q
    cases hp : c.identity p <;>
      simp [inline, hp, List.count_append, List.count_cons, below, beside] at hbelow hbeside ⊢ <;>
      omega

/-- What a visit is of: an identity, or a thing that has none. -/
def key (p : ν) : Identity ⊕ ν :=
  match c.identity p with
  | some id => .inl id
  | none => .inr p

theorem map_key_perm (vs : List ν) :
    (vs.map c.key).Perm ((vs.filterMap c.identity).map .inl ++
      (vs.filter fun p => (c.identity p).isNone).map .inr) := by
  induction vs with
  | nil => exact .nil
  | cons p vs ih =>
    cases hp : c.identity p with
    | some id => simpa [key, hp] using ih
    | none =>
      simp only [List.map_cons, key, hp, List.filterMap_cons, List.filter_cons, Option.isNone_none,
        ↓reduceIte]
      exact (ih.cons _).trans List.perm_middle.symm

variable {c}

/-- What is written out behind an identity depends on the identity only. -/
theorem Coherent.exists_inline (h : c.Coherent roots) :
    ∃ f : Identity → List ν, ∀ p, c.Below roots p → ∀ id, c.identity p = some id →
      c.inline (c.operands p) = f id := by
  classical
  refine ⟨fun id => if hid : ∃ p, c.Below roots p ∧ c.identity p = some id
    then c.inline (c.operands hid.choose) else [], fun p hp id hid => ?_⟩
  have hex : ∃ p, c.Below roots p ∧ c.identity p = some id := ⟨p, hp, hid⟩
  simp only [dif_pos hex]
  exact congrArg c.inline (h p hex.choose id hp hex.choose_spec.1 hid hex.choose_spec.2)

theorem flatMap_named {vs : List ν} {g : ν → List ν} {f : Identity → List ν}
    (h : ∀ p ∈ vs, ∀ id, c.identity p = some id → g p = f id) :
    (vs.filter fun p => (c.identity p).isSome).flatMap g =
      (vs.filterMap c.identity).flatMap f := by
  induction vs with
  | nil => rfl
  | cons p vs ih =>
    rw [List.forall_mem_cons] at h
    cases hp : c.identity p with
    | none => simpa [hp] using ih h.2
    | some id => simpa [hp, h.1 id hp] using ih h.2

/-- In what order roots that have identities are listed, and how often, does not matter. -/
theorem Coherent.visits_perm (h : c.Coherent roots) (hnamed : ∀ p ∈ roots, (c.identity p).isSome)
    {roots' : List ν} (hroots : ∀ p, p ∈ roots' ↔ p ∈ roots) :
    ((c.visits roots').map c.key).Perm ((c.visits roots).map c.key) := by
  have hbelow (q : ν) : c.Below roots' q ↔ c.Below roots q :=
    ⟨.mono fun p => (hroots p).1, .mono fun p => (hroots p).2⟩
  have h' : c.Coherent roots' := fun p q id hp hq =>
    h p q id ((hbelow p).1 hp) ((hbelow q).1 hq)
  have hids : ((c.visits roots').filterMap c.identity).Perm
      ((c.visits roots).filterMap c.identity) := by
    rw [List.perm_ext_iff_of_nodup (c.nodup_identities roots') (c.nodup_identities roots)]
    intro id
    simp only [h.mem_identities_iff, h'.mem_identities_iff, hbelow]
  obtain ⟨f, hf⟩ := h.exists_inline
  have hinline (rs : List ν) (hrs : ∀ p ∈ rs, p ∈ roots) :
      ((c.visits rs).filter fun p => (c.identity p).isNone).Perm
        (((c.visits rs).filterMap c.identity).flatMap f) := by
    have hperm := c.walk_inline_perm [] rs
    rw [c.inline_eq_nil fun p hp => hnamed p (hrs p hp), List.nil_append] at hperm
    have hflat : ((c.visits rs).filter fun p => (c.identity p).isSome).flatMap
        (fun p => c.inline (c.operands p)) = ((c.visits rs).filterMap c.identity).flatMap f :=
      flatMap_named fun p hp => hf p (.mono hrs (c.below_of_mem_visits hp))
    rwa [← hflat]
  have hanonymous := (hinline roots' fun p => (hroots p).1).trans
    ((hids.flatMap_right f).trans (hinline roots fun _ hp => hp).symm)
  exact (c.map_key_perm _).trans (((hids.map _).append (hanonymous.map _)).trans
    (c.map_key_perm _).symm)

/-- The very same is visited if nothing but one thing is under each identity. -/
theorem Coherent.visits_perm_of_key (h : c.Coherent roots)
    (hnamed : ∀ p ∈ roots, (c.identity p).isSome) {roots' : List ν}
    (hroots : ∀ p, p ∈ roots' ↔ p ∈ roots)
    (hkey : ∀ p q, c.Below roots p → c.Below roots q → c.key p = c.key q → p = q) :
    (c.visits roots').Perm (c.visits roots) := by
  classical
  have hbelow' {q : ν} (hq : q ∈ c.visits roots') : c.Below roots q :=
    (c.below_of_mem_visits hq).mono fun p => (hroots p).1
  refine List.perm_iff_count.2 fun q => ?_
  by_cases hq : c.Below roots q
  · have hcount {vs : List ν} (hvs : ∀ p ∈ vs, c.Below roots p) :
        vs.count q = (vs.map c.key).countP fun k => decide (k = c.key q) := by
      rw [List.count, List.countP_map]
      refine List.countP_congr fun p hp => ?_
      simp only [Function.comp_apply, beq_iff_eq, decide_eq_true_eq]
      exact ⟨congrArg c.key, hkey p q (hvs p hp) hq⟩
    rw [hcount fun p => hbelow', hcount fun p => c.below_of_mem_visits,
      (h.visits_perm hnamed hroots).countP_eq]
  · rw [List.count_eq_zero_of_not_mem fun hmem => hq (hbelow' hmem),
      List.count_eq_zero_of_not_mem fun hmem => hq (c.below_of_mem_visits hmem)]

end Composition

namespace Predicate

theorem size_le_totalSize {p : Predicate} {ps : List Predicate} (h : p ∈ ps) :
    p.size ≤ totalSize ps := by
  induction ps with
  | nil => cases h
  | cons q ps ih =>
    rw [totalSize]
    rcases List.mem_cons.1 h with rfl | h
    · exact Nat.le_add_right _ _
    · exact Nat.le_trans (ih h) (Nat.le_add_left _ _)

def composition : Composition Predicate where
  identity := identity
  operands := children
  acyclic := by
    refine Subrelation.wf (fun {q p} hq => ?_) (InvImage.wf size Nat.lt_wfRel.wf)
    exact Nat.lt_of_le_of_lt (size_le_totalSize hq) (totalSize_children p)

variable {seen : List Identity} {p : Predicate}

theorem visitFrom_passed (h : composition.Passed seen p) (rest : List Predicate) :
    visitFrom seen (p :: rest) = visitFrom seen rest := by
  obtain ⟨id, hid, hp⟩ := h
  have hp : p.identity = some id := hp
  rw [visitFrom]
  simp only [hp, if_pos hid]

theorem visitFrom_visit (h : ¬composition.Passed seen p) (rest : List Predicate) :
    visitFrom seen (p :: rest) =
      p :: visitFrom (composition.mark seen p) (p.children ++ rest) := by
  rw [visitFrom]
  cases hp : p.identity with
  | none => simp only [Composition.mark, composition, hp, Option.toList_none, List.nil_append]
  | some id =>
    have hid : id ∉ seen := fun hmem => h ⟨id, hmem, hp⟩
    simp only [Composition.mark, composition, hp, Option.toList_some, if_neg hid,
      List.singleton_append]

theorem visitFrom_append (seen : List Identity) (ps todo : List Predicate) :
    visitFrom seen (ps ++ todo) =
      (composition.walk seen ps).1 ++ visitFrom (composition.walk seen ps).2 todo := by
  fun_induction Composition.walk composition seen ps generalizing todo with
  | case1 seen => rfl
  | case2 seen p rest hpassed ih => rw [List.cons_append, visitFrom_passed hpassed, ih]
  | case3 seen p rest hpassed below beside ihbelow ihbeside =>
    have hchildren : p.children = composition.operands p := rfl
    rw [List.cons_append, visitFrom_visit hpassed, hchildren, ihbelow, ihbeside]
    simp [below, beside]

theorem visit_eq_visits (roots : List Predicate) : visit roots = composition.visits roots := by
  have := visitFrom_append [] roots []
  rwa [List.append_nil, visitFrom, List.append_nil] at this

/-- **A visit is a walk in pre-order that meets each identity once.** In every composition the loop
ends, having visited what the recursive walk visits: each identity that can be reached once, what
has no identity as often as it is listed by the roots and by what is visited, and nothing that
cannot be reached. Roots that have identities can be reordered and repeated: the same identities
are visited, and the same things without identity as often as before. -/
theorem visits_deduplicated :
    (∀ roots : List Predicate, visit roots = composition.visits roots ∧
      reachable roots = (composition.visits roots).length) ∧
    ∀ {ν : Type} [DecidableEq ν] (c : Composition ν) (roots : List ν), c.Coherent roots →
      (∃ k seen, c.round^[k] ⟨[], roots.reverse, []⟩ = ⟨seen, [], c.visits roots⟩) ∧
      (∀ id, (∃ p, c.Below roots p ∧ c.identity p = some id) →
        ((c.visits roots).filterMap c.identity).count id = 1) ∧
      (∀ q, c.identity q = none → (c.visits roots).count q =
        roots.count q + ((c.visits roots).map fun p => (c.operands p).count q).sum) ∧
      (∀ p ∈ c.visits roots, c.Below roots p) ∧
      ((∀ p ∈ roots, (c.identity p).isSome) → ∀ roots', (∀ p, p ∈ roots' ↔ p ∈ roots) →
        ((c.visits roots').map c.key).Perm ((c.visits roots).map c.key) ∧
        ((∀ p q, c.Below roots p → c.Below roots q → c.key p = c.key q → p = q) →
          (c.visits roots').Perm (c.visits roots)) ∧
        (c.visits roots').length = (c.visits roots).length) := by
  refine ⟨fun roots => ⟨visit_eq_visits roots, congrArg List.length (visit_eq_visits roots)⟩, ?_⟩
  intro ν _ c roots h
  refine ⟨?_, fun id hid => ?_, fun q hq => c.count_walk hq [] roots,
    fun p hp => c.below_of_mem_visits hp, fun hnamed roots' hroots => ?_⟩
  · obtain ⟨k, hk⟩ := c.exists_rounds [] roots [] []
    exact ⟨k, _, hk⟩
  · exact List.count_eq_one_of_mem (c.nodup_identities roots) (h.mem_identities_iff.2 hid)
  · have hperm := h.visits_perm hnamed hroots
    refine ⟨hperm, h.visits_perm_of_key hnamed hroots, ?_⟩
    rw [← List.length_map c.key, hperm.length_eq, List.length_map]

/-- A handle below another one and below an operand of it that has no identity. -/
theorem visits_deduplicated_diamond :
    let probe : Predicate := .shared 0 (.sensor 0)
    let both : Predicate := .shared 1 (.and probe (.not probe))
    composition.Coherent [both, probe] ∧
      ((composition.visits [both, probe]).filterMap identity).count 0 = 1 ∧
      (composition.visits [probe, both, both]).length =
        (composition.visits [both, probe]).length := by
  intro probe both
  have hcoherent : composition.Coherent [both, probe] :=
    composition.coherent_of_closed
      (show ∀ p ∈ [both, probe], p ∈ [both, probe, .not probe] by decide) (by decide) (by decide)
  have hdeduplicated := visits_deduplicated.2 composition [both, probe] hcoherent
  refine ⟨hcoherent, hdeduplicated.2.1 0 ⟨probe, .root (by simp), rfl⟩, ?_⟩
  refine (hdeduplicated.2.2.2.2 ?_ [probe, both, both] ?_).2.2
  · simp [composition, identity, both, probe]
  · simp [or_comm]

end Predicate

end RabinReward
