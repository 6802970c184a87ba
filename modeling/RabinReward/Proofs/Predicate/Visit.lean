import RabinReward.Predicate.Visit
import Mathlib.Data.List.Nodup
import Mathlib.Data.List.Count

/-!
# What a visit reaches

Predicates are stored at places (`Place`): in the list of roots, behind a handle, or in a composite
as one of its operands. A handle that is written somewhere stores nothing there, it names another
place. A visit shows predicates, not places. To say that it meets each place once, its work list is
followed with a place beside every predicate, and `Frontier` is what holds between two steps: no
place has been visited twice, and what is stored below a visited place has been visited or is still
to do. A place cannot come back into the work list, since an operand is listed only once its
composite has been visited.
-/

namespace RabinReward

namespace Predicate

inductive Place where
  | root (i : Nat)
  | handle (id : Identity)
  | operand (a : Place) (i : Nat)
  deriving DecidableEq, Repr

/-- Where a predicate that is written at a place is stored, and what is stored there. -/
def located (a : Place) : Predicate → Place × Predicate
  | .shared id p => (.handle id, p)
  | p => (a, p)

/-- The operands that a predicate holds. A handle holds no operands: it forwards to its contents. -/
def parts : Predicate → List Predicate
  | .shared id p => [.shared id p]
  | p => p.children

/-- What is stored below the roots, and at which place. -/
inductive Stored (roots : List Predicate) : Place × Predicate → Prop where
  | root {i : Nat} {p : Predicate} : roots[i]? = some p → Stored roots (p.located (.root i))
  | part {x : Place × Predicate} {i : Nat} {q : Predicate} :
      Stored roots x → x.2.parts[i]? = some q → Stored roots (q.located (.operand x.1 i))

/-- No handle merely forwards to another handle. -/
def NoForwarding (roots : List Predicate) : Prop := ∀ x, Stored roots x → x.2.identity = none

/-- Every occurrence of a handle carries the same contents. -/
def Coherent (roots : List Predicate) : Prop :=
  ∀ id p q, Stored roots (.handle id, p) → Stored roots (.handle id, q) → p = q

variable {roots : List Predicate} {p : Predicate}

/-! ## Places -/

theorem located_of_identity_eq_none (h : p.identity = none) (a : Place) : p.located a = (a, p) := by
  cases p with
  | shared _ _ => cases h
  | _ => rfl

theorem eq_shared_of_identity {id : Identity} (h : p.identity = some id) :
    p = .shared id p.contents := by
  cases p with
  | shared _ _ =>
    cases h
    rfl
  | _ => cases h

theorem children_eq_parts {a : Place} (h : (p.located a).2.identity = none) :
    p.children = (p.located a).2.parts := by
  cases p with
  | shared _ q =>
    cases q with
    | shared _ _ => cases h
    | _ => rfl
  | _ => rfl

def arranged (place : Nat → Place) (ps : List Predicate) : List (Place × Predicate) :=
  ps.mapIdx fun i p => (place i, p)

theorem mem_arranged {place : Nat → Place} {ps : List Predicate} {x : Place × Predicate} :
    x ∈ arranged place ps ↔ ∃ i p, ps[i]? = some p ∧ x = (place i, p) := by
  rw [arranged, List.mem_mapIdx]
  constructor
  · rintro ⟨i, hi, rfl⟩
    exact ⟨i, ps[i], List.getElem?_eq_getElem hi, rfl⟩
  · rintro ⟨i, p, hp, rfl⟩
    obtain ⟨hi, rfl⟩ := List.getElem?_eq_some_iff.1 hp
    exact ⟨i, hi, rfl⟩

theorem arranged_map_snd (place : Nat → Place) (ps : List Predicate) :
    (arranged place ps).map Prod.snd = ps := by
  apply List.ext_getElem?
  intro i
  rw [arranged, List.getElem?_map, List.getElem?_mapIdx]
  cases ps[i]? <;> rfl

theorem mem_arranged_fst {place : Nat → Place} {ps : List Predicate} {a : Place}
    (h : a ∈ (arranged place ps).map Prod.fst) : ∃ i, a = place i := by
  obtain ⟨x, hx, rfl⟩ := List.mem_map.1 h
  obtain ⟨i, p, -, rfl⟩ := mem_arranged.1 hx
  exact ⟨i, rfl⟩

theorem nodup_arranged {place : Nat → Place} (hplace : place.Injective) (ps : List Predicate) :
    ((arranged place ps).map Prod.fst).Nodup := by
  have heq : (arranged place ps).map Prod.fst = (List.range ps.length).map place := by
    apply List.ext_getElem
    · simp [arranged]
    · intro i _ _
      simp [arranged]
  rw [heq]
  exact List.nodup_range.map hplace

theorem root_injective : Place.root.Injective := fun _ _ h => Place.root.inj h

theorem operand_injective (a : Place) : (Place.operand a).Injective := fun _ _ h =>
  (Place.operand.inj h).2

/-- Whatever has the roots and the parts of all that it has, has all that is stored. -/
theorem Stored.mem {placed : List (Place × Predicate)}
    (hroots : ∀ y ∈ arranged .root roots, y.2.located y.1 ∈ placed)
    (hparts : ∀ x ∈ placed, ∀ y ∈ arranged (.operand x.1) x.2.parts, y.2.located y.1 ∈ placed)
    {x : Place × Predicate} (h : Stored roots x) : x ∈ placed := by
  induction h with
  | root hp => exact hroots _ (mem_arranged.2 ⟨_, _, hp, rfl⟩)
  | part _ hq ih => exact hparts _ ih _ (mem_arranged.2 ⟨_, _, hq, rfl⟩)

/-! ## Between two steps of a visit -/

/-- What holds when the predicates `done` have been visited and `todo` is still to do. -/
structure Frontier (roots : List Predicate) (done : List (Place × Predicate))
    (seen : List Identity) (todo : List (Place × Predicate)) : Prop where
  doneStored : ∀ x ∈ done, Stored roots x
  todoStored : ∀ y ∈ todo, Stored roots (y.2.located y.1)
  /-- No place is visited twice, and none that has been visited is still to do. -/
  once : (done.map Prod.fst ++ todo.map Prod.fst).Nodup
  seen_iff : ∀ id, id ∈ seen ↔ Place.handle id ∈ done.map Prod.fst
  inPlace : ∀ id, Place.handle id ∉ todo.map Prod.fst
  parent : ∀ a i, Place.operand a i ∈ done.map Prod.fst ++ todo.map Prod.fst →
    a ∈ done.map Prod.fst
  roots : ∀ y ∈ arranged .root roots, y.2.located y.1 ∈ done ∨ y ∈ todo
  parts : ∀ x ∈ done, ∀ y ∈ arranged (.operand x.1) x.2.parts,
    y.2.located y.1 ∈ done ∨ y ∈ todo

theorem Frontier.start (roots : List Predicate) : Frontier roots [] [] (arranged .root roots) where
  doneStored := nofun
  todoStored := by
    intro y hy
    obtain ⟨i, p, hp, rfl⟩ := mem_arranged.1 hy
    exact .root hp
  once := nodup_arranged root_injective roots
  seen_iff id := ⟨nofun, nofun⟩
  inPlace := by
    intro id hid
    obtain ⟨i, hi⟩ := mem_arranged_fst hid
    cases hi
  parent := by
    intro a i hi
    obtain ⟨j, hj⟩ := mem_arranged_fst hi
    cases hj
  roots y hy := .inr hy
  parts := nofun

variable {done todo : List (Place × Predicate)} {seen seen' : List Identity} {a : Place}

theorem operand_ne (a : Place) (i : Nat) : Place.operand a i ≠ a := by
  intro h
  have hsize := congrArg sizeOf h
  rw [Place.operand.sizeOf_spec] at hsize
  omega

/-- The first predicate of the work list is stored where it is written or behind a handle. -/
theorem Frontier.located_fst (h : Frontier roots done seen ((a, p) :: todo)) :
    (p.located a).1 ∉ todo.map Prod.fst ∧
      ∀ b i, (p.located a).1 = .operand b i → b ∈ done.map Prod.fst := by
  cases hp : p.identity with
  | none =>
    rw [located_of_identity_eq_none hp]
    have htodo := (List.nodup_append.1 h.once).2.1
    rw [List.map_cons, List.nodup_cons] at htodo
    refine ⟨htodo.1, fun b i hb => h.parent b i ?_⟩
    rw [← hb]
    exact List.mem_append_right _ List.mem_cons_self
  | some id =>
    rw [eq_shared_of_identity hp]
    exact ⟨fun hid => h.inPlace id (List.mem_cons_of_mem _ hid), nofun⟩

/-- An operand is written in the rest of the work list only once its composite has been visited. -/
theorem Frontier.parent_tail {x : Place × Predicate} (h : Frontier roots done seen (x :: todo))
    {b : Place} {i : Nat} (hi : Place.operand b i ∈ done.map Prod.fst ++ todo.map Prod.fst) :
    b ∈ done.map Prod.fst := by
  refine h.parent b i ?_
  rcases List.mem_append.1 hi with hi | hi
  · exact List.mem_append_left _ hi
  · exact List.mem_append_right _ (List.mem_cons_of_mem _ hi)

/-- A visit of what is stored at a new place writes its operands at new places. -/
theorem Frontier.once_visit (h : Frontier roots done seen ((a, p) :: todo))
    {c : Place × Predicate} (hc : c = p.located a) (hnew : c.1 ∉ done.map Prod.fst) :
    ((done ++ [c]).map Prod.fst ++
      (arranged (.operand c.1) c.2.parts ++ todo).map Prod.fst).Nodup := by
  have htodo : c.1 ∉ todo.map Prod.fst := hc ▸ h.located_fst.1
  have hold : (done.map Prod.fst ++ todo.map Prod.fst).Nodup :=
    h.once.sublist (List.Sublist.append_left (List.sublist_cons_self _ _) _)
  have hall : (c.1 :: ((arranged (.operand c.1) c.2.parts).map Prod.fst ++
      (done.map Prod.fst ++ todo.map Prod.fst))).Nodup := by
    rw [List.nodup_cons, List.nodup_append]
    refine ⟨fun hmem => ?_, nodup_arranged (operand_injective c.1) _, hold, ?_⟩
    · rcases List.mem_append.1 hmem with hmem | hmem
      · obtain ⟨i, hi⟩ := mem_arranged_fst hmem
        exact operand_ne c.1 i hi.symm
      · exact (List.mem_append.1 hmem).elim hnew htodo
    · rintro b hb _ hb' rfl
      obtain ⟨i, rfl⟩ := mem_arranged_fst hb
      exact hnew (h.parent_tail hb')
  rw [List.map_append, List.map_append, List.append_assoc]
  refine (List.Perm.nodup_iff ?_).1 hall
  exact ((List.perm_append_comm_assoc _ _ _).cons c.1).trans List.perm_middle.symm

theorem settled {x y : Place × Predicate} {done' todo' : List (Place × Predicate)}
    (h : y.2.located y.1 ∈ done ∨ y ∈ x :: todo) (hx : x.2.located x.1 ∈ done')
    (hdone : done ⊆ done') (htodo : todo ⊆ todo') : y.2.located y.1 ∈ done' ∨ y ∈ todo' := by
  rcases h with h | h
  · exact .inl (hdone h)
  · rcases List.mem_cons.1 h with rfl | h
    · exact .inl hx
    · exact .inr (htodo h)

/-- Visiting what is stored at a new place puts its operands in front of the work list. -/
theorem Frontier.visit (h : Frontier roots done seen ((a, p) :: todo)) {c : Place × Predicate}
    (hc : c = p.located a) (hnew : c.1 ∉ done.map Prod.fst)
    (hseen : ∀ id, id ∈ seen' ↔ Place.handle id = c.1 ∨ id ∈ seen) :
    Frontier roots (done ++ [c]) seen' (arranged (.operand c.1) c.2.parts ++ todo) := by
  have hstored : Stored roots c := hc ▸ h.todoStored (a, p) List.mem_cons_self
  have hmem : p.located a ∈ done ++ [c] := hc ▸ List.mem_append_right _ List.mem_cons_self
  have hdone : done ⊆ done ++ [c] := List.subset_append_left _ _
  have htodo : todo ⊆ arranged (.operand c.1) c.2.parts ++ todo := List.subset_append_right _ _
  have hplaces : (done ++ [c]).map Prod.fst = done.map Prod.fst ++ [c.1] := List.map_append
  constructor
  case doneStored =>
    intro x hx
    rcases List.mem_append.1 hx with hx | hx
    · exact h.doneStored x hx
    · rw [List.mem_singleton.1 hx]
      exact hstored
  case todoStored =>
    intro y hy
    rcases List.mem_append.1 hy with hy | hy
    · obtain ⟨i, q, hq, rfl⟩ := mem_arranged.1 hy
      exact .part hstored hq
    · exact h.todoStored y (List.mem_cons_of_mem _ hy)
  case once => exact h.once_visit hc hnew
  case seen_iff =>
    intro id
    rw [hseen, h.seen_iff, hplaces, List.mem_append, List.mem_singleton]
    exact Or.comm
  case inPlace =>
    intro id hid
    rw [List.map_append] at hid
    rcases List.mem_append.1 hid with hid | hid
    · obtain ⟨i, hi⟩ := mem_arranged_fst hid
      cases hi
    · exact h.inPlace id (List.mem_cons_of_mem _ hid)
  case parent =>
    intro b i hb
    rw [hplaces]
    rw [hplaces, List.map_append, List.mem_append, List.mem_append, List.mem_append] at hb
    rcases hb with (hb | hb) | hb | hb
    · exact List.mem_append_left _ (h.parent_tail (List.mem_append_left _ hb))
    · have hpc : (p.located a).1 = .operand b i := hc ▸ (List.mem_singleton.1 hb).symm
      exact List.mem_append_left _ (h.located_fst.2 b i hpc)
    · obtain ⟨j, hj⟩ := mem_arranged_fst hb
      cases hj
      exact List.mem_append_right _ List.mem_cons_self
    · exact List.mem_append_left _ (h.parent_tail (List.mem_append_right _ hb))
  case roots => exact fun y hy => settled (h.roots y hy) hmem hdone htodo
  case parts =>
    intro x hx y hy
    rcases List.mem_append.1 hx with hx | hx
    · exact settled (h.parts x hx y hy) hmem hdone htodo
    · rw [List.mem_singleton.1 hx] at hy
      exact .inr (List.mem_append_left _ hy)

/-- A handle that has been seen is passed over: what it names has been visited. -/
theorem Frontier.skip (hroots : Coherent roots) {id : Identity}
    (h : Frontier roots done seen ((a, .shared id p) :: todo)) (hid : id ∈ seen) :
    Frontier roots done seen todo := by
  have hstored : Stored roots (.handle id, p) := h.todoStored (a, .shared id p) List.mem_cons_self
  have hmem : (.handle id, p) ∈ done := by
    obtain ⟨⟨b, q⟩, hq, hb⟩ := List.mem_map.1 ((h.seen_iff id).1 hid)
    obtain rfl : b = .handle id := hb
    rw [hroots id p q hstored (h.doneStored _ hq)]
    exact hq
  have hdone := List.Subset.refl done
  have htodo := List.Subset.refl todo
  constructor
  case doneStored => exact h.doneStored
  case todoStored => exact fun y hy => h.todoStored y (List.mem_cons_of_mem _ hy)
  case once => exact h.once.sublist (List.Sublist.append_left (List.sublist_cons_self _ _) _)
  case seen_iff => exact h.seen_iff
  case inPlace => exact fun id' hid' => h.inPlace id' (List.mem_cons_of_mem _ hid')
  case parent => exact fun b i hb => h.parent_tail hb
  case roots => exact fun y hy => settled (h.roots y hy) hmem hdone htodo
  case parts => exact fun x hx y hy => settled (h.parts x hx y hy) hmem hdone htodo

/-! ## The whole visit -/

def CalledAt (p : Predicate) (c : Place × Predicate) : Prop := ∃ a, c = p.located a

/-- Calls that begin with what is visited next end where the rest of the visit ends. -/
theorem Frontier.visit_then (hforward : NoForwarding roots) {work visited : List Predicate}
    (h : Frontier roots done seen ((a, p) :: todo)) (hnew : (p.located a).1 ∉ done.map Prod.fst)
    (hseen : ∀ id, id ∈ seen' ↔ Place.handle id = (p.located a).1 ∨ id ∈ seen)
    (hrest : ∀ {done todo : List (Place × Predicate)}, Frontier roots done seen' todo →
      todo.map Prod.snd = p.children ++ work →
      ∃ calls seen'', List.Forall₂ CalledAt visited calls ∧
        Frontier roots (done ++ calls) seen'' [])
    (hwork : todo.map Prod.snd = work) :
    ∃ calls seen'', List.Forall₂ CalledAt (p :: visited) calls ∧
      Frontier roots (done ++ calls) seen'' [] := by
  have hchildren := children_eq_parts (hforward _ (h.todoStored (a, p) List.mem_cons_self))
  have hlist : (arranged (.operand (p.located a).1) (p.located a).2.parts ++ todo).map Prod.snd =
      p.children ++ work := by
    rw [List.map_append, arranged_map_snd, hchildren, hwork]
  obtain ⟨calls, seen'', hcalls, hend⟩ := hrest (h.visit rfl hnew hseen) hlist
  rw [List.append_assoc] at hend
  exact ⟨p.located a :: calls, seen'', .cons ⟨a, rfl⟩ hcalls, hend⟩

theorem Frontier.finish (hforward : NoForwarding roots) (hroots : Coherent roots)
    {work : List Predicate} (h : Frontier roots done seen todo) (hwork : todo.map Prod.snd = work) :
    ∃ calls seen', List.Forall₂ CalledAt (visitFrom seen work) calls ∧
      Frontier roots (done ++ calls) seen' [] := by
  fun_induction visitFrom seen work generalizing done todo with
  | case1 seen =>
    obtain rfl := List.map_eq_nil_iff.1 hwork
    exact ⟨[], seen, .nil, by rwa [List.append_nil]⟩
  | case2 seen p rest hp ih =>
    obtain ⟨⟨a, q⟩, todo, rfl, hq, hrest⟩ := List.map_eq_cons_iff.1 hwork
    obtain rfl : q = p := hq
    have hlocated := located_of_identity_eq_none hp a
    refine h.visit_then hforward ?_ (fun id => ?_) ih hrest
    · rw [hlocated]
      exact fun ha => (List.nodup_append.1 h.once).2.2 a ha a List.mem_cons_self rfl
    · rw [hlocated]
      refine ⟨.inr, fun hid => hid.resolve_left ?_⟩
      rintro rfl
      exact h.inPlace id List.mem_cons_self
  | case3 seen p rest id hp hid ih =>
    obtain ⟨⟨a, q⟩, todo, rfl, hq, hrest⟩ := List.map_eq_cons_iff.1 hwork
    obtain rfl : q = p := hq
    rw [eq_shared_of_identity hp] at h
    exact ih (h.skip hroots hid) hrest
  | case4 seen p rest id hp hid ih =>
    obtain ⟨⟨a, q⟩, todo, rfl, hq, hrest⟩ := List.map_eq_cons_iff.1 hwork
    obtain rfl : q = p := hq
    have hlocated : q.located a = (.handle id, q.contents) := by
      rw [eq_shared_of_identity hp]
      rfl
    refine h.visit_then hforward ?_ (fun id' => ?_) ih hrest
    · rw [hlocated]
      exact fun hmem => hid ((h.seen_iff id).2 hmem)
    · rw [hlocated, List.mem_cons, Place.handle.injEq]

/-- **A visit meets what is stored below the roots, each place once.** -/
theorem visit_calls (hforward : NoForwarding roots) (hroots : Coherent roots) :
    ∃ calls, List.Forall₂ CalledAt (visit roots) calls ∧ (calls.map Prod.fst).Nodup ∧
      ∀ x, x ∈ calls ↔ Stored roots x := by
  obtain ⟨calls, seen, hcalls, hend⟩ :=
    (Frontier.start roots).finish hforward hroots (arranged_map_snd .root roots)
  rw [List.nil_append] at hend
  refine ⟨calls, hcalls, (List.nodup_append.1 hend.once).1, fun x => ⟨hend.doneStored x, ?_⟩⟩
  exact Stored.mem (fun y hy => (hend.roots y hy).resolve_right nofun)
    (fun x hx y hy => (hend.parts x hx y hy).resolve_right nofun)

end Predicate

/-! ## Resetting sensors -/

open Predicate

variable {s : SensorId}

theorem getElem?_resetAll (sensors : Array Sensor) (visited : List Predicate) (s : SensorId) :
    (resetAll sensors visited)[s]? = sensors[s]?.map fun x =>
      { x with resets := x.resets + (visited.filterMap Predicate.resetTarget).count s } := by
  unfold resetAll
  induction visited.filterMap Predicate.resetTarget generalizing sensors with
  | nil => simp
  | cons t targets ih =>
    rw [List.foldl_cons, ih, Array.getElem?_modify, List.count_cons]
    by_cases hts : t = s
    · subst hts
      simp [Sensor.reset, Function.comp_def, Nat.add_assoc, Nat.add_comm 1]
    · simp [hts]

theorem map_value_resetAll (sensors : Array Sensor) (visited : List Predicate) :
    (resetAll sensors visited).map Sensor.value = sensors.map Sensor.value := by
  apply Array.ext_getElem?
  intro s
  rw [Array.getElem?_map, Array.getElem?_map, getElem?_resetAll, Option.map_map]
  rfl

/-- A reset reaches the sensor that is stored where the call is made. -/
theorem resetTarget_eq_some_iff {a : Place} {p : Predicate}
    (h : (p.located a).2.identity = none) :
    p.resetTarget = some s ↔ (p.located a).2 = .sensor s := by
  have hcontents {q : Predicate} (hq : q.identity = none) :
      q.resetTarget = some s ↔ q = .sensor s := by
    cases q with
    | sensor _ => simp [resetTarget]
    | shared _ _ => cases hq
    | _ => simp [resetTarget]
  cases p with
  | shared _ q => exact hcontents h
  | _ => exact hcontents rfl

theorem count_resetTarget {visited : List Predicate} {calls : List (Place × Predicate)}
    (h : List.Forall₂ CalledAt visited calls) (hcalls : ∀ c ∈ calls, c.2.identity = none) :
    (visited.filterMap Predicate.resetTarget).count s =
      calls.countP fun c => c.2 = .sensor s := by
  rw [List.count_filterMap]
  induction h with
  | nil => rfl
  | @cons p c visited calls hcall _ ih =>
    obtain ⟨a, rfl⟩ := hcall
    have htarget := resetTarget_eq_some_iff (s := s) (hcalls _ List.mem_cons_self)
    rw [List.countP_cons, List.countP_cons, ih fun c hc => hcalls c (List.mem_cons_of_mem _ hc)]
    simp only [beq_iff_eq, decide_eq_true_eq, htarget]

end RabinReward
