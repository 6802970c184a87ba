import RabinReward.Blackboard.Basic
import Mathlib.Data.List.Basic

/-!
# Boards by depth

Boards are numbered by the boards below them: the root has depth zero, and a board keeps its depth
when others are pushed on top of it. What a board defines itself is `own?`, a function of a depth
and a name. A lookup on any board is the nearest of these (`get?_eq_some_iff`), and each operation
has one equation for them: writing and pushing change nothing, and creating an entry defines one
name on the current board.
-/

namespace RabinReward

namespace Blackboard

variable {b a p : Blackboard} {d : Nat} {n : String} {e : EntryId}

def height (b : Blackboard) : Nat := b.ancestors.length

def ancestor? (b : Blackboard) : Nat → Option Blackboard
  | 0 => some b
  | k + 1 => (b.ancestor? k).bind parent?

def board? (b : Blackboard) (d : Nat) : Option Blackboard :=
  if d ≤ b.height then b.ancestor? (b.height - d) else none

/-- The entry that the board at a depth defines itself under a name. -/
def own? (b : Blackboard) (d : Nat) (name : String) : Option EntryId :=
  (b.board? d).bind fun a => a.current.lookup name

/-! ## Parents -/

theorem parent?_eq_none_iff : b.parent? = none ↔ b.ancestors = [] := by
  unfold parent?
  split <;> simp_all

theorem parent?_eq_some_iff :
    b.parent? = some p ↔ p.entries = b.entries ∧ b.ancestors = p.current :: p.ancestors := by
  unfold parent?
  split
  · simp_all
  · rename_i layer rest hlayers
    rw [hlayers]
    constructor
    · rintro ⟨⟩
      exact ⟨rfl, rfl⟩
    · rintro ⟨hentries, hcons⟩
      cases p
      cases hentries
      cases hcons
      rfl

theorem height_of_root (h : b.parent? = none) : b.height = 0 := by
  rw [height, parent?_eq_none_iff.1 h]
  rfl

theorem height_of_parent? (h : b.parent? = some p) : b.height = p.height + 1 := by
  rw [height, (parent?_eq_some_iff.1 h).2]
  rfl

theorem parent_induction {P : Blackboard → Prop} (root : ∀ b, b.parent? = none → P b)
    (child : ∀ b p, b.parent? = some p → P p → P b) (b : Blackboard) : P b := by
  obtain ⟨entries, current, ancestors⟩ := b
  induction ancestors generalizing current with
  | nil => exact root _ rfl
  | cons layer rest ih => exact child _ ⟨entries, layer, rest⟩ rfl (ih layer)

theorem ancestor?_succ (k : Nat) : b.ancestor? (k + 1) = b.parent?.bind (·.ancestor? k) := by
  induction k with
  | zero =>
    change b.parent? = b.parent?.bind some
    rw [Option.bind_fun_some]
  | succ k ih =>
    rw [ancestor?, ih, Option.bind_assoc]
    rfl

/-! ## Boards at a depth -/

theorem board?_height : b.board? b.height = some b := by
  simp [board?, ancestor?]

theorem board?_of_parent? (h : b.parent? = some p) (hd : d < b.height) :
    b.board? d = p.board? d := by
  have hheight := height_of_parent? h
  unfold board?
  rw [if_pos (by omega), if_pos (by omega), show b.height - d = p.height - d + 1 by omega,
    ancestor?_succ, h, Option.bind_some]

theorem board?_eq_none_of_lt (h : b.height < d) : b.board? d = none := if_neg (by omega)

def stack (b : Blackboard) : List Layer := b.ancestors.reverse ++ [b.current]

theorem length_stack : b.stack.length = b.height + 1 := by
  simp [stack, height]

theorem stack_of_parent? (h : b.parent? = some p) : b.stack = p.stack ++ [b.current] := by
  simp [stack, (parent?_eq_some_iff.1 h).2]

theorem take_stack : b.stack.take (b.height + 1) = b.stack :=
  List.take_of_length_le (Nat.le_of_eq length_stack)

/-- The board at a depth is made of the layers up to there, over the same entries. -/
theorem board?_eq_some (h : b.board? d = some a) :
    d ≤ b.height ∧ a.entries = b.entries ∧ a.stack = b.stack.take (d + 1) := by
  induction b using parent_induction with
  | root b hroot =>
    rcases Nat.lt_or_ge b.height d with hd | hd
    · rw [board?_eq_none_of_lt hd] at h
      cases h
    · have hzero := height_of_root hroot
      obtain rfl : d = b.height := by omega
      rw [board?_height] at h
      cases h
      exact ⟨Nat.le_refl _, rfl, take_stack.symm⟩
  | child b p hp ih =>
    have hheight := height_of_parent? hp
    rcases Nat.lt_trichotomy d b.height with hd | rfl | hd
    · rw [board?_of_parent? hp hd] at h
      obtain ⟨hle, hentries, hstack⟩ := ih h
      refine ⟨Nat.le_of_lt hd, hentries.trans (parent?_eq_some_iff.1 hp).1, ?_⟩
      have hlen : d + 1 ≤ p.stack.length := by rw [length_stack]; omega
      rw [hstack, stack_of_parent? hp, List.take_append_of_le_length hlen]
    · rw [board?_height] at h
      cases h
      exact ⟨Nat.le_refl _, rfl, take_stack.symm⟩
    · rw [board?_eq_none_of_lt hd] at h
      cases h

theorem exists_board (h : d ≤ b.height) : ∃ a, b.board? d = some a := by
  induction b using parent_induction with
  | root b hroot =>
    have hzero := height_of_root hroot
    obtain rfl : d = b.height := by omega
    exact ⟨b, board?_height⟩
  | child b p hp ih =>
    rcases Nat.lt_or_eq_of_le h with hd | rfl
    · rw [board?_of_parent? hp hd]
      exact ih (by rw [height_of_parent? hp] at hd; omega)
    · exact ⟨b, board?_height⟩

theorem height_of_board? (h : b.board? d = some a) : a.height = d := by
  obtain ⟨hd, -, hstack⟩ := board?_eq_some h
  have hlen := congrArg List.length hstack
  rw [List.length_take, length_stack, length_stack] at hlen
  omega

theorem own?_eq (b : Blackboard) (d : Nat) (n : String) :
    b.own? d n = (b.stack[d]?).bind (List.lookup n) := by
  rcases Nat.lt_or_ge b.height d with hd | hd
  · rw [own?, board?_eq_none_of_lt hd, List.getElem?_eq_none (by rw [length_stack]; omega)]
    rfl
  · obtain ⟨a, ha⟩ := exists_board hd
    obtain ⟨-, -, hstack⟩ := board?_eq_some ha
    have hlast : a.stack[d]? = some a.current := by
      rw [← height_of_board? ha, stack, List.getElem?_append_right (by simp [height])]
      simp [height]
    rw [hstack, List.getElem?_take_of_lt (Nat.lt_succ_self d)] at hlast
    rw [own?, ha, hlast]
    rfl

theorem own?_height : b.own? b.height n = b.current.lookup n := by
  rw [own?, board?_height, Option.bind_some]

theorem own?_eq_none_of_lt (h : b.height < d) : b.own? d n = none := by
  rw [own?, board?_eq_none_of_lt h, Option.bind_none]

theorem le_height_of_own? (h : b.own? d n = some e) : d ≤ b.height := by
  by_contra hd
  rw [own?_eq_none_of_lt (by omega)] at h
  cases h

/-- A board defines the same names wherever it is looked at from. -/
theorem own?_of_board? (h : b.board? d = some a) {i : Nat} (hi : i ≤ d) (n : String) :
    a.own? i n = b.own? i n := by
  rw [own?_eq, own?_eq, (board?_eq_some h).2.2, List.getElem?_take_of_lt (by omega)]

theorem value?_of_board? (h : b.board? d = some a) (e : EntryId) : a.value? e = b.value? e := by
  rw [value?, value?, entry?, entry?, (board?_eq_some h).2.1]

/-! ## Lookups -/

theorem get?_eq (b : Blackboard) (n : String) :
    b.get? n = b.stack.reverse.findSome? (List.lookup n) := by
  simp only [stack, List.reverse_append, List.reverse_reverse]
  rfl

/-- A lookup finds the entry of the nearest board that defines the name. -/
theorem get?_eq_some_iff :
    b.get? n = some e ↔ ∃ d, b.own? d n = some e ∧ ∀ i, d < i → b.own? i n = none := by
  rw [get?_eq, List.findSome?_eq_some_iff]
  constructor
  · rintro ⟨above, layer, below, hsplit, hlayer, hnone⟩
    have hstack : b.stack = below.reverse ++ layer :: above.reverse := by
      simpa using congrArg List.reverse hsplit
    refine ⟨below.length, ?_, fun i hi => ?_⟩
    · rw [own?_eq, hstack, List.getElem?_append_right (by simp)]
      simpa using hlayer
    · obtain ⟨k, rfl⟩ := Nat.exists_eq_add_of_lt hi
      rw [own?_eq, hstack, List.getElem?_append_right (by simp; omega)]
      have hindex : below.length + k + 1 - below.reverse.length = k + 1 := by simp; omega
      rw [hindex, List.getElem?_cons_succ, Option.bind_eq_none_iff]
      exact fun x hx => hnone x (List.mem_reverse.1 (List.mem_of_getElem? hx))
  · rintro ⟨d, hd, hnearest⟩
    rw [own?_eq] at hd
    obtain ⟨layer, hlayer, hlookup⟩ := Option.bind_eq_some_iff.1 hd
    obtain ⟨hlt, rfl⟩ := List.getElem?_eq_some_iff.1 hlayer
    refine ⟨(b.stack.drop (d + 1)).reverse, b.stack[d], (b.stack.take d).reverse, ?_, hlookup,
      fun x hx => ?_⟩
    · simp
    · obtain ⟨k, hk⟩ := List.mem_iff_getElem?.1 (List.mem_reverse.1 hx)
      rw [List.getElem?_drop] at hk
      have hnone := hnearest (d + 1 + k) (by omega)
      rw [own?_eq, hk] at hnone
      exact hnone

theorem get?_eq_none_iff : b.get? n = none ↔ ∀ d, b.own? d n = none := by
  rw [get?_eq, List.findSome?_eq_none_iff]
  constructor
  · intro h d
    rw [own?_eq, Option.bind_eq_none_iff]
    exact fun x hx => h x (List.mem_reverse.2 (List.mem_of_getElem? hx))
  · intro h x hx
    obtain ⟨d, hd⟩ := List.mem_iff_getElem?.1 (List.mem_reverse.1 hx)
    have hnone := h d
    rw [own?_eq, hd] at hnone
    exact hnone

/-! ## Operations -/

theorem own?_withEntries (entries : Array Entry) (d : Nat) (n : String) :
    ({ b with entries } : Blackboard).own? d n = b.own? d n := by
  rw [own?_eq, own?_eq]
  rfl

theorem own?_push (d : Nat) (n : String) : b.push.own? d n = b.own? d n := by
  rw [own?_eq, own?_eq, stack_of_parent? (p := b) rfl]
  rcases Nat.lt_trichotomy d b.stack.length with hd | rfl | hd
  · rw [List.getElem?_append_left hd]
  · rw [List.getElem?_concat_length, List.getElem?_eq_none (Nat.le_refl _)]
    rfl
  · rw [List.getElem?_eq_none (by simp; omega), List.getElem?_eq_none (by omega)]

theorem own?_define (entries : Array Entry) (m : String) (e : EntryId) (d : Nat) (n : String) :
    ({ b with entries, current := (m, e) :: b.current } : Blackboard).own? d n =
      if d = b.height ∧ n = m then some e else b.own? d n := by
  have hlen : b.ancestors.reverse.length = b.height := List.length_reverse
  rw [own?_eq, own?_eq]
  change ((b.ancestors.reverse ++ [(m, e) :: b.current])[d]?).bind (List.lookup n) =
    if d = b.height ∧ n = m then some e
    else ((b.ancestors.reverse ++ [b.current])[d]?).bind (List.lookup n)
  rcases Nat.lt_trichotomy d b.height with hd | rfl | hd
  · rw [if_neg (by omega), List.getElem?_append_left (by omega),
      List.getElem?_append_left (by omega)]
  · rw [← hlen, List.getElem?_concat_length, List.getElem?_concat_length, Option.bind_some,
      Option.bind_some, List.lookup_cons]
    by_cases hn : n = m
    · simp [hn]
    · simp [hn, beq_eq_false_iff_ne.2 hn]
  · rw [if_neg (by omega), List.getElem?_eq_none (by rw [List.length_append, hlen]; exact hd),
      List.getElem?_eq_none (by rw [List.length_append, hlen]; exact hd)]

end Blackboard

end RabinReward
