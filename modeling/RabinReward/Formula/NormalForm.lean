import RabinReward.Formula.Basic

/-!
# Negation normal form

`polar p f` rewrites `f` (for `p = true`) or its negation (for `p = false`) so that negations stand
on atoms only and `G` and `F` are spelled `(F) R (x)` and `(T) U (x)`. Carrying the polarity down
makes one structural pass of it, and turns every operator into its dual exactly where a negation
passes it.
-/

namespace RabinReward.Formula

/-- The normal form of a formula or, under negative polarity, of its negation. -/
def polar : Bool → Formula → Formula
  | true, .atom id => .atom id
  | false, .atom id => .not (.atom id)
  | true, .tt => .tt
  | false, .tt => .ff
  | true, .ff => .ff
  | false, .ff => .tt
  | p, .not f => f.polar (!p)
  | true, .and l r => .and (l.polar true) (r.polar true)
  | false, .and l r => .or (l.polar false) (r.polar false)
  | true, .or l r => .or (l.polar true) (r.polar true)
  | false, .or l r => .and (l.polar false) (r.polar false)
  | p, .next f => .next (f.polar p)
  | true, .until l r => .until (l.polar true) (r.polar true)
  | false, .until l r => .release (l.polar false) (r.polar false)
  | true, .release l r => .release (l.polar true) (r.polar true)
  | false, .release l r => .until (l.polar false) (r.polar false)
  | true, .globally f => .release .ff (f.polar true)
  | false, .globally f => .until .tt (f.polar false)
  | true, .eventually f => .until .tt (f.polar true)
  | false, .eventually f => .release .ff (f.polar false)

/-- Negation normal form. -/
def nnf (f : Formula) : Formula := f.polar true

/-- Negations stand on atoms only, and neither `G` nor `F` occurs. -/
def isNnf : Formula → Bool
  | .atom _ | .tt | .ff => true
  | .not f => f.isAtomic
  | .globally _ | .eventually _ => false
  | .next f => f.isNnf
  | .and l r | .or l r | .until l r | .release l r => l.isNnf && r.isNnf

/-- Rewriting keeps every atom in its place. -/
theorem occurrences_polar (p : Bool) (f : Formula) :
    (f.polar p).occurrences = f.occurrences := by
  induction f generalizing p with
  | atom id | tt | ff => cases p <;> rfl
  | not f ih | next f ih | globally f ih | eventually f ih => cases p <;> exact ih _
  | and l r ihl ihr | or l r ihl ihr | «until» l r ihl ihr | release l r ihl ihr =>
    cases p <;> simp only [polar, occurrences, ihl, ihr]

end RabinReward.Formula
