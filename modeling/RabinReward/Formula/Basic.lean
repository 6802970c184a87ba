/-!
# Formulas of linear temporal logic

A formula says how atomic propositions combine in time; it carries no numbers. Two formulas count
as the same when they print alike (`Formula.sameText`), which is coarser than equality of trees as
soon as an atom's name contains parentheses or is `T` or `F`.

`occurrences` lists the atoms from left to right with repetitions and `atoms` keeps the first of
each.
-/

namespace RabinReward

/-- Formulas over named atomic propositions. -/
inductive Formula where
  | atom (id : String)
  | tt
  | ff
  | not (f : Formula)
  | and (l r : Formula)
  | or (l r : Formula)
  | next (f : Formula)
  | «until» (l r : Formula)
  | release (l r : Formula)
  | globally (f : Formula)
  | eventually (f : Formula)
  deriving DecidableEq, Repr, Inhabited

namespace Formula

/-- Material implication, written with `not` and `or`. -/
def implies (l r : Formula) : Formula := .or (.not l) r

/-- Operands are always parenthesised, so precedence never matters. -/
def print : Formula → String
  | .atom id => id
  | .tt => "T"
  | .ff => "F"
  | .not f => "!(" ++ f.print ++ ")"
  | .and l r => "(" ++ l.print ++ ") & (" ++ r.print ++ ")"
  | .or l r => "(" ++ l.print ++ ") | (" ++ r.print ++ ")"
  | .next f => "X(" ++ f.print ++ ")"
  | .until l r => "(" ++ l.print ++ ") U (" ++ r.print ++ ")"
  | .release l r => "(" ++ l.print ++ ") R (" ++ r.print ++ ")"
  | .globally f => "G(" ++ f.print ++ ")"
  | .eventually f => "F(" ++ f.print ++ ")"

/-- Whether two formulas print alike. -/
def sameText (f g : Formula) : Bool := f.print == g.print

/-- Formulas that print alike hash alike. -/
instance : Hashable Formula := ⟨fun f => hash f.print⟩

theorem sameText_iff {f g : Formula} : f.sameText g = true ↔ f.print = g.print := by
  simp [sameText]

theorem sameText_refl (f : Formula) : f.sameText f = true := sameText_iff.2 rfl

def isAtomic : Formula → Bool
  | .atom _ => true
  | _ => false

/-- Immediate subformulas, left operand first. -/
def children : Formula → List Formula
  | .atom _ | .tt | .ff => []
  | .not f | .next f | .globally f | .eventually f => [f]
  | .and l r | .or l r | .until l r | .release l r => [l, r]

/-- The atoms of a formula from left to right, one entry per occurrence. -/
def occurrences : Formula → List String
  | .atom id => [id]
  | .tt | .ff => []
  | .not f | .next f | .globally f | .eventually f => f.occurrences
  | .and l r | .or l r | .until l r | .release l r => l.occurrences ++ r.occurrences

/-- The atoms of a formula, each where it first occurs. -/
def atoms (f : Formula) : List String := f.occurrences.eraseDups

/-- Number of nodes of the tree. -/
def size : Formula → Nat
  | .atom _ | .tt | .ff => 1
  | .not f | .next f | .globally f | .eventually f => f.size + 1
  | .and l r | .or l r | .until l r | .release l r => l.size + r.size + 1

end Formula

end RabinReward
