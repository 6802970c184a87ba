import RabinReward.Shell.Number
import RabinReward.Shell.State

/-!
# Options of utilities

Options come first, each a letter behind a dash; several may share a dash, and one may take the rest
of its word or the next word as its argument. Two dashes end them. A specification lists the
letters, and a colon behind a letter says that it takes an argument.
-/

namespace RabinReward.Shell

/-- Whether a letter is an option, and whether it takes an argument. -/
def optionKind? (spec : List Char) (c : Char) : Option Bool :=
  match spec with
  | [] => none
  | d :: ':' :: r => if c = d then some true else optionKind? r c
  | d :: r => if c = d then some false else optionKind? r c

/-- The options in a word behind its dash, and the last of them if its argument is the next word. -/
def wordOptions (spec : List Char) :
    List Char → Except String (List (Char × String) × Option Char)
  | [] => .ok ([], none)
  | c :: cs =>
    match optionKind? spec c with
    | none => .error s!"Illegal option -{c}"
    | some false => (wordOptions spec cs).map fun (l, more) => ((c, "") :: l, more)
    | some true =>
      if cs.isEmpty then .ok ([], some c) else .ok ([(c, String.ofList cs)], none)

/-- Options and operands, or the complaint about the first option that is wrong. The number bounds
the words. -/
def splitOptions (spec : String) :
    Nat → List String → Except String (List (Char × String) × List String)
  | 0, ws => .ok ([], ws)
  | _, [] => .ok ([], [])
  | n + 1, w :: ws =>
    match w.toList with
    | ['-', '-'] => .ok ([], ws)
    | '-' :: c :: cs =>
      match wordOptions spec.toList (c :: cs) with
      | .error e => .error e
      | .ok (l, none) => (splitOptions spec n ws).map fun (m, r) => (l ++ m, r)
      | .ok (l, some c) =>
        match ws with
        | [] => .error s!"No arg for -{c} option"
        | a :: ws => (splitOptions spec n ws).map fun (m, r) => (l ++ (c, a) :: m, r)
    | _ => .ok ([], w :: ws)

/-- The options and operands of a utility of the shell. -/
def Sh.options (spec : String) (args : List String) : Sh (List (Char × String) × List String) :=
  match splitOptions spec (args.length + 1) args with
  | .ok r => return r
  | .error e => Sh.fail e

/-- The parts of a text that alternate between bytes and runs of quotes. -/
def quoteParts (cs : List Char) : List (List Char) :=
  cs.splitBy fun a b => (a == '\'') == (b == '\'')

/-- A text in quotes, as the shell would read it again: single ones, except around single quotes. -/
def singleQuoted (s : String) : String :=
  let parts := (quoteParts s.toList).map fun l =>
    if l.head? = some '\'' then '"' :: l ++ ['"'] else '\'' :: l ++ ['\'']
  let front := if s.isEmpty || s.startsWith "'" then ['\'', '\''] else []
  String.ofList (front ++ parts.flatten)

/-- A number that is an operand: decimal digits, at most the greatest number of 31 bits. -/
def Sh.number (s : String) : Sh Nat :=
  match integer64? 10 s with
  | some n =>
    if 0 ≤ n && n.toNat < 1 <<< 31 then return n.toNat else Sh.fail s!"Illegal number: {s}"
  | none => Sh.fail s!"Illegal number: {s}"

end RabinReward.Shell
