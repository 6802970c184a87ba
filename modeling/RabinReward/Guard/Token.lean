import RabinReward.Text.Blank
import RabinReward.Text.Numeral

/-!
# Tokens of a guard

A guard's text is a sequence of one-character symbols and maximal runs of digits. White space
between them is dropped; any other character becomes a token of its own, so that the reader meets
it in its turn. Positions are byte offsets of the text in UTF-8.

The scan runs from the right: a digit joins the run that starts right behind it.
-/

namespace RabinReward.Guard

inductive Symbol where
  | literal (b : Bool)
  | digits (ds : List Char)
  | bang
  | amp
  | bar
  | opening
  | closing
  | other (c : Char)
  deriving DecidableEq, Repr

/-- A symbol and the byte offset at which it starts. -/
structure Token where
  symbol : Symbol
  position : Nat
  deriving DecidableEq, Repr

/-- The symbol of a character that is neither blank nor a digit. -/
def Symbol.ofChar (c : Char) : Symbol :=
  if c = 't' then .literal true
  else if c = 'f' then .literal false
  else if c = '!' then .bang
  else if c = '&' then .amp
  else if c = '|' then .bar
  else if c = '(' then .opening
  else if c = ')' then .closing
  else .other c

/-- Puts a digit in front of the run that starts at the next byte, or starts a run of its own. -/
def consDigit (c : Char) (position : Nat) : List Token → List Token
  | ⟨.digits ds, p⟩ :: ts =>
    if p = position + 1 then ⟨.digits (c :: ds), position⟩ :: ts
    else ⟨.digits [c], position⟩ :: ⟨.digits ds, p⟩ :: ts
  | ts => ⟨.digits [c], position⟩ :: ts

/-- The tokens of a text that starts at the given byte offset. -/
def tokens (position : Nat) : List Char → List Token
  | [] => []
  | c :: cs =>
    let rest := tokens (position + c.utf8Size) cs
    if Text.isBlank c then rest
    else if Text.isDigit c then consDigit c position rest
    else ⟨.ofChar c, position⟩ :: rest

end RabinReward.Guard
