import RabinReward.Guard.Basic
import RabinReward.Guard.Token

/-!
# Reading guards

One pass over the tokens. `!` binds tightest and `|` loosest; both infix operators associate to the
left. What is waiting for the operand that comes next is kept per level of parentheses: a
disjunction that a `|` has closed, a conjunction that an `&` has closed, and a number of negations
(`Level`). Either an operand must follow (`Reader.operand`) or one has just been read
(`Reader.operator`), and the first token that does not fit is reported.
-/

namespace RabinReward.Guard

inductive ParseError where
  | unexpectedCharacter (c : Char) (position : Nat)
  | missingOperand (position : Nat)
  | unexpectedOperand (position : Nat)
  | unclosedParenthesis (position : Nat)
  | unopenedParenthesis (position : Nat)
  | indexOverflow (digits : String)
  | noExpression
  deriving DecidableEq, Repr

def ParseError.message : ParseError → String
  | .unexpectedCharacter c p => s!"Unexpected character '{c}' at position {p}"
  | .missingOperand p => s!"Operator at position {p} is missing an operand"
  | .unexpectedOperand p => s!"Operand at position {p} is not preceded by an operator"
  | .unclosedParenthesis p => s!"Parenthesis opened at position {p} is never closed"
  | .unopenedParenthesis p => s!"Parenthesis closed at position {p} was never opened"
  | .indexOverflow ds => s!"Proposition index {ds} does not fit in 32 bits"
  | .noExpression => "Expected exactly one expression, found 0"

/-- What one level of parentheses holds in front of the operand that comes next. -/
structure Level where
  disjunction : Option Guard
  conjunction : Option Guard
  negations : Nat
  deriving DecidableEq, Repr

namespace Level

def empty : Level := ⟨none, none, 0⟩

/-- Applies a number of negations. -/
def negate : Nat → Guard → Guard
  | 0, g => g
  | n + 1, g => negate n (.not g)

/-- The conjunction that an operand completes. -/
def conjoin (l : Level) (g : Guard) : Guard :=
  match l.conjunction with
  | none => negate l.negations g
  | some c => .and c (negate l.negations g)

/-- The disjunction that an operand completes. -/
def disjoin (l : Level) (g : Guard) : Guard :=
  match l.disjunction with
  | none => l.conjoin g
  | some d => .or d (l.conjoin g)

end Level

/-- The current level and the levels around it, each with the position of the parenthesis that
opened the level inside it. -/
structure Context where
  level : Level
  outer : List (Nat × Level)
  deriving DecidableEq, Repr

/-- Where the reading stands between two tokens. -/
inductive Reader where
  /-- An operand must follow; `last` is where the token before it starts. -/
  | operand (ctx : Context) (last : Option Nat)
  /-- The operand `g` has been read. -/
  | operator (ctx : Context) (g : Guard)
  deriving DecidableEq, Repr

def Reader.start : Reader := .operand ⟨.empty, []⟩ none

/-- Reads one token. -/
def Reader.step : Reader → Token → Except ParseError Reader
  | .operand ctx _, ⟨symbol, p⟩ =>
    match symbol with
    | .literal b => .ok (.operator ctx (.literal b))
    | .digits ds =>
      if Text.numeralValue ds < UInt32.size then
        .ok (.operator ctx (.prop (UInt32.ofNat (Text.numeralValue ds))))
      else .error (.indexOverflow (String.ofList ds))
    | .bang =>
      .ok (.operand ⟨⟨ctx.level.disjunction, ctx.level.conjunction, ctx.level.negations + 1⟩,
        ctx.outer⟩ (some p))
    | .opening => .ok (.operand ⟨.empty, (p, ctx.level) :: ctx.outer⟩ (some p))
    | .amp | .bar | .closing => .error (.missingOperand p)
    | .other c => .error (.unexpectedCharacter c p)
  | .operator ctx g, ⟨symbol, p⟩ =>
    match symbol with
    | .literal _ | .digits _ | .bang | .opening => .error (.unexpectedOperand p)
    | .amp =>
      .ok (.operand ⟨⟨ctx.level.disjunction, some (ctx.level.conjoin g), 0⟩, ctx.outer⟩ (some p))
    | .bar => .ok (.operand ⟨⟨some (ctx.level.disjoin g), none, 0⟩, ctx.outer⟩ (some p))
    | .closing =>
      match ctx.outer with
      | [] => .error (.unopenedParenthesis p)
      | (_, level) :: outer => .ok (.operator ⟨level, outer⟩ (ctx.level.disjoin g))
    | .other c => .error (.unexpectedCharacter c p)

/-- What the text means if it ends here. -/
def Reader.finish : Reader → Except ParseError Guard
  | .operand _ none => .error .noExpression
  | .operand _ (some p) => .error (.missingOperand p)
  | .operator ⟨_, (p, _) :: _⟩ _ => .error (.unclosedParenthesis p)
  | .operator ⟨level, []⟩ g => .ok (level.disjoin g)

/-- Reads the remaining tokens. -/
def Reader.run (s : Reader) : List Token → Except ParseError Guard
  | [] => s.finish
  | t :: ts =>
    match s.step t with
    | .ok s => s.run ts
    | .error e => .error e

/-- Reads a guard. -/
def parseChars (cs : List Char) : Except ParseError Guard := Reader.start.run (tokens 0 cs)

/-- Reads a guard. -/
def parse (text : String) : Except ParseError Guard := parseChars text.toList

end RabinReward.Guard
