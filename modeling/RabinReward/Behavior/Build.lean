import RabinReward.Automaton.Hanoi.Reader
import RabinReward.Behavior.Graph
import RabinReward.Converter.Basic
import RabinReward.Machine.Binding

/-!
# From behaviors to machines

A behavior is compiled to a formula, a converter turns the formula into an automaton's text, and
the automaton is built over the propositions that the formula was compiled with. The first stage
that fails is reported.
-/

namespace RabinReward

inductive CompileError where
  | formula (source : Behavior.GraphError)
  | conversion (source : ConversionError)
  | parse (source : Hanoi.ParseError)
  | build (source : BuildError)
  deriving DecidableEq, Repr

def CompileError.message : CompileError → String
  | .formula e => e.message
  | .conversion e => e.message
  | .parse e => e.message
  | .build e => e.message

/-- The machine of a behavior. -/
def Behavior.build (g : Behavior) (convert : Converter) (r : Registry) (board : Blackboard)
    (config : Config) (fresh : Identity) : Except CompileError (Machine × Identity) := do
  let compiled ← g.compile.mapError .formula
  let text ← (convert compiled.formula).mapError .conversion
  let d ← (Hanoi.parse text).mapError .parse
  (d.build compiled.propositions r board config fresh).mapError .build

end RabinReward
