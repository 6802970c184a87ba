import RabinReward.Formula.NormalForm
import RabinReward.Formula.Closure
import RabinReward.Guard.Parser
import RabinReward.Robustness.Binary
import RabinReward.Predicate.Resolution
import RabinReward.Automaton.Distance
import RabinReward.Automaton.Hanoi.Reader
import RabinReward.Machine.Tick
import RabinReward.Machine.Graph
import RabinReward.Machine.Binding
import RabinReward.Behavior.Build
import RabinReward.Shell.Start
import RabinReward.Proofs.Robustness.Rounding
import RabinReward.Proofs.Text.Layout
import RabinReward.Proofs.Formula.Semantics
import RabinReward.Proofs.Formula.Print
import RabinReward.Proofs.Formula.NormalForm
import RabinReward.Proofs.Formula.Rewriting
import RabinReward.Proofs.Formula.Closure
import RabinReward.Proofs.Guard.Grammar
import RabinReward.Proofs.Guard.Value
import RabinReward.Proofs.Guard.Spacing
import RabinReward.Proofs.Guard.Fault
import RabinReward.Proofs.Guard.Binding
import RabinReward.Proofs.Automaton.Distance
import RabinReward.Proofs.Automaton.RabinPath
import RabinReward.Proofs.Automaton.Hanoi.Line
import RabinReward.Proofs.Automaton.Hanoi.Document
import RabinReward.Proofs.Automaton.Hanoi.Accepted
import RabinReward.Proofs.Automaton.Hanoi.Fault
import RabinReward.Proofs.Automaton.Hanoi.Relaid
import RabinReward.Proofs.Automaton.Hanoi.Rendering
import RabinReward.Proofs.Automaton.Hanoi.Writable
import RabinReward.Proofs.Machine.Construction
import RabinReward.Proofs.Machine.Defect
import RabinReward.Proofs.Machine.Selection
import RabinReward.Proofs.Machine.BooleanRun
import RabinReward.Proofs.Machine.Step
import RabinReward.Proofs.Machine.DeadState
import RabinReward.Proofs.Machine.Reward
import RabinReward.Proofs.Machine.Verdict
import RabinReward.Proofs.Machine.History
import RabinReward.Proofs.Machine.Safety
import RabinReward.Proofs.Machine.Reset
import RabinReward.Proofs.Machine.Specification
import RabinReward.Proofs.Machine.Bounds
import RabinReward.Proofs.Machine.NearMiss
import RabinReward.Proofs.Machine.Sharing
import RabinReward.Proofs.Predicate.Visit
import RabinReward.Proofs.Predicate.Walk
import RabinReward.Proofs.Registry.Resolution
import RabinReward.Proofs.Registry.Conditions
import RabinReward.Proofs.Blackboard.Layers
import RabinReward.Proofs.Blackboard.Session
import RabinReward.Proofs.Blackboard.Coherence
import RabinReward.Proofs.Blackboard.Isolation
import RabinReward.Proofs.Behavior.Unfolding
import RabinReward.Proofs.Behavior.Visits
import RabinReward.Proofs.Behavior.Alignment
import RabinReward.Proofs.Behavior.Factories
import RabinReward.Proofs.Converter.Outcome
import RabinReward.Proofs.Automaton.Hanoi.Pairs
import RabinReward.Proofs.Formula.Powerset
import RabinReward.Proofs.Machine.StateGraph
import RabinReward.Proofs.Registry.Outcome
