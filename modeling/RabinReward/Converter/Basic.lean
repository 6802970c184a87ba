import RabinReward.Formula.Basic
import RabinReward.Text.Blank
import RabinReward.Text.Utf8

/-!
# Converters

A converter turns a formula into an automaton's text. Usually it is a program of its own that gets
the printed formula as its last argument. Which programs there are and what they do is the host's
business (`Host`); `Execution.text` says what a run amounts to. Anything on the error channel is a
failure, even when the program reports success.
-/

namespace RabinReward

inductive ConversionError where
  | notStarted (program reason : String)
  | failed (code : Option Int) (stderr : String)
  | complained (stderr : String)
  | noOutput
  | encoding (source : Utf8.Error)
  deriving DecidableEq, Repr

/-- An exit code, or that there was none. -/
def printCode : Option Int → String
  | some n => s!"Some({n})"
  | none => "None"

def ConversionError.message : ConversionError → String
  | .notStarted program reason => s!"Could not start converter \"{program}\": {reason}"
  | .failed code stderr => s!"Converter exited with status {printCode code}: {stderr}"
  | .complained stderr => s!"Converter reported an error: {stderr}"
  | .noOutput => "Converter produced no output"
  | .encoding e => s!"Converter output is not valid UTF-8: {e.message}"

/-- A converter, as the behavior sees it. -/
abbrev Converter := Formula → Except ConversionError String

/-- A program to run and the arguments before the formula. -/
structure Invocation where
  program : String
  args : List String
  deriving DecidableEq, Repr

namespace Invocation

/-- The invocation of a Rabinizer archive that prints transition-based Rabin automata. -/
def rabinizer (jar : String) : Invocation :=
  ⟨"java", ["-jar", jar, "-format=hoa", "-auto=tr", "-silent", "-out=std"]⟩

/-- All arguments of the run for a formula. -/
def argsFor (i : Invocation) (f : Formula) : List String := i.args ++ [f.print]

end Invocation

/-- What became of a program that was to be run. -/
inductive Execution where
  | notStarted (reason : String)
  | exited (code : Option Int) (stdout stderr : List UInt8)
  deriving DecidableEq, Repr

/-- Runs the programs of a system: what becomes of one that is started by name with arguments and an
empty input. -/
abbrev Host := String → List String → Execution

def trimString (s : String) : String := String.ofList (Text.trim s.toList)

/-- The text that a run yields. -/
def Execution.text (program : String) : Execution → Except ConversionError String
  | .notStarted reason => .error (.notStarted program reason)
  | .exited code stdout stderr =>
    let complaint := trimString (Utf8.decodeLossy stderr)
    if code ≠ some 0 then .error (.failed code complaint)
    else if complaint ≠ "" then .error (.complained complaint)
    else
      match Utf8.decode stdout with
      | .error e => .error (.encoding e)
      | .ok text => if trimString text = "" then .error .noOutput else .ok text

/-- The converter that has a host start a program with the formula as its last argument. -/
def Invocation.convert (host : Host) (i : Invocation) : Converter := fun f =>
  (host i.program (i.argsFor f)).text i.program

end RabinReward
