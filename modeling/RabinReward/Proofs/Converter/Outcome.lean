import RabinReward.Behavior.Build
import RabinReward.Proofs.Guard.Value

/-!
# The outcome of a conversion

For every host, a run amounts to a text exactly if the program exits with code zero, complains of
nothing and writes characters that are not all blank. Otherwise the run has one fault
(`Execution.Fault`): what the program complains of counts before what it writes, and its exit code
before both.
-/

namespace RabinReward

variable {program : String} {x : Execution} {text : String} {e : ConversionError}

namespace Execution

abbrev complaint (stderr : List UInt8) : String := trimString (Utf8.decodeLossy stderr)

/-- What is wrong with a run. -/
inductive Fault (program : String) : Execution → ConversionError → Prop where
  | notStarted (reason : String) :
      Fault program (.notStarted reason) (.notStarted program reason)
  | failed {code : Option Int} {stdout stderr : List UInt8} : code ≠ some 0 →
      Fault program (.exited code stdout stderr) (.failed code (complaint stderr))
  | complained {stdout stderr : List UInt8} : complaint stderr ≠ "" →
      Fault program (.exited (some 0) stdout stderr) (.complained (complaint stderr))
  | encoding {stdout stderr : List UInt8} {source : Utf8.Error} : complaint stderr = "" →
      Utf8.decode stdout = .error source →
      Fault program (.exited (some 0) stdout stderr) (.encoding source)
  | noOutput {stdout stderr : List UInt8} {text : String} : complaint stderr = "" →
      Utf8.decode stdout = .ok text → trimString text = "" →
      Fault program (.exited (some 0) stdout stderr) .noOutput

def Yields (x : Execution) (text : String) : Prop :=
  ∃ stdout stderr, x = .exited (some 0) stdout stderr ∧ complaint stderr = "" ∧
    Utf8.decode stdout = .ok text ∧ trimString text ≠ ""

theorem text_eq_ok_iff : x.text program = .ok text ↔ x.Yields text := by
  constructor
  · intro h
    cases x with
    | notStarted reason => cases h
    | exited code stdout stderr =>
      unfold Execution.text at h
      dsimp only at h
      split at h
      · cases h
      next hcode =>
      split at h
      · cases h
      next hquiet =>
      split at h
      · cases h
      next source hdecode =>
      split at h
      · cases h
      next hblank =>
      cases h
      obtain rfl := Decidable.not_not.1 hcode
      exact ⟨stdout, stderr, rfl, Decidable.not_not.1 hquiet, hdecode, hblank⟩
  · rintro ⟨stdout, stderr, rfl, hquiet, hdecode, hblank⟩
    simp only [Execution.text, hquiet, hdecode, hblank, ne_eq, not_true_eq_false, if_false]

theorem text_eq_error_iff : x.text program = .error e ↔ x.Fault program e := by
  constructor
  · intro h
    cases x with
    | notStarted reason =>
      cases h
      exact .notStarted reason
    | exited code stdout stderr =>
      unfold Execution.text at h
      dsimp only at h
      split at h
      · next hcode =>
        cases h
        exact .failed hcode
      next hcode =>
      obtain rfl := Decidable.not_not.1 hcode
      split at h
      · next hcomplaint =>
        cases h
        exact .complained hcomplaint
      next hquiet =>
      split at h
      · next source hdecode =>
        cases h
        exact .encoding (Decidable.not_not.1 hquiet) hdecode
      next text hdecode =>
      split at h
      · next hblank =>
        cases h
        exact .noOutput (Decidable.not_not.1 hquiet) hdecode hblank
      · cases h
  · intro h
    cases h with
    | notStarted reason => rfl
    | failed hcode => simp only [Execution.text, hcode, ne_eq, not_false_eq_true, if_true]
    | complained hcomplaint =>
      simp only [Execution.text, hcomplaint, ne_eq, not_true_eq_false, not_false_eq_true, if_true,
        if_false]
    | encoding hquiet hdecode =>
      simp only [Execution.text, hquiet, hdecode, ne_eq, not_true_eq_false, if_false]
    | noOutput hquiet hdecode hblank =>
      simp only [Execution.text, hquiet, hdecode, hblank, ne_eq, not_true_eq_false, if_true,
        if_false]

end Execution

variable {host : Host} {i : Invocation} {f : Formula}

theorem Invocation.convert_eq_ok_iff : i.convert host f = .ok text ↔
    (host i.program (i.args ++ [f.print])).Yields text :=
  Execution.text_eq_ok_iff

theorem Invocation.convert_eq_error_iff : i.convert host f = .error e ↔
    (host i.program (i.args ++ [f.print])).Fault i.program e :=
  Execution.text_eq_error_iff

/-- **A conversion matters through its outcome alone.** A behavior that compiles is built from the
text that the run yields, or fails with the fault of the run. -/
theorem Behavior.build_of_run {g : Behavior} {c : CompiledFormula} (h : g.compile = .ok c)
    (host : Host) (i : Invocation) (r : Registry) (board : Blackboard) (config : Config)
    (fresh : Identity) :
    (∀ text, (host i.program (i.args ++ [c.formula.print])).Yields text →
      g.build (i.convert host) r board config fresh =
        g.build (fun _ => .ok text) r board config fresh) ∧
    ∀ e, (host i.program (i.args ++ [c.formula.print])).Fault i.program e →
      g.build (i.convert host) r board config fresh = .error (.conversion e) := by
  have hcompile : g.compile.mapError CompileError.formula = .ok c := by
    rw [h]
    rfl
  constructor
  · intro text hyields
    have hconvert := Invocation.convert_eq_ok_iff.2 hyields
    simp only [Behavior.build, hcompile, hconvert, bind, Except.bind]
  · intro e hfault
    have hconvert := Invocation.convert_eq_error_iff.2 hfault
    simp only [Behavior.build, hcompile, hconvert, bind, Except.bind]
    rfl

end RabinReward
