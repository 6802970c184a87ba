import RabinReward.Shell.Tool.Basic

/-!
# Options of tools

Options of tools are single letters behind a dash or names behind two, and may stand among the
operands unless `first` is set. A name may be cut short as long as only one option begins with it.
-/

namespace RabinReward.Shell.Tool

inductive Takes where
  | nothing
  | argument
  /-- An argument that must stand in the same word. -/
  | maybe
  deriving DecidableEq, Repr

structure OptionTable where
  /-- Letters, with a colon behind those that take an argument, and two if it may be missing. -/
  short : String
  /-- Names, with the letter that each is the same as. -/
  long : List (String × Char × Takes)
  /-- Whether options end at the first operand. -/
  first : Bool
  deriving Repr

/-- Whether a letter is an option, and what it takes. -/
def letterTakes? (spec : List Char) (c : Char) : Option Takes :=
  match spec with
  | [] => none
  | d :: ':' :: ':' :: r => if c = d then some .maybe else letterTakes? r c
  | d :: ':' :: r => if c = d then some .argument else letterTakes? r c
  | d :: r => if c = d then some .nothing else letterTakes? r c

abbrev Options := List (Char × String)

/-- The options in a word behind its dash, and the last of them if it wants the next word. -/
def letters (t : OptionTable) : List Char → Except String (Options × Option Char)
  | [] => .ok ([], none)
  | c :: cs =>
    match letterTakes? t.short.toList c with
    | none => .error s!"invalid option -- '{c}'"
    | some .nothing => (letters t cs).map fun (l, more) => ((c, "") :: l, more)
    | some .maybe => .ok ([(c, String.ofList cs)], none)
    | some .argument => if cs.isEmpty then .ok ([], some c) else .ok ([(c, String.ofList cs)], none)

/-- A long option, given its name and the argument behind an equals sign. -/
def longOption (t : OptionTable) (name : String) (value : Option String) (ws : List String) :
    Except String ((Char × String) × List String) :=
  let exact := t.long.filter fun (n, _, _) => n == name
  let candidates :=
    if exact.isEmpty then t.long.filter fun (n, _, _) => n.startsWith name else exact
  match candidates, value with
  | [], _ => .error s!"unrecognized option '--{name}'"
  | (n, c, takes) :: more, value =>
    if more.any fun (_, d, _) => d != c then
      let names := candidates.map fun (n, _, _) => s!" '--{n}'"
      .error (s!"option '--{name}' is ambiguous; possibilities:" ++ String.join names)
    else
      match takes, value with
      | .nothing, some _ => .error s!"option '--{n}' doesn't allow an argument"
      | .nothing, none | .maybe, none => .ok ((c, ""), ws)
      | .maybe, some v | .argument, some v => .ok ((c, v), ws)
      | .argument, none =>
        match ws with
        | v :: ws => .ok ((c, v), ws)
        | [] => .error s!"option '--{n}' requires an argument"

/-- Splits arguments into options and operands. The number bounds the words. -/
def parse (t : OptionTable) : Nat → List String → Except String (Options × List String)
  | 0, ws => .ok ([], ws)
  | _, [] => .ok ([], [])
  | n + 1, w :: ws =>
    match w.toList with
    | ['-', '-'] => .ok ([], ws)
    | '-' :: '-' :: cs =>
      let name := String.ofList (cs.takeWhile (· != '='))
      let value := match cs.drop name.length with
        | _ :: v => some (String.ofList v)
        | [] => none
      match longOption t name value ws with
      | .error e => .error e
      | .ok (o, ws) => (parse t n ws).map fun (os, r) => (o :: os, r)
    | '-' :: c :: cs =>
      match letters t (c :: cs) with
      | .error e => .error e
      | .ok (l, none) => (parse t n ws).map fun (os, r) => (l ++ os, r)
      | .ok (l, some c) =>
        match ws with
        | [] => .error s!"option requires an argument -- '{c}'"
        | a :: ws => (parse t n ws).map fun (os, r) => (l ++ (c, a) :: os, r)
    | _ =>
      if t.first then .ok ([], w :: ws)
      else (parse t n ws).map fun (os, r) => (os, w :: r)

/-- Runs a tool on its options and operands, or complains about its options. -/
def withOptions (name : String) (status : Nat) (t : OptionTable) (args : List String)
    (use : Options → List String → Sh Nat) : Sh Nat :=
  match parse t (args.length + 1) args with
  | .ok (os, rest) => use os rest
  | .error e => tryHelp name e status

def has (os : Options) (c : Char) : Bool := os.any (·.1 == c)

/-- The argument of the last option with a letter. -/
def argument? (os : Options) (c : Char) : Option String :=
  (os.reverse.find? (·.1 == c)).map (·.2)

end RabinReward.Shell.Tool
