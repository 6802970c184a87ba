import RabinReward.Guard.Parser

/-!
# Reading guards with two stacks

Another reading of the same grammar: one stack for operands, one for the operators and parentheses
that wait for theirs (`Yard`). An infix operator that arrives reduces those on the stack that hold
their operands at least as tightly, a closing parenthesis all of its group, the end of the text all
that are left. A reduction could find too few operands, and the text could end with too many; both
are errors of their own here. Neither happens: the stacks are the levels of the reader laid end to
end (`Follows`), one token keeps that (`follows_step`), and so both readings agree
(`yard_read_eq`).
-/

namespace RabinReward.Guard

inductive Operator where
  | or
  | and
  | not
  | opening
  deriving DecidableEq, Repr

/-- How tightly an operator on the stack holds its operands. -/
def Operator.held : Operator → Nat
  | .opening => 0
  | .or => 2
  | .and => 4
  | .not => 6

/-- How tightly an operator that arrives takes the operand in front of it. -/
def Operator.arriving : Operator → Nat
  | .or => 1
  | .and => 3
  | .not => 5
  | .opening => 100

inductive YardError where
  | reported (e : ParseError)
  /-- The operator at the position has too few operands on the stack. -/
  | exhausted (position : Nat)
  /-- So many operands are left, not one. -/
  | operandCount (count : Nat)
  deriving DecidableEq, Repr

/-- What the two stacks report where the reader reports `e`. -/
def YardError.ofParse : ParseError → YardError
  | .noExpression => .operandCount 0
  | e => .reported e

/-- Stacks of operands and of operators with their positions, both listed from the top. -/
structure Yard where
  operands : List Guard
  operators : List (Operator × Nat)
  /-- An operand must follow. -/
  expects : Bool
  deriving DecidableEq, Repr

namespace Yard

/-- Applies an operator to the operands on top. -/
def reduce (gs : List Guard) : Operator → Nat → Except YardError (List Guard)
  | .not, p =>
    match gs with
    | g :: gs => .ok (.not g :: gs)
    | [] => .error (.exhausted p)
  | .and, p =>
    match gs with
    | r :: l :: gs => .ok (.and l r :: gs)
    | _ => .error (.exhausted p)
  | .or, p =>
    match gs with
    | r :: l :: gs => .ok (.or l r :: gs)
    | _ => .error (.exhausted p)
  | .opening, p => .error (.reported (.unclosedParenthesis p))

/-- Applies the operators on top that satisfy `due`. -/
def reduceWhile (due : Operator → Bool) (gs : List Guard) :
    List (Operator × Nat) → Except YardError (List Guard × List (Operator × Nat))
  | [] => .ok (gs, [])
  | (o, p) :: os =>
    if due o then
      match reduce gs o p with
      | .ok gs => reduceWhile due gs os
      | .error e => .error e
    else .ok (gs, (o, p) :: os)

def push (y : Yard) (o : Operator) (p : Nat) : Except YardError Yard :=
  match reduceWhile (fun top => o.arriving ≤ top.held) y.operands y.operators with
  | .ok (gs, os) => .ok ⟨gs, (o, p) :: os, true⟩
  | .error e => .error e

def close (y : Yard) (p : Nat) : Except YardError Yard :=
  match reduceWhile (· ≠ .opening) y.operands y.operators with
  | .ok (gs, _ :: os) => .ok ⟨gs, os, false⟩
  | .ok (_, []) => .error (.reported (.unopenedParenthesis p))
  | .error e => .error e

def step (y : Yard) : Token → Except YardError Yard
  | ⟨symbol, p⟩ =>
    match symbol, y.expects with
    | .literal b, true => .ok ⟨.literal b :: y.operands, y.operators, false⟩
    | .digits ds, true =>
      if Text.numeralValue ds < UInt32.size then
        .ok ⟨.prop (UInt32.ofNat (Text.numeralValue ds)) :: y.operands, y.operators, false⟩
      else .error (.reported (.indexOverflow (String.ofList ds)))
    | .bang, true => .ok ⟨y.operands, (.not, p) :: y.operators, true⟩
    | .opening, true => .ok ⟨y.operands, (.opening, p) :: y.operators, true⟩
    | .amp, true | .bar, true | .closing, true => .error (.reported (.missingOperand p))
    | .literal _, false | .digits _, false | .bang, false | .opening, false =>
      .error (.reported (.unexpectedOperand p))
    | .amp, false => y.push .and p
    | .bar, false => y.push .or p
    | .closing, false => y.close p
    | .other c, _ => .error (.reported (.unexpectedCharacter c p))

/-- What is left when all operators have been applied. -/
def conclude (y : Yard) : Except YardError Guard :=
  match reduceWhile (fun _ => true) y.operands y.operators with
  | .ok ([g], _) => .ok g
  | .ok (gs, _) => .error (.operandCount gs.length)
  | .error e => .error e

def finish (y : Yard) : Except YardError Guard :=
  match y.expects, y.operators with
  | true, (_, p) :: _ => .error (.reported (.missingOperand p))
  | _, _ => y.conclude

def run (y : Yard) : List Token → Except YardError Guard
  | [] => y.finish
  | t :: ts =>
    match y.step t with
    | .ok y => y.run ts
    | .error e => .error e

def read (text : String) : Except YardError Guard := run ⟨[], [], true⟩ (tokens 0 text.toList)

end Yard

/-! ## The stacks of a level -/

def Level.operands (l : Level) : List Guard := l.conjunction.toList ++ l.disjunction.toList

/-- The operator that a finished left operand stands in front of. -/
def waiting (o : Operator) (g : Option Guard) : List Operator := (g.map fun _ => o).toList

/-- The operators `os` are those of a level. -/
inductive Level.Holds (l : Level) : List (Operator × Nat) → Prop where
  | intro {ns cs ds : List (Operator × Nat)} :
      ns.map Prod.fst = List.replicate l.negations .not →
      cs.map Prod.fst = waiting .and l.conjunction →
      ds.map Prod.fst = waiting .or l.disjunction → Holds l (ns ++ (cs ++ ds))

/-- The stacks of the levels around the current one. -/
inductive Beneath : List (Nat × Level) → List Guard → List (Operator × Nat) → Prop where
  | outermost : Beneath [] [] []
  | group {p : Nat} {l : Level} {outer : List (Nat × Level)} {gs : List Guard}
      {os os' : List (Operator × Nat)} : l.Holds os → Beneath outer gs os' →
      Beneath ((p, l) :: outer) (l.operands ++ gs) ((.opening, p) :: (os ++ os'))

/-- The stacks stand where the reader does. -/
inductive Follows : Reader → Yard → Prop where
  | operand {l : Level} {outer : List (Nat × Level)} {gs : List Guard}
      {os os' : List (Operator × Nat)} : l.Holds os → Beneath outer gs os' →
      Follows (.operand ⟨l, outer⟩ ((os ++ os').head?.map Prod.snd))
        ⟨l.operands ++ gs, os ++ os', true⟩
  | operator {l : Level} {outer : List (Nat × Level)} {gs : List Guard} {g : Guard}
      {os os' : List (Operator × Nat)} : l.Holds os → Beneath outer gs os' →
      Follows (.operator ⟨l, outer⟩ g) ⟨g :: (l.operands ++ gs), os ++ os', false⟩

variable {due : Operator → Bool} {l : Level} {g : Guard} {gs : List Guard}
  {os os' rest : List (Operator × Nat)} {outer : List (Nat × Level)} {r r' : Reader} {y : Yard}
  {t : Token} {p : Nat}

theorem reduceWhile_of_not_due (h : ∀ x ∈ os.head?, due x.1 = false) :
    Yard.reduceWhile due gs os = .ok (gs, os) := by
  cases os with
  | nil => rfl
  | cons x os => simp only [Yard.reduceWhile, h x rfl, Bool.false_eq_true, ↓reduceIte]

theorem reduceWhile_negations (hdue : due .not = true) {n : Nat}
    (hos : os.map Prod.fst = List.replicate n .not) :
    Yard.reduceWhile due (g :: gs) (os ++ rest) =
      Yard.reduceWhile due (Level.negate n g :: gs) rest := by
  induction n generalizing os g with
  | zero =>
    obtain rfl := List.map_eq_nil_iff.1 hos
    rfl
  | succ n ih =>
    obtain ⟨⟨_, p⟩, os, rfl, rfl, htail⟩ := List.map_eq_cons_iff.1 hos
    rw [List.cons_append, Yard.reduceWhile, if_pos hdue]
    exact ih htail

/-- An infix operator whose left operand waits takes it. -/
theorem reduceWhile_waiting {o : Operator} {f : Guard → Guard → Guard} (hdue : due o = true)
    (hf : ∀ l r gs p, Yard.reduce (r :: l :: gs) o p = .ok (f l r :: gs)) {c : Option Guard}
    (hos : os.map Prod.fst = waiting o c) :
    Yard.reduceWhile due (g :: (c.toList ++ gs)) (os ++ rest) =
      Yard.reduceWhile due (c.elim g (f · g) :: gs) rest := by
  cases c with
  | none =>
    obtain rfl := List.map_eq_nil_iff.1 hos
    rfl
  | some c =>
    obtain ⟨⟨o', p⟩, os, rfl, ho, htail⟩ := List.map_eq_cons_iff.1 hos
    obtain rfl : o' = o := ho
    obtain rfl := List.map_eq_nil_iff.1 htail
    have hreduce : Yard.reduce (g :: ((some c).toList ++ gs)) o' p = .ok (f c g :: gs) :=
      hf c g gs p
    rw [List.cons_append, Yard.reduceWhile, if_pos hdue, hreduce]
    rfl

theorem Level.conjoin_eq (l : Level) (g : Guard) :
    l.conjoin g = l.conjunction.elim (negate l.negations g) (.and · (negate l.negations g)) := by
  unfold conjoin
  cases l.conjunction <;> rfl

theorem Level.disjoin_eq (l : Level) (g : Guard) :
    l.disjoin g = l.disjunction.elim (l.conjoin g) (.or · (l.conjoin g)) := by
  unfold disjoin
  cases l.disjunction <;> rfl

theorem Level.Holds.conjoin (h : l.Holds os) (due : Operator → Bool) (hnot : due .not = true)
    (hand : due .and = true) (g : Guard) (gs : List Guard) (rest : List (Operator × Nat)) :
    ∃ ds, ds.map Prod.fst = waiting .or l.disjunction ∧
      Yard.reduceWhile due (g :: (l.operands ++ gs)) (os ++ rest) =
        Yard.reduceWhile due (l.conjoin g :: (l.disjunction.toList ++ gs)) (ds ++ rest) := by
  obtain ⟨hns, hcs, hds⟩ := h
  refine ⟨_, hds, ?_⟩
  rw [List.append_assoc, List.append_assoc, reduceWhile_negations hnot hns, Level.operands,
    List.append_assoc, reduceWhile_waiting hand (fun _ _ _ _ => rfl) hcs, conjoin_eq]

theorem Level.Holds.disjoin (h : l.Holds os) (due : Operator → Bool) (hnot : due .not = true)
    (hand : due .and = true) (hor : due .or = true) (g : Guard) (gs : List Guard)
    (rest : List (Operator × Nat)) :
    Yard.reduceWhile due (g :: (l.operands ++ gs)) (os ++ rest) =
      Yard.reduceWhile due (l.disjoin g :: gs) rest := by
  obtain ⟨ds, hds, hconjoin⟩ := h.conjoin due hnot hand g gs rest
  rw [hconjoin, reduceWhile_waiting hor (fun _ _ _ _ => rfl) hds, Level.disjoin_eq]

/-! ## One token -/

theorem Level.holds_empty : Level.empty.Holds [] := by
  have : Level.empty.Holds ([] ++ ([] ++ [])) := .intro rfl rfl rfl
  exact this

theorem Level.Holds.bang (h : l.Holds os) (p : Nat) :
    Level.Holds ⟨l.disjunction, l.conjunction, l.negations + 1⟩ ((.not, p) :: os) := by
  obtain ⟨hns, hcs, hds⟩ := h
  rw [← List.cons_append]
  refine .intro ?_ hcs hds
  rw [List.map_cons, hns, List.replicate_succ]

theorem follows_start : Follows Reader.start ⟨[], [], true⟩ :=
  .operand Level.holds_empty .outermost

theorem Beneath.head (h : Beneath outer gs os) : ∀ x ∈ os.head?, x.1 = .opening := by
  cases h with
  | outermost => nofun
  | group _ _ =>
    rintro x ⟨⟩
    rfl

theorem eq_of_mem_waiting {o o' : Operator} {c : Option Guard} (h : o' ∈ waiting o c) : o' = o := by
  cases c with
  | none => cases h
  | some c => exact List.mem_singleton.1 h

theorem follows_and (h : l.Holds os) (hbelow : Beneath outer gs os') (g : Guard) (p : Nat) :
    ∃ y, Yard.push ⟨g :: (l.operands ++ gs), os ++ os', false⟩ .and p = .ok y ∧
      Follows (.operand ⟨⟨l.disjunction, some (l.conjoin g), 0⟩, outer⟩ (some p)) y := by
  obtain ⟨ds, hds, hconjoin⟩ :=
    h.conjoin (fun top => Operator.and.arriving ≤ top.held) rfl rfl g gs os'
  have hstop : ∀ x ∈ (ds ++ os').head?, decide (Operator.and.arriving ≤ x.1.held) = false := by
    cases ds with
    | nil =>
      intro x hx
      rw [hbelow.head x hx]
      rfl
    | cons x ds =>
      rintro _ ⟨⟩
      have hx : x.1 ∈ waiting .or l.disjunction := hds ▸ List.mem_cons_self
      rw [eq_of_mem_waiting hx]
      rfl
  have hholds : Level.Holds ⟨l.disjunction, some (l.conjoin g), 0⟩ ([] ++ ([(.and, p)] ++ ds)) :=
    .intro rfl rfl hds
  refine ⟨_, ?_, .operand hholds hbelow⟩
  rw [Yard.push, hconjoin, reduceWhile_of_not_due hstop]
  rfl

theorem follows_or (h : l.Holds os) (hbelow : Beneath outer gs os') (g : Guard) (p : Nat) :
    ∃ y, Yard.push ⟨g :: (l.operands ++ gs), os ++ os', false⟩ .or p = .ok y ∧
      Follows (.operand ⟨⟨some (l.disjoin g), none, 0⟩, outer⟩ (some p)) y := by
  have hstop : ∀ x ∈ os'.head?, decide (Operator.or.arriving ≤ x.1.held) = false := by
    intro x hx
    rw [hbelow.head x hx]
    rfl
  have hholds : Level.Holds ⟨some (l.disjoin g), none, 0⟩ ([] ++ ([] ++ [(.or, p)])) :=
    .intro rfl rfl rfl
  refine ⟨_, ?_, .operand hholds hbelow⟩
  rw [Yard.push, h.disjoin _ rfl rfl rfl, reduceWhile_of_not_due hstop]
  rfl

/-- Both readings take a token or report the same of it. -/
theorem follows_step (h : Follows r y) (t : Token) :
    match r.step t with
    | .ok r' => ∃ y', y.step t = .ok y' ∧ Follows r' y'
    | .error e => y.step t = .error (.ofParse e) := by
  obtain ⟨symbol, p⟩ := t
  cases h with
  | @operand l outer gs os os' hl hbelow =>
    cases symbol with
    | literal b => exact ⟨_, rfl, .operator hl hbelow⟩
    | digits ds =>
      simp only [Reader.step, Yard.step]
      split
      · rename_i hr
        split at hr
        · rename_i hlt
          cases hr
          exact ⟨_, if_pos hlt, .operator hl hbelow⟩
        · cases hr
      · rename_i hr
        split at hr
        · cases hr
        · rename_i hlarge
          cases hr
          exact if_neg hlarge
    | bang => exact ⟨_, rfl, .operand (hl.bang p) hbelow⟩
    | opening => exact ⟨_, rfl, .operand Level.holds_empty (.group hl hbelow)⟩
    | amp | bar | closing | other c => rfl
  | @operator l outer gs g os os' hl hbelow =>
    cases symbol with
    | literal b | digits ds | bang | opening | other c => rfl
    | amp => exact follows_and hl hbelow g p
    | bar => exact follows_or hl hbelow g p
    | closing =>
      have hclose := hl.disjoin (· ≠ .opening) rfl rfl rfl g gs os'
      simp only [Reader.step, Yard.step, Yard.close, hclose]
      cases hbelow with
      | outermost => rfl
      | group hl' hbelow => exact ⟨_, rfl, .operator hl' hbelow⟩

/-! ## The whole text -/

theorem eq_none_of_waiting {o : Operator} {c : Option Guard} (h : waiting o c = []) : c = none := by
  cases c with
  | none => rfl
  | some c => cases h

theorem Level.Holds.operands_eq_nil (h : l.Holds os) (hos : os = []) : l.operands = [] := by
  obtain ⟨-, hcs, hds⟩ := h
  obtain ⟨-, hos⟩ := List.append_eq_nil_iff.1 hos
  obtain ⟨rfl, rfl⟩ := List.append_eq_nil_iff.1 hos
  rw [Level.operands, eq_none_of_waiting hcs.symm, eq_none_of_waiting hds.symm]
  rfl

theorem follows_finish (h : Follows r y) : y.finish = r.finish.mapError .ofParse := by
  cases h with
  | @operand l outer gs os os' hl hbelow =>
    cases hstack : os ++ os' with
    | cons x rest => rfl
    | nil =>
      obtain ⟨hos, rfl⟩ := List.append_eq_nil_iff.1 hstack
      cases hbelow
      rw [hl.operands_eq_nil hos]
      rfl
  | @operator l outer gs g os os' hl hbelow =>
    have hall := hl.disjoin (fun _ => true) rfl rfl rfl g gs os'
    cases hbelow with
    | outermost =>
      simp only [Yard.finish, Yard.conclude, hall]
      rfl
    | group _ _ =>
      simp only [Yard.finish, Yard.conclude, hall]
      rfl

theorem follows_run (h : Follows r y) (ts : List Token) :
    y.run ts = (r.run ts).mapError .ofParse := by
  induction ts generalizing r y with
  | nil => exact follows_finish h
  | cons t ts ih =>
    have hstep := follows_step h t
    simp only [Reader.run, Yard.run]
    cases hr : r.step t with
    | ok r' =>
      rw [hr] at hstep
      obtain ⟨y', hy', h'⟩ := hstep
      rw [hy']
      exact ih h'
    | error e =>
      rw [hr] at hstep
      rw [hstep]
      rfl

/-- **Two stacks read what the reader reads**, and report what it reports. -/
theorem yard_read_eq (text : String) : Yard.read text = (parse text).mapError .ofParse :=
  follows_run follows_start _

/-- No reduction runs out of operands, and no text ends with more than one. -/
theorem yard_read_ne (text : String) :
    (∀ p, Yard.read text ≠ .error (.exhausted p)) ∧
      ∀ k, Yard.read text = .error (.operandCount k) → k = 0 := by
  rw [yard_read_eq]
  cases parse text with
  | ok g => exact ⟨nofun, nofun⟩
  | error e =>
    cases e with
    | noExpression =>
      refine ⟨nofun, fun k hk => ?_⟩
      cases hk
      rfl
    | _ => exact ⟨nofun, nofun⟩

end RabinReward.Guard
