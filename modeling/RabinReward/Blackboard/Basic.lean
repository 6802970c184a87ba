import RabinReward.SortedSet
import RabinReward.Blackboard.Value

/-!
# Blackboards

A blackboard holds named, typed entries in layers. A handle is the index of an entry: it stays
valid, and sees every later write to the entry, whatever layers are pushed on top. Names are looked
up in the current layer first and then in its ancestors, nearest first; setting a name never
touches an ancestor. The kind of an entry is fixed when it is created.
-/

namespace RabinReward

structure Entry where
  name : String
  value : Value
  deriving DecidableEq, Repr

/-- The names of one board, with the entries they stand for. -/
abbrev Layer := List (String × EntryId)

structure Blackboard where
  entries : Array Entry
  current : Layer
  /-- The layers below the current one, nearest first. -/
  ancestors : List Layer
  deriving DecidableEq, Repr

inductive BlackboardError where
  | emptyName
  | typeMismatch (name : String) (expected found : ValueKind)
  deriving DecidableEq, Repr

def BlackboardError.message : BlackboardError → String
  | .emptyName => "Blackboard entry names must not be empty"
  | .typeMismatch name expected found =>
    s!"Entry \"{name}\" holds a {expected.name} value, cannot store a {found.name}"

namespace Blackboard

def empty : Blackboard := ⟨#[], [], []⟩

def entry? (b : Blackboard) (e : EntryId) : Option Entry := b.entries[e]?

def value? (b : Blackboard) (e : EntryId) : Option Value := (b.entry? e).map Entry.value

/-- Overwrites the value of an entry with one of the same kind. -/
def write (b : Blackboard) (e : EntryId) (v : Value) : Except BlackboardError Blackboard :=
  match b.entry? e with
  | none => .ok b
  | some old =>
    if v.kind = old.value.kind then
      .ok { b with entries := b.entries.set! e { old with value := v } }
    else .error (.typeMismatch old.name old.value.kind v.kind)

/-- Overwrites the entry of the current layer, or creates it; returns its handle. -/
def set (b : Blackboard) (name : String) (v : Value) :
    Except BlackboardError (EntryId × Blackboard) :=
  if name.isEmpty then .error .emptyName
  else
    match b.current.lookup name with
    | some e => (b.write e v).map (e, ·)
    | none =>
      let e := b.entries.size
      .ok (e, { b with entries := b.entries.push ⟨name, v⟩, current := (name, e) :: b.current })

/-- The entry that a name stands for, in the nearest layer that has it. -/
def get? (b : Blackboard) (name : String) : Option EntryId :=
  (b.current :: b.ancestors).findSome? fun layer => layer.lookup name

def contains (b : Blackboard) (name : String) : Bool := (b.get? name).isSome

/-- An empty layer above the current one. -/
def push (b : Blackboard) : Blackboard :=
  { b with current := [], ancestors := b.current :: b.ancestors }

/-- The board below the current layer. -/
def parent? (b : Blackboard) : Option Blackboard :=
  match b.ancestors with
  | [] => none
  | layer :: rest => some { b with current := layer, ancestors := rest }

/-- The names of the current layer. -/
def names (b : Blackboard) : SortedSet String := .ofList (b.current.map Prod.fst)

end Blackboard

end RabinReward
