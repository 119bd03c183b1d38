import ShellSale.Json.Reader
import ShellSale.Json.Skip

/-!
# Records

A record is written as an object of its fields, in any order and among fields that nobody knows, or
as a list of the values of its fields in order. A layout names the fields and starts from a value
whose fields are then set one by one. Unless it asks for all fields, what is left out keeps the
value from the start, and a list may end early.
-/

namespace ShellSale.Json

/-- A field of a record: its name, and how a value for it is read and set. -/
structure Field (α : Type) where
  name : String
  read : Reader (α → α)

/-- The field that a reader and a setter make. -/
def Field.of {α β : Type} (name : String) (r : Reader β) (set : β → α → α) : Field α :=
  ⟨name, r.map set⟩

/-- How a record is written. -/
structure Layout (α : Type) where
  /-- The name of the record in messages. -/
  name : String
  fields : List (Field α)
  /-- The record before any field is set. -/
  start : α
  /-- Whether every field has to be given. -/
  complete : Bool

namespace Layout

variable {α : Type}

/-- The record in messages. -/
def title (l : Layout α) : String :=
  "struct " ++ l.name

/-- The first field that has to be given and is not. -/
def missing? (l : Layout α) (given : List String) : Option String :=
  if l.complete then (l.fields.map (·.name)).find? fun n => !given.contains n else none

/-- Reads one member of an object from behind the quote of its key: the key, what it does to the
record, and the rest. A key that the layout lacks does nothing. -/
def member (l : Layout α) (given : List String) : Reader (String × (α → α)) := fun s => do
  let (key, rest) ← readString [] s
  match l.fields.find? fun f => f.name == key with
  | some f =>
    if given.contains key then .error (.duplicateField key)
    else
      let (set, rest) ← f.read (← readColon rest)
      return ((key, set), rest)
  | none => return ((key, id), ← skipValue (← readColon rest))

/-- Reads the members of an object up to its end; `given` names those read already. Every turn takes
at least one character. -/
def members (l : Layout α) : Nat → List String → α → Reader α
  | 0, _, _, _ => .error .endInObject
  | turns + 1, given, x, s => do
    match ← nextKey given.isEmpty s with
    | .closed rest =>
      match l.missing? given with
      | some name => .error (.missingField name)
      | none => return (x, rest)
    | .item s =>
      let ((key, set), rest) ← l.member given s
      members l turns (key :: given) (set x) rest

/-- What a list of too few values lacks. -/
def lengthFault (l : Layout α) (length : Nat) : ReadError :=
  .wrongLength length (l.title ++ " with " ++ toString l.fields.length ++
    if l.fields.length = 1 then " element" else " elements")

/-- Reads the values of fields in their order; `before` of them stand in front. -/
def values (l : Layout α) (before : Nat) : List (Field α) → α → Reader α
  | [], x, s => do return (x, ← closeList s)
  | f :: fields, x, s => do
    match ← nextElement (before == 0) s with
    | .closed rest => if l.complete then .error (l.lengthFault before) else return (x, rest)
    | .item s =>
      let (set, rest) ← f.read s
      values l (before + 1) fields (set x) rest

/-- Reads a record. -/
def reader (l : Layout α) : Reader α := fun s =>
  match skipBlank s with
  | '[' :: rest => l.values 0 l.fields l.start rest
  | '\x7b' :: rest => l.members (rest.length + 1) [] l.start rest
  | other => .error (wrongStart l.title other)

end Layout

end ShellSale.Json
