import TodoTracker.Json.Decimal

/-!
# JSON values

An object is a list of named values in the order in which the names were first given. `Fields`
has the operations on such a list; they are used for the task document too.
-/

set_option autoImplicit false

namespace TodoTracker

inductive Json
  | null
  | bool (value : Bool)
  | int (value : Int)
  | decimal (value : Decimal)
  | str (value : Text)
  | list (items : List Json)
  | object (fields : List (Text × Json))
  deriving Inhabited, Repr

/-- Named values in order. -/
abbrev Fields (α : Type) := List (Text × α)

namespace Fields

variable {α : Type}

def get? (fields : Fields α) (name : Text) : Option α :=
  (fields.find? fun field => field.1 == name).map (·.2)

def has (fields : Fields α) (name : Text) : Bool := fields.any fun field => field.1 == name

/-- Give `name` a value: in its place if it has one, else at the end. -/
def set (fields : Fields α) (name : Text) (value : α) : Fields α :=
  if fields.has name then
    fields.map fun field => if field.1 == name then (name, value) else field
  else fields ++ [(name, value)]

def erase (fields : Fields α) (name : Text) : Fields α :=
  fields.filter fun field => field.1 != name

def names (fields : Fields α) : List Text := fields.map (·.1)

/-- Take over every value of `later`, one after the other. -/
def merge (fields later : Fields α) : Fields α :=
  later.foldl (fun acc field => acc.set field.1 field.2) fields

def ofList (pairs : List (Text × α)) : Fields α := merge [] pairs

end Fields

namespace Json

def text (s : String) : Json := .str s.toList

/-- The name of the kind of a value, as messages about a malformed document give it. -/
def kind : Json → Text
  | .null => "NoneType".toList
  | .bool _ => "bool".toList
  | .int _ => "int".toList
  | .decimal _ => "float".toList
  | .str _ => "str".toList
  | .list _ => "list".toList
  | .object _ => "dict".toList

/-- Null, false, zero and what is empty count as absent where a value is asked for. -/
def isPresent : Json → Bool
  | .null => false
  | .bool b => b
  | .int n => n != 0
  | .decimal value => !value.isZero
  | .str t => !t.isEmpty
  | .list items => !items.isEmpty
  | .object fields => !fields.isEmpty

/-- Nothing to record: null, the empty text, the empty list, the object without fields. -/
def isBlank : Json → Bool
  | .null => true
  | .str t => t.isEmpty
  | .list items => items.isEmpty
  | .object fields => fields.isEmpty
  | _ => false

def asText? : Json → Option Text
  | .str t => some t
  | _ => none

def asList? : Json → Option (List Json)
  | .list items => some items
  | _ => none

def asObject? : Json → Option (Fields Json)
  | .object fields => some fields
  | _ => none

/-- The value of a field of an object. -/
def field? (value : Json) (name : String) : Option Json :=
  value.asObject?.bind fun fields => Fields.get? fields name.toList

end Json

end TodoTracker
