import FlowScript.Json.Basic

/-!
# Records, nodes and choices as JSON

A record is an object, or an array of its members in order. A node is a record of one of several forms: as an object it
tells its form by the member `t`, as an array by its first item. `record?_obj` and `node?_obj` say that an object is read
as it is.
-/

namespace FlowScript.Json

/-- The names of a record's members in order. Those at the end have defaults. -/
structure Record where
  required : List String
  defaulted : List String := []
deriving Repr, DecidableEq

/-- The members of a record, as an object. An array may end early only where the members left out have defaults; an
    object is not looked into. -/
def record? (r : Record) : Json → Option Json
  | obj members => some (obj members)
  | arr items =>
    if r.required.length ≤ items.length ∧ items.length ≤ r.required.length + r.defaulted.length then
      some (obj ((r.required ++ r.defaulted).zip items))
    else none
  | _ => none

/-- A form of a node: its name, and its members. -/
structure Form where
  name : String
  record : Record
deriving Repr, DecidableEq

/-- What tells the form of a node. -/
def mark? : Json → Option Json
  | obj members => members.lookup "t"
  | arr items => items.head?
  | _ => none

/-- The name of the form that a mark tells: by the name itself, or by its place among the forms. -/
def formName? (forms : List Form) : Json → Option String
  | str name => some name
  | nat place => forms[place]?.map (·.name)
  | _ => none

/-- The name of a node's form, and its members as an object. -/
def node? (forms : List Form) (v : Json) : Option (String × Json) := do
  let name ← formName? forms (← v.mark?)
  match v with
  | arr items =>
    let form ← forms.find? (·.name = name)
    return (name, ← record? form.record (arr items.tail))
  | v => return (name, v)

/-- One of several names. An object whose only member has the name, and says no more, stands for it as well. -/
def choice? : Json → Option String
  | str name => some name
  | obj [(name, null)] | obj [(name, obj [])] => some name
  | _ => none

@[simp] theorem record?_obj (r : Record) (members : List (String × Json)) :
    record? r (obj members) = some (obj members) := rfl

/-- An object that tells its form by name is read as it is. -/
@[simp] theorem node?_obj (forms : List Form) (name : String) (members : List (String × Json)) :
    node? forms (obj (("t", str name) :: members)) = some (name, obj (("t", str name) :: members)) := by
  simp [node?, mark?, formName?]

end FlowScript.Json
