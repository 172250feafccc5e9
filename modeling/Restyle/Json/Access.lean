import Restyle.Fault

namespace Restyle.Json

/-- The fields of an object. -/
def fields : Json → Except Fault (Fields Json)
  | .object fields => .ok fields
  | _ => .error .noFields

/-- The field of an object, if it has one of that name. -/
def field? (value : Json) (name : String) : Except Fault (Option Json) :=
  value.fields.map fun fields => Fields.get? fields name

/-- The field of an object that it must have. -/
def field (value : Json) (name : String) : Except Fault Json := do
  match ← value.field? name with
  | some field => return field
  | none => throw (.missingField name)

end Restyle.Json
