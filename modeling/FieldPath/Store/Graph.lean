import FieldPath.Ty.Field
import FieldPath.Value

/-!
# Object graphs

An object graph answers reads and writes of fields by handle.  Evaluation needs nothing else of the
objects, so it is stated over any graph.  A graph may refuse an access; a refused write leaves it
as it was.

## Main definitions

* `AccessError` — why an access is refused.
* `ObjectGraph` — the four accesses.
* `Refusal` — the graph that refuses everything for one reason.
-/

namespace FieldPath

/-- Why an object graph refuses a read or a write. -/
inductive AccessError where
  /-- The field may not be accessed in this way, such as by a write to a final field. -/
  | denied (field reason : String)
  /-- The value does not fit the type of the field. -/
  | invalidArgument (field expected found : String)
  /-- The object of the handle has been freed. -/
  | staleHandle (index : Nat)
  /-- The object, or the class, has no such field. -/
  | noSuchField (type field : String)
  deriving DecidableEq, Repr

/-- The text of a refused access. -/
def AccessError.message : AccessError → String
  | .denied field reason => "access to " ++ field ++ " denied: " ++ reason
  | .invalidArgument field expected found =>
      "cannot store " ++ found ++ " in " ++ field ++ " of type " ++ expected
  | .staleHandle index => "stale handle: object at index " ++ toString index ++ " has been freed"
  | .noSuchField type field => "object of type " ++ type ++ " has no field " ++ field

/-- Reads and writes of the fields of objects and classes. -/
class ObjectGraph (γ : Type) where
  /-- The value of a field of an object. -/
  getField : γ → Handle → Field → Except AccessError Value
  /-- The graph after a write to a field of an object. -/
  setField : γ → Handle → Field → Value → Except AccessError γ
  /-- The value of a field of a class. -/
  getStatic : γ → Field → Except AccessError Value
  /-- The graph after a write to a field of a class. -/
  setStatic : γ → Field → Value → Except AccessError γ

/-- A graph that refuses every access for one reason. -/
structure Refusal where
  /-- The reason. -/
  reason : AccessError

instance : ObjectGraph Refusal where
  getField g _ _ := .error g.reason
  setField g _ _ _ := .error g.reason
  getStatic g _ := .error g.reason
  setStatic g _ _ := .error g.reason

end FieldPath
