import FieldPath.Span
import FieldPath.Ty.ClassName

/-!
# Resolution errors

Why a field expression has no meaning, and where in the rule text that was noticed.

## Main definitions

* `ResolutionCause` — the reasons.
* `ResolutionError` — a reason at a position, with its text.
-/

namespace FieldPath

/-- Why a field expression has no meaning. -/
inductive ResolutionCause where
  /-- The text is not made of identifiers with single dots between them. -/
  | malformedPath (text : String)
  /-- No binding has the name. -/
  | unknownVariable (name : String)
  /-- No leading run of the path names a known class. -/
  | invalidPath (path field : String)
  /-- A class was matched whose name the path does not spell. -/
  | pathMismatch (path : String) (type : ClassName)
  /-- The type that should have the field is not known. -/
  | unboundOwner (field : String)
  /-- The type that should have the field is not a class. -/
  | notAnObject (field type : String)
  /-- Neither the class nor an ancestor declares the field. -/
  | unknownField (field : String) (type : ClassName)
  /-- A field of the class is reached through an object. -/
  | staticThroughInstance (field : String) (type : ClassName)
  /-- A field of instances is named as a field of the class. -/
  | notStatic (field : String) (type : ClassName)
  /-- The type found cannot be stored where another is required. -/
  | typeMismatch (text expected found : String)
  deriving DecidableEq, Repr

/-- The text of a reason. -/
def ResolutionCause.message : ResolutionCause → String
  | .malformedPath text => "malformed field path '" ++ text ++ "'"
  | .unknownVariable name => "unknown variable '" ++ name ++ "'"
  | .invalidPath path field => "invalid path " ++ path ++ " to static field " ++ field
  | .pathMismatch path type => "path " ++ path ++ " does not name type " ++ type.qualified
  | .unboundOwner field => "unbound owner type for field " ++ field
  | .notAnObject field type => "field " ++ field ++ " accessed on non-object type " ++ type
  | .unknownField field type =>
      "invalid field reference " ++ field ++ " for type " ++ type.qualified
  | .staticThroughInstance field type =>
      "field " ++ field ++ " of type " ++ type.qualified ++ " is static"
  | .notStatic field type => "field " ++ field ++ " of type " ++ type.qualified ++ " is not static"
  | .typeMismatch text expected found =>
      "invalid expected type " ++ expected ++ " for " ++ text ++ " of type " ++ found

/-- A reason and the position where it was noticed. -/
structure ResolutionError where
  /-- The position in the rule text. -/
  span : Span
  /-- The reason. -/
  cause : ResolutionCause
  deriving DecidableEq, Repr

/-- The text of a resolution error. -/
def ResolutionError.message (e : ResolutionError) : String :=
  "at " ++ e.span.text ++ ": " ++ e.cause.message

end FieldPath
