import FieldPath.Ty.Field

/-!
# Type universes

Resolution asks three questions about the classes of the instrumented machine.  A universe is the
three answers as functions, so that the rules of resolution can be stated over any source of
classes.

## Main definitions

* `Universe` — the three questions.
* `Universe.aliased` — every type goes by another name.
* `Universe.matching` — every path is answered alike.
-/

namespace FieldPath

/-- What resolution can ask about the known classes. -/
structure Universe where
  /-- The type that the longest leading run of some segments names.  If the run was not the full
  name of the type, the type still goes by its full name. -/
  matchPath : List String → Option Ty
  /-- The type of a declared class of values.  A class that is not known is undefined. -/
  typeOf : ValueClass → Ty
  /-- The field of a name that a class declares, or else the nearest class above it. -/
  fieldOf : ObjectType → String → Option Field

namespace Universe

/-- The universe in which every type of values goes by another name. -/
def aliased (u : Universe) (name : String) : Universe :=
  { u with typeOf := fun c => .synonym name (u.typeOf c) }

/-- The universe that matches every path with one answer. -/
def matching (u : Universe) (answer : Option Ty) : Universe :=
  { u with matchPath := fun _ => answer }

end Universe

end FieldPath
