import FieldPath.Ty.Basic

/-!
# Declared fields

A field is declared by a class with a name, the class of its values as written in the declaration,
and flags.  The class of the values is only a name here; which type it is depends on the classes
that are known.

## Main definitions

* `ValueClass` — the declared class of a field's values.
* `FieldFlags` — the modifiers of a field.
* `Field` — a declared field.
-/

namespace FieldPath

/-- The declared class of a field's values, before it is looked up. -/
inductive ValueClass where
  /-- No value. -/
  | void
  /-- A primitive kind. -/
  | primitive (kind : Kind)
  /-- A class, by name. -/
  | named (name : ClassName)
  deriving DecidableEq, Repr, Inhabited

namespace ValueClass

/-- The descriptor in emitted references. -/
def descriptor : ValueClass → String
  | .void => "V"
  | .primitive k => String.singleton k.descriptor
  | .named n => "L" ++ n.internal ++ ";"

/-- The name in messages. -/
def text : ValueClass → String
  | .void => "void"
  | .primitive k => k.name
  | .named n => n.qualified

end ValueClass

/-- The modifiers of a field. -/
structure FieldFlags where
  /-- The field is visible everywhere. -/
  isPublic : Bool := false
  /-- The field belongs to the class and not to its instances. -/
  isStatic : Bool := false
  /-- The field is written only when it is defined. -/
  isFinal : Bool := false
  /-- The field may change between two reads. -/
  isVolatile : Bool := false
  deriving DecidableEq, Repr, Inhabited

namespace FieldFlags

/-- The flags that are set on one side at least. -/
def union (a b : FieldFlags) : FieldFlags :=
  { isPublic := a.isPublic || b.isPublic
    isStatic := a.isStatic || b.isStatic
    isFinal := a.isFinal || b.isFinal
    isVolatile := a.isVolatile || b.isVolatile }

/-- The flags as a number, one bit each: public 1, static 2, final 4, volatile 8. -/
def bits (f : FieldFlags) : Nat :=
  f.isPublic.toNat + 2 * f.isStatic.toNat + 4 * f.isFinal.toNat + 8 * f.isVolatile.toNat

end FieldFlags

/-- A declared field. -/
structure Field where
  /-- The class that declares the field; it may be above the class where the field was found. -/
  declaring : ClassName
  /-- The name of the field. -/
  name : String
  /-- The declared class of its values. -/
  valueClass : ValueClass
  /-- The modifiers. -/
  flags : FieldFlags
  deriving DecidableEq, Repr, Inhabited

namespace Field

/-- A public field of instances. -/
def instanceField (declaring : ClassName) (name : String) (valueClass : ValueClass) : Field :=
  ⟨declaring, name, valueClass, { isPublic := true }⟩

/-- A public field of the class. -/
def staticField (declaring : ClassName) (name : String) (valueClass : ValueClass) : Field :=
  ⟨declaring, name, valueClass, { isPublic := true, isStatic := true }⟩

/-- The field with further flags. -/
def withFlags (f : Field) (flags : FieldFlags) : Field := { f with flags := f.flags.union flags }

/-- The field belongs to the class. -/
def isStatic (f : Field) : Bool := f.flags.isStatic

/-- The field is final. -/
def isFinal (f : Field) : Bool := f.flags.isFinal

/-- The name of the field in messages. -/
def text (f : Field) : String := f.declaring.qualified ++ "." ++ f.name

/-- Two descriptions name the same field: the same class declares it under the same name. -/
def sameAs (f g : Field) : Bool := f.name == g.name && f.declaring == g.declaring

end Field

end FieldPath
