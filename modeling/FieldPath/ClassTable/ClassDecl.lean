import FieldPath.Ty.Field
import FieldPath.Value

/-!
# Class declarations

A declaration gives a class its name, at most one superclass, any number of interfaces, and its
fields with their initial values.  The fields of a declaration belong to its class.

## Main definitions

* `FieldDecl` — a field with its initial value.
* `ClassDecl` — a declaration, with the functions that extend one.
* `ClassDecl.supertypes` — the classes directly above, in order.
* `ClassDecl.field?` — the declared field of a name.
-/

namespace FieldPath

/-- A declared field and the value that it starts with. -/
structure FieldDecl where
  /-- The field. -/
  field : Field
  /-- The initial value; if none is given, the zero of the field's type. -/
  initial : Option Value
  deriving DecidableEq

/-- The declaration of a class. -/
structure ClassDecl where
  /-- The name of the class. -/
  name : ClassName
  /-- The class that it extends. -/
  superclass : Option ClassName := none
  /-- The interfaces that it implements, in order. -/
  interfaces : List ClassName := []
  /-- Its own fields, in order. -/
  fields : List FieldDecl := []
  deriving DecidableEq

namespace ClassDecl

/-- The declaration with a superclass; an earlier one is replaced. -/
def extending (d : ClassDecl) (superclass : ClassName) : ClassDecl :=
  { d with superclass := some superclass }

/-- The declaration with one more interface. -/
def implementing (d : ClassDecl) (iface : ClassName) : ClassDecl :=
  { d with interfaces := d.interfaces ++ [iface] }

/-- The declaration with one more field.  Whatever class the field named, this one declares it. -/
def withField (d : ClassDecl) (field : Field) (initial : Option Value) : ClassDecl :=
  { d with fields := d.fields ++ [⟨{ field with declaring := d.name }, initial⟩] }

/-- The declaration with one more public field of instances, which starts as zero. -/
def withInstanceField (d : ClassDecl) (name : String) (valueClass : ValueClass) : ClassDecl :=
  d.withField (.instanceField d.name name valueClass) none

/-- The declaration with one more public field of the class. -/
def withStaticField (d : ClassDecl) (name : String) (valueClass : ValueClass) (initial : Value) :
    ClassDecl :=
  d.withField (.staticField d.name name valueClass) (some initial)

/-- The declaration with further flags on its last field, if it has one. -/
def flagged (d : ClassDecl) (flags : FieldFlags) : ClassDecl :=
  { d with
    fields := match d.fields.getLast? with
      | none => []
      | some last => d.fields.dropLast ++ [{ last with field := last.field.withFlags flags }] }

/-- The classes directly above: the superclass, then the interfaces. -/
def supertypes (d : ClassDecl) : List ClassName := d.superclass.toList ++ d.interfaces

/-- The declared field of a name. -/
def field? (d : ClassDecl) (name : String) : Option FieldDecl :=
  d.fields.find? (·.field.name == name)

/-- The fields of instances. -/
def instanceFields (d : ClassDecl) : List FieldDecl := d.fields.filter (!·.field.isStatic)

/-- The fields of the class. -/
def staticFields (d : ClassDecl) : List FieldDecl := d.fields.filter (·.field.isStatic)

/-- The first name that a later field repeats, in the order in which the repetitions stand. -/
def repeatedField? (d : ClassDecl) : Option String :=
  go [] (d.fields.map (·.field.name))
where
  /-- The first of the names that is among those seen before it. -/
  go (seen : List String) : List String → Option String
    | [] => none
    | n :: rest => if seen.contains n then some n else go (n :: seen) rest

end ClassDecl

end FieldPath
