import FieldPath.ClassTable.Lineage
import FieldPath.Store.Heap
import FieldPath.Universe

/-!
# Class tables

A class table holds the declarations of the classes that rules may name, in the order in which they
were registered.  A declaration is refused if its class is there already, if it repeats a field, or
if one of its supertypes is the class itself or reaches it; a refused declaration leaves the table
as it was.  Supertypes need not be declared, and may be declared later.

## Main definitions

* `NameRules`, `ClassTable` — how short names are completed, and the table.
* `ClassTable.register` — one more declaration.
* `ClassTable.objectType?` — a class with its ancestors.
* `ClassTable.resolveName?` — the class that a written name stands for.
* `ClassTable.toUniverse` — the table as a type universe.
* `ClassTable.instantiate`, `ClassTable.installStatics` — the declared fields laid out in a heap.
-/

namespace FieldPath

/-- Why a declaration or a use of the table is refused. -/
inductive RegistrationError where
  /-- The class is declared already. -/
  | duplicateType (name : ClassName)
  /-- The declaration has two fields of one name. -/
  | duplicateField (type : ClassName) (field : String)
  /-- The supertype is the class itself or reaches it. -/
  | circularInheritance (name ancestor : ClassName)
  /-- The class is not declared. -/
  | unknownType (name : ClassName)
  /-- The initial value of a field does not fit its type. -/
  | invalidInitialValue (field : Field) (cause : AccessError)
  deriving DecidableEq, Repr

/-- The text of a registration error. -/
def RegistrationError.message : RegistrationError → String
  | .duplicateType name => "duplicate type '" ++ name.qualified ++ "'"
  | .duplicateField type field =>
      "duplicate field '" ++ field ++ "' in type '" ++ type.qualified ++ "'"
  | .circularInheritance name ancestor =>
      "circular inheritance: '" ++ name.qualified ++ "' cannot extend '" ++
        ancestor.qualified ++ "'"
  | .unknownType name => "unknown type '" ++ name.qualified ++ "'"
  | .invalidInitialValue field cause =>
      "invalid initial value for '" ++ field.text ++ "': " ++ cause.message

/-- How a name that is not fully qualified is completed. -/
structure NameRules where
  /-- The packages that are tried, in order. -/
  defaultPackages : List String := ["java.lang"]
  /-- A simple name stands for the only class of that simple name. -/
  matchUniqueSimpleNames : Bool := true
  deriving DecidableEq, Repr

/-- The declared classes. -/
structure ClassTable where
  /-- How short names are completed. -/
  rules : NameRules := {}
  /-- The declarations, in the order of their registration. -/
  decls : List ClassDecl := []
  deriving DecidableEq

namespace ClassTable

/-! ### Registration -/

/-- The declaration of a class. -/
def find? (t : ClassTable) (name : ClassName) : Option ClassDecl :=
  t.decls.find? (·.name == name)

/-- The class is declared. -/
def contains (t : ClassTable) (name : ClassName) : Bool := (t.find? name).isSome

/-- The number of declared classes. -/
def size (t : ClassTable) : Nat := t.decls.length

/-- The first supertype of a declaration that reaches the declared class. -/
def circularSupertype? (t : ClassTable) (d : ClassDecl) : Option ClassName :=
  d.supertypes.find? (reaches t.decls · d.name)

/-- The table with one more declaration.  Of several reasons to refuse it, a duplicate class comes
first, then a repeated field, then a circular supertype. -/
def register (t : ClassTable) (d : ClassDecl) : Except RegistrationError ClassTable :=
  if t.contains d.name then .error (.duplicateType d.name)
  else match d.repeatedField? with
    | some field => .error (.duplicateField d.name field)
    | none =>
        match t.circularSupertype? d with
        | some ancestor => .error (.circularInheritance d.name ancestor)
        | none => .ok { t with decls := t.decls ++ [d] }

/-! ### Classes and names -/

/-- A declared class with its ancestors. -/
def objectType? (t : ClassTable) (name : ClassName) : Option ObjectType :=
  if t.contains name then some ⟨name, ancestorsIn t.decls name⟩ else none

/-- The only declared class of a simple name. -/
def uniqueSimple? (t : ClassTable) (simple : String) : Option ClassName :=
  match t.decls.filter (·.name.simple == simple) with
  | [only] => some only.name
  | _ => none

/-- The class that a written name stands for: the class of exactly that name, else the first one
that a default package completes it to, else, for a name without a dot, the only class of that
simple name. -/
def resolveName? (t : ClassTable) (written : String) : Option ClassName :=
  let candidates := ⟨written⟩ :: t.rules.defaultPackages.map (ClassName.ofPackage · written)
  match candidates.find? t.contains with
  | some name => some name
  | none =>
      if t.rules.matchUniqueSimpleNames && !written.toList.contains '.' then
        t.uniqueSimple? written
      else none

/-- The class that the first `count` segments name, or else the longest shorter run of them. -/
def matchRun (t : ClassTable) (segments : List String) : Nat → Option Ty
  | 0 => none
  | count + 1 =>
      match t.resolveName? (Dotted.join (segments.take (count + 1))) with
      | some name => (t.objectType? name).map .object
      | none => t.matchRun segments count

/-- The class that the longest leading run of the segments names. -/
def matchPath (t : ClassTable) (segments : List String) : Option Ty :=
  t.matchRun segments segments.length

/-- The type of a declared class of values. -/
def typeOf (t : ClassTable) : ValueClass → Ty
  | .void => .void
  | .primitive k => .primitive k
  | .named name =>
      match t.objectType? name with
      | some o => .object o
      | none => .undefined

/-- The declarations of a class and its ancestors, nearest first. -/
def lineageDecls (t : ClassTable) (o : ObjectType) : List ClassDecl := o.lineage.filterMap t.find?

/-- The field of a name that the class declares, or else the nearest class above it. -/
def fieldOf (t : ClassTable) (o : ObjectType) (name : String) : Option Field :=
  (t.lineageDecls o).findSome? fun d => (d.field? name).map (·.field)

/-- The table as a type universe. -/
def toUniverse (t : ClassTable) : Universe := ⟨t.matchPath, t.typeOf, t.fieldOf⟩

/-! ### Layout in a heap -/

/-- The initial value of a field: the declared one, or the zero of its type. -/
def initialValue (t : ClassTable) (d : FieldDecl) : Value :=
  d.initial.getD (.zero (t.typeOf d.field.valueClass))

/-- The heap with the listed fields defined one after the other by `define`.  The first refusal ends
it, and the heap keeps what was defined before. -/
def defineAll (t : ClassTable)
    (define : Heap → Field → Ty → Value → Except AccessError Heap) :
    List FieldDecl → Heap → Except RegistrationError Unit × Heap
  | [], heap => (.ok (), heap)
  | d :: rest, heap =>
      match define heap d.field (t.typeOf d.field.valueClass) (t.initialValue d) with
      | .error cause => (.error (.invalidInitialValue d.field cause), heap)
      | .ok heap => t.defineAll define rest heap

/-- A new object of a class with all fields of instances that the class and its ancestors declare.
If an initial value is refused, the object stays in the heap with the fields defined so far. -/
def instantiate (t : ClassTable) (heap : Heap) (name : ClassName) :
    Except RegistrationError Handle × Heap :=
  match t.objectType? name with
  | none => (.error (.unknownType name), heap)
  | some o =>
      let (h, heap) := heap.allocate o
      let fields := (t.lineageDecls o).flatMap (·.instanceFields)
      let (outcome, heap) := t.defineAll (fun heap => heap.defineField h) fields heap
      (outcome.map fun _ => h, heap)

/-- The heap with the fields of all declared classes, in the order of registration. -/
def installStatics (t : ClassTable) (heap : Heap) : Except RegistrationError Unit × Heap :=
  t.defineAll Heap.defineStatic (t.decls.flatMap (·.staticFields)) heap

end ClassTable

end FieldPath
