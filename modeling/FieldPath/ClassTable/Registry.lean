import FieldPath.ClassTable.SupertypeGraph
import Std.Data.HashMap

/-!
# Registries

A registry keeps two indexes beside its class table: the declared classes by simple name, and the
graph of supertypes.  Ancestors are read off the graph and short names are looked up in the index.
Both indexes grow with every registration.  A registration that is refused for a circular supertype
leaves nodes in the graph, so it changes the registry.

## Main definitions

* `Registry` — a class table with its indexes.
* `Registry.register` — one more declaration, and the registry after it.
* `Registry.objectType?`, `Registry.resolveName?` — the questions that use an index.
* `Registry.after` — the registry after some registrations, refused or not.
* `RegistryCall`, `Registry.answers` — what a registry answers to a sequence of calls.
-/

namespace FieldPath

/-- The fields of all declared classes.  The classes are taken in the order in which `order` lists
the declarations. -/
def ClassTable.staticsIn (t : ClassTable) (order : List ClassDecl → List ClassDecl) :
    List FieldDecl :=
  (order t.decls).flatMap (·.staticFields)

/-- A class table with indexes of its classes. -/
structure Registry where
  /-- The declarations. -/
  table : ClassTable := {}
  /-- The declared classes of each simple name, in the order of their registration. -/
  simpleNames : Std.HashMap String (List ClassName) := ∅
  /-- The classes above each class. -/
  graph : SupertypeGraph := {}

namespace Registry

/-- The registry without classes. -/
def empty (rules : NameRules) : Registry := { table := { rules := rules } }

/-! ### Registration -/

/-- The registry with the declaration in the table and in the index of simple names. -/
def enter (r : Registry) (d : ClassDecl) : Registry :=
  { r with
    table := { r.table with decls := r.table.decls ++ [d] }
    simpleNames :=
      r.simpleNames.insert d.name.simple (r.simpleNames.getD d.name.simple [] ++ [d.name]) }

/-- One more declaration, and the registry after it. -/
def register (paths : PathSearch) (r : Registry) (d : ClassDecl) :
    Except RegistrationError Unit × Registry :=
  if r.table.contains d.name then (.error (.duplicateType d.name), r)
  else match d.repeatedField? with
    | some field => (.error (.duplicateField d.name field), r)
    | none =>
        match r.graph.addSupertypes paths d.name d.supertypes with
        | (.error e, graph) => (.error e, { r with graph := graph })
        | (.ok (), graph) => (.ok (), { r with graph := graph }.enter d)

/-- The registry after some registrations, refused or not. -/
def after (paths : PathSearch) (rules : NameRules) (decls : List ClassDecl) : Registry :=
  decls.foldl (fun r d => (r.register paths d).2) (empty rules)

/-! ### Classes and names -/

/-- A declared class with its ancestors. -/
def objectType? (r : Registry) (name : ClassName) : Option ObjectType :=
  if r.table.contains name then some ⟨name, r.graph.ancestors name⟩ else none

/-- The only declared class of a simple name. -/
def uniqueSimple? (r : Registry) (simple : String) : Option ClassName :=
  match r.simpleNames[simple]? with
  | some [only] => some only
  | _ => none

/-- The class that a written name stands for. -/
def resolveName? (r : Registry) (written : String) : Option ClassName :=
  let candidates :=
    ⟨written⟩ :: r.table.rules.defaultPackages.map (ClassName.ofPackage · written)
  match candidates.find? r.table.contains with
  | some name => some name
  | none =>
      if r.table.rules.matchUniqueSimpleNames && !written.toList.contains '.' then
        r.uniqueSimple? written
      else none

/-- The class that the first `count` segments name, or else the longest shorter run of them. -/
def matchRun (r : Registry) (segments : List String) : Nat → Option Ty
  | 0 => none
  | count + 1 =>
      match r.resolveName? (Dotted.join (segments.take (count + 1))) with
      | some name => (r.objectType? name).map .object
      | none => r.matchRun segments count

/-- The class that the longest leading run of the segments names. -/
def matchPath (r : Registry) (segments : List String) : Option Ty :=
  r.matchRun segments segments.length

/-- The type of a declared class of values. -/
def typeOf (r : Registry) : ValueClass → Ty
  | .void => .void
  | .primitive k => .primitive k
  | .named name =>
      match r.objectType? name with
      | some o => .object o
      | none => .undefined

/-- The field of a name that the class declares, or else the nearest class above it. -/
def fieldOf (r : Registry) (o : ObjectType) (name : String) : Option Field :=
  (o.lineage.filterMap r.table.find?).findSome? fun d => (d.field? name).map (·.field)

/-- The registry as a type universe. -/
def toUniverse (r : Registry) : Universe := ⟨r.matchPath, r.typeOf, r.fieldOf⟩

/-! ### Layout in a heap -/

/-- The heap with the listed fields defined one after the other by `define`, up to the first
refusal. -/
def defineAll (r : Registry) (define : Heap → Field → Ty → Value → Except AccessError Heap) :
    List FieldDecl → Heap → Except RegistrationError Unit × Heap
  | [], heap => (.ok (), heap)
  | d :: rest, heap =>
      let ty := r.typeOf d.field.valueClass
      match define heap d.field ty (d.initial.getD (.zero ty)) with
      | .error cause => (.error (.invalidInitialValue d.field cause), heap)
      | .ok heap => r.defineAll define rest heap

/-- A new object of a class with all fields of instances that the class and its ancestors
declare. -/
def instantiate (r : Registry) (heap : Heap) (name : ClassName) :
    Except RegistrationError Handle × Heap :=
  match r.objectType? name with
  | none => (.error (.unknownType name), heap)
  | some o =>
      let (h, heap) := heap.allocate o
      let fields := (o.lineage.filterMap r.table.find?).flatMap (·.instanceFields)
      let (outcome, heap) := r.defineAll (fun heap => heap.defineField h) fields heap
      (outcome.map fun _ => h, heap)

/-- The heap with the fields of all declared classes, in some order of the classes. -/
def installStatics (r : Registry) (order : List ClassDecl → List ClassDecl) (heap : Heap) :
    Except RegistrationError Unit × Heap :=
  r.defineAll Heap.defineStatic (r.table.staticsIn order) heap

end Registry

/-! ### Calls -/

/-- A call to a registry.  A call that lays fields out is given the heap. -/
inductive RegistryCall where
  /-- A class is registered. -/
  | register (d : ClassDecl)
  /-- A class is asked for. -/
  | objectType (name : ClassName)
  /-- A written name is resolved. -/
  | resolveName (written : String)
  /-- A path is matched. -/
  | matchPath (segments : List String)
  /-- The type of a class of values is asked for. -/
  | typeOf (c : ValueClass)
  /-- A field of a class is looked up. -/
  | fieldOf (o : ObjectType) (name : String)
  /-- An object is made. -/
  | instantiate (heap : Heap) (name : ClassName)
  /-- The fields of classes are installed. -/
  | installStatics (order : List ClassDecl → List ClassDecl) (heap : Heap)

/-- The answer to a call.  A heap that was given comes back as it was left. -/
inductive RegistryAnswer where
  /-- A class is registered or refused. -/
  | registered (outcome : Except RegistrationError Unit)
  /-- A class with its ancestors, if it is declared. -/
  | objectType (o : Option ObjectType)
  /-- The class of a name, if there is one. -/
  | resolved (name : Option ClassName)
  /-- The class of a path, if there is one. -/
  | matched (ty : Option Ty)
  /-- A type. -/
  | type (ty : Ty)
  /-- A field, if there is one. -/
  | field (f : Option Field)
  /-- The handle of a new object, or the reason why it was not finished. -/
  | instantiated (outcome : Except RegistrationError Handle) (heap : Heap)
  /-- The fields of classes are installed, or one of them is refused. -/
  | installed (outcome : Except RegistrationError Unit) (heap : Heap)

namespace Registry

/-- The answer to a call, and the registry after it. -/
def answer (paths : PathSearch) (r : Registry) : RegistryCall → RegistryAnswer × Registry
  | .register d => (.registered (r.register paths d).1, (r.register paths d).2)
  | .objectType name => (.objectType (r.objectType? name), r)
  | .resolveName written => (.resolved (r.resolveName? written), r)
  | .matchPath segments => (.matched (r.matchPath segments), r)
  | .typeOf c => (.type (r.typeOf c), r)
  | .fieldOf o name => (.field (r.fieldOf o name), r)
  | .instantiate heap name =>
      (.instantiated (r.instantiate heap name).1 (r.instantiate heap name).2, r)
  | .installStatics order heap =>
      (.installed (r.installStatics order heap).1 (r.installStatics order heap).2, r)

/-- The answers to a sequence of calls. -/
def answers (paths : PathSearch) (r : Registry) : List RegistryCall → List RegistryAnswer
  | [] => []
  | c :: rest => (r.answer paths c).1 :: (r.answer paths c).2.answers paths rest

end Registry

end FieldPath
