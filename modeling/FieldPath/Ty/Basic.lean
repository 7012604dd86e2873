import FieldPath.Ty.ClassName
import FieldPath.Ty.Kind

/-!
# Types

A type is a primitive kind, a class together with the names of all its ancestors, `void`, unknown,
or a named alias of another type.  Since a class brings its ancestors along, whether one type can be
stored where another is required is decided on the two types alone.

## Main definitions

* `ObjectType` — a class and its ancestors.
* `Ty` — the types, and `Ty.deref`, which strips aliases.
* `Ty.accepts` — a value of one type may be stored where another is required.
* `Ty.width`, `Ty.descriptor?`, `Ty.text` — slots, descriptor and name.
-/

namespace FieldPath

/-! ### Classes -/

/-- A class with every superclass and interface above it. -/
structure ObjectType where
  /-- The name of the class. -/
  name : ClassName
  /-- The names of all classes above it, nearest first. -/
  ancestors : List ClassName
  deriving DecidableEq, Repr, Inhabited

namespace ObjectType

/-- The class without any known ancestor. -/
def root (name : ClassName) : ObjectType := ⟨name, []⟩

/-- The digest that stands for the class. -/
def hash (o : ObjectType) : UInt64 := o.name.hash

/-- A reference to `source` may be stored where `target` is required: the two are the same class,
which their digests tell, or `target` is above `source`. -/
def accepts (target source : ObjectType) : Bool :=
  target.hash == source.hash || source.ancestors.contains target.name

/-- The class itself and all classes above it, nearest first. -/
def lineage (o : ObjectType) : List ClassName := o.name :: o.ancestors

@[simp] theorem accepts_self (o : ObjectType) : o.accepts o = true := by simp [accepts]

end ObjectType

/-! ### Types -/

/-- A type. -/
inductive Ty where
  /-- Nothing is known, or nothing is required. -/
  | undefined
  /-- The type without values. -/
  | void
  /-- A primitive kind. -/
  | primitive (kind : Kind)
  /-- References to objects of a class. -/
  | object (type : ObjectType)
  /-- Another name for a type. -/
  | synonym (name : String) (target : Ty)
  deriving DecidableEq, Repr, Inhabited

namespace Ty

/-- The type behind all aliases. -/
def deref : Ty → Ty
  | .synonym _ target => target.deref
  | t => t

/-- The type is unknown, whatever aliases it has. -/
def isUndefined (t : Ty) : Bool := t.deref == .undefined

/-- The type is known. -/
def isDefined (t : Ty) : Bool := !t.isUndefined

/-- The class of an object type. -/
def object? (t : Ty) : Option ObjectType :=
  match t.deref with
  | .object o => some o
  | _ => none

/-- The kind of a primitive type. -/
def kind? (t : Ty) : Option Kind :=
  match t.deref with
  | .primitive k => some k
  | _ => none

/-- A value of type `source` may be stored where `target` is required.  Primitive kinds widen,
objects may come from a subclass, and an unknown type accepts nothing and is accepted nowhere. -/
def accepts (target source : Ty) : Bool :=
  match target.deref, source.deref with
  | .primitive k, .primitive k' => k.widensFrom k'
  | .object o, .object o' => o.accepts o'
  | .void, .void => true
  | _, _ => false

/-- The storage size in bytes.  A reference takes four. -/
def byteSize : Ty → Nat
  | .undefined | .void => 0
  | .primitive k => k.byteSize
  | .object _ => 4
  | .synonym _ target => target.byteSize

/-- The operand slots of a value: two for the kinds of eight bytes, else one. -/
def width (t : Ty) : Nat := if 4 < t.byteSize then 2 else 1

/-- The descriptor of the type in emitted references.  An unknown type has none. -/
def descriptor? : Ty → Option String
  | .undefined => none
  | .void => some "V"
  | .primitive k => some (String.singleton k.descriptor)
  | .object o => some ("L" ++ o.name.internal ++ ";")
  | .synonym _ target => target.descriptor?

/-- The name of the type in messages.  An alias goes by its own name. -/
def text : Ty → String
  | .undefined => "<undefined>"
  | .void => "void"
  | .primitive k => k.name
  | .object o => o.name.qualified
  | .synonym name _ => name

@[simp] theorem deref_synonym (name : String) (t : Ty) : (synonym name t).deref = t.deref := rfl

@[simp] theorem deref_undefined : undefined.deref = undefined := rfl

@[simp] theorem deref_void : void.deref = void := rfl

@[simp] theorem deref_primitive (k : Kind) : (primitive k).deref = primitive k := rfl

@[simp] theorem deref_object (o : ObjectType) : (object o).deref = object o := rfl

@[simp] theorem deref_deref (t : Ty) : t.deref.deref = t.deref := by
  induction t with
  | synonym name t ih => exact ih
  | _ => rfl

/-- Nothing is left of the aliases. -/
theorem deref_ne_synonym (t : Ty) (name : String) (u : Ty) : t.deref ≠ .synonym name u := by
  induction t with
  | synonym _ t ih => exact ih
  | _ => simp

@[simp] theorem byteSize_deref (t : Ty) : t.deref.byteSize = t.byteSize := by
  induction t with
  | synonym _ t ih => exact ih
  | _ => rfl

@[simp] theorem width_deref (t : Ty) : t.deref.width = t.width := by simp [width]

@[simp] theorem accepts_deref_left (t u : Ty) : t.deref.accepts u = t.accepts u := by
  simp [accepts]

@[simp] theorem accepts_deref_right (t u : Ty) : t.accepts u.deref = t.accepts u := by
  simp [accepts]

/-- A value takes one slot or two. -/
theorem width_eq_one_or_two (t : Ty) : t.width = 1 ∨ t.width = 2 := by
  unfold width
  split <;> simp

end Ty

end FieldPath
