import FieldPath.Store.Graph

/-!
# Field slots

A slot holds the value of one declared field, together with the type and the flags that the field
was defined with.  Objects keep their slots in a list, and so do the fields of classes; a list holds
at most one slot of each field.

## Main definitions

* `Slot` — the storage of one field.
* `Slots.slot?` — the slot of a field.
* `Slots.put` — a slot in place of the one of the same field, or at the end.
* `Slots.write` — another value in the slot of a field.
-/

namespace FieldPath

/-- The storage of one declared field. -/
structure Slot where
  /-- The class that declares the field. -/
  declaring : ClassName
  /-- The name of the field. -/
  name : String
  /-- The type that values are converted to. -/
  ty : Ty
  /-- The modifiers that the field was defined with. -/
  flags : FieldFlags
  /-- The value. -/
  value : Value
  deriving DecidableEq

/-- The slot of a field with a type and a value. -/
def Slot.new (field : Field) (ty : Ty) (value : Value) : Slot :=
  ⟨field.declaring, field.name, ty, field.flags, value⟩

/-- The slot stores the field: same declaring class and same name. -/
def Slot.isFor (s : Slot) (field : Field) : Bool :=
  s.name == field.name && s.declaring == field.declaring

/-- A list of slots. -/
abbrev Slots := List Slot

namespace Slots

/-- The slot of a field. -/
def slot? (slots : Slots) (field : Field) : Option Slot := slots.find? (·.isFor field)

/-- The slots with `slot` for `field`: in the place of the slot that the field has, or last. -/
def put (field : Field) (slot : Slot) : Slots → Slots
  | [] => [slot]
  | s :: rest => if s.isFor field then slot :: rest else s :: put field slot rest

/-- The slots with another value in the slot of `field`. -/
def write (field : Field) (value : Value) : Slots → Slots
  | [] => []
  | s :: rest =>
      if s.isFor field then { s with value := value } :: rest else s :: write field value rest

@[simp] theorem slot?_nil (field : Field) : slot? [] field = none := rfl

theorem slot?_cons (s : Slot) (rest : Slots) (field : Field) :
    slot? (s :: rest) field = if s.isFor field then some s else slot? rest field := by
  simp only [slot?, List.find?_cons]
  split <;> simp_all

@[simp] theorem isFor_new (field : Field) (ty : Ty) (value : Value) :
    (Slot.new field ty value).isFor field = true := by
  simp [Slot.isFor, Slot.new]

/-- The slot that was put is found. -/
theorem slot?_put_self {field : Field} {slot : Slot} (h : slot.isFor field = true)
    (slots : Slots) : slot? (put field slot slots) field = some slot := by
  induction slots with
  | nil => simp [put, slot?_cons, h]
  | cons s rest ih =>
    simp only [put]
    split
    · simp [slot?_cons, h]
    · simp_all [slot?_cons]

/-- The value that was written is found, in an otherwise unchanged slot. -/
theorem slot?_write_self (field : Field) (value : Value) (slots : Slots) :
    slot? (write field value slots) field =
      (slot? slots field).map fun s => { s with value := value } := by
  induction slots with
  | nil => rfl
  | cons s rest ih =>
    simp only [write]
    split
    · simp_all [slot?_cons, Slot.isFor]
    · simp_all [slot?_cons]

end Slots

end FieldPath
