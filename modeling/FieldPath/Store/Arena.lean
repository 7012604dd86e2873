import FieldPath.Store.Heap
import Std.Data.HashMap

/-!
# Arenas

An arena is a heap that is changed in place.  It keeps the fields of classes in buckets, by the
digest of the class that declares them, so two classes of one digest share a bucket.  An operation
is a sequence of steps that read and change the arena.  A step may fail, and then the arena stays as
the steps before it have left it.

## Main definitions

* `Arena` — the places of objects and the buckets.
* `Arena.Edit` — steps that change an arena and may fail.
* `Arena.defineField`, `Arena.defineStatic`, `Arena.setField`, `Arena.setStatic` — the operations
  on the slot of a field.
* `SlotOp`, `SlotOp.edit` — these operations as data.
-/

namespace FieldPath

/-- The objects, and the fields of the classes by the digests of the classes. -/
structure Arena where
  /-- The places that have been used so far. -/
  places : Array Place := #[]
  /-- The vacant places; the one freed last comes first. -/
  vacant : List Nat := []
  /-- The fields of classes.  Classes of one digest share a bucket. -/
  buckets : Std.HashMap UInt64 Slots := ∅

namespace Arena

/-- The arena without objects and fields. -/
def empty : Arena := {}

/-! ### Objects -/

/-- The objects as a heap, without the fields of classes. -/
def objects (a : Arena) : Heap := { places := a.places, vacant := a.vacant }

/-- The arena with the objects of a heap. -/
def withObjects (a : Arena) (heap : Heap) : Arena :=
  { a with places := heap.places, vacant := heap.vacant }

/-- A new object without fields. -/
def allocate (a : Arena) (type : ObjectType) : Handle × Arena :=
  let (h, heap) := a.objects.allocate type
  (h, a.withObjects heap)

/-- The arena without the object of a handle. -/
def free (a : Arena) (h : Handle) : Arena := a.withObjects (a.objects.free h)

/-- The live object of a handle. -/
def object? (a : Arena) (h : Handle) : Option HeapObject := a.objects.get h

/-- The class of a live object. -/
def classOf (a : Arena) (h : Handle) : Option ObjectType := a.objects.classOf h

/-- The number of live objects. -/
def size (a : Arena) : Nat := a.objects.size

/-- The arena with other slots in a live object. -/
def changeObject (a : Arena) (h : Handle) (change : Slots → Slots) : Arena :=
  match a.object? h with
  | some o => a.withObjects (a.objects.replace h { o with slots := change o.slots })
  | none => a

/-! ### Buckets -/

/-- The slots of the fields that classes with the digest of `c` declare. -/
def bucket (a : Arena) (c : ClassName) : Slots := a.buckets.getD c.hash []

/-- The arena with other slots in the bucket of a class. -/
def changeBucket (a : Arena) (c : ClassName) (change : Slots → Slots) : Arena :=
  { a with buckets := a.buckets.insert c.hash (change (a.bucket c)) }

/-- The slot of a field of a class. -/
def staticSlot? (a : Arena) (field : Field) : Option Slot := (a.bucket field.declaring).slot? field

/-! ### Steps -/

/-- Steps that change an arena and may fail. -/
abbrev Edit := EStateM AccessError Arena

/-- The live object of a handle, which must be there. -/
def live (h : Handle) : Edit HeapObject := do
  match (← get).object? h with
  | some o => return o
  | none => throw (.staleHandle h.index)

/-- The slot of a field, which must be there and must not be final. -/
def writable (field : Field) : Option Slot → Edit Slot
  | none => throw (Heap.missing field)
  | some slot =>
      if slot.flags.isFinal then throw (.denied field.text "field is final") else return slot

/-- The value that is stored for `v` in the slot of `field`, which has type `t`. -/
def convert (field : Field) (t : Ty) (v : Value) : Edit Value := do
  MonadExcept.ofExcept ((← get).objects.convert field t v)

/-! ### Operations on a slot -/

/-- A field of an object is defined, or defined anew. -/
def defineField (h : Handle) (field : Field) (t : Ty) (v : Value) : Edit Unit := do
  let stored ← convert field t v
  let _ ← live h
  modify (·.changeObject h (·.put field (.new field t stored)))

/-- A field of a class is defined, or defined anew. -/
def defineStatic (field : Field) (t : Ty) (v : Value) : Edit Unit := do
  let stored ← convert field t v
  modify (·.changeBucket field.declaring (·.put field (.new field t stored)))

/-- A field of an object is written.  Its slot is looked up for the checks, and again for the
write. -/
def setField (h : Handle) (field : Field) (v : Value) : Edit Unit := do
  let o ← live h
  let slot ← writable field (o.slots.slot? field)
  let stored ← convert field slot.ty v
  modify (·.changeObject h (·.write field stored))

/-- A field of a class is written. -/
def setStatic (field : Field) (v : Value) : Edit Unit := do
  let slot ← writable field ((← get).staticSlot? field)
  let stored ← convert field slot.ty v
  modify (·.changeBucket field.declaring (·.write field stored))

/-! ### The arena as an object graph -/

/-- The value of a field of an object. -/
def getField (a : Arena) (h : Handle) (field : Field) : Except AccessError Value :=
  a.objects.getField h field

/-- The value of a field of a class. -/
def getStatic (a : Arena) (field : Field) : Except AccessError Value :=
  match a.staticSlot? field with
  | none => .error (Heap.missing field)
  | some slot => .ok slot.value

/-- The arena that an operation leaves if it succeeds. -/
def outcome : EStateM.Result AccessError Arena Unit → Except AccessError Arena
  | .ok _ a => .ok a
  | .error e _ => .error e

instance : ObjectGraph Arena where
  getField := getField
  setField a h field v := outcome ((setField h field v).run a)
  getStatic := getStatic
  setStatic a field v := outcome ((setStatic field v).run a)

end Arena

/-! ### Operations as data -/

/-- An operation on the slot of a field. -/
inductive SlotOp where
  /-- A field of an object is defined. -/
  | defineField (h : Handle) (field : Field) (ty : Ty) (v : Value)
  /-- A field of a class is defined. -/
  | defineStatic (field : Field) (ty : Ty) (v : Value)
  /-- A field of an object is written. -/
  | setField (h : Handle) (field : Field) (v : Value)
  /-- A field of a class is written. -/
  | setStatic (field : Field) (v : Value)
  deriving DecidableEq

namespace SlotOp

/-- The object whose slot it is.  The slot of a field of a class is of none. -/
def owner? : SlotOp → Option Handle
  | .defineField h _ _ _ | .setField h _ _ => some h
  | .defineStatic _ _ _ | .setStatic _ _ => none

/-- The field. -/
def field : SlotOp → Field
  | .defineField _ f _ _ | .defineStatic f _ _ | .setField _ f _ | .setStatic f _ => f

/-- The value that is to be stored. -/
def value : SlotOp → Value
  | .defineField _ _ _ v | .defineStatic _ _ v | .setField _ _ v | .setStatic _ v => v

/-- The operation in an arena. -/
def edit : SlotOp → Arena.Edit Unit
  | .defineField h f t v => Arena.defineField h f t v
  | .defineStatic f t v => Arena.defineStatic f t v
  | .setField h f v => Arena.setField h f v
  | .setStatic f v => Arena.setStatic f v

/-- The operation on a heap. -/
def perform (heap : Heap) : SlotOp → Except AccessError Heap
  | .defineField h f t v => heap.defineField h f t v
  | .defineStatic f t v => heap.defineStatic f t v
  | .setField h f v => heap.setField h f v
  | .setStatic f v => heap.setStatic f v

end SlotOp

end FieldPath
