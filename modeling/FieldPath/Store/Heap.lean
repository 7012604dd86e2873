import FieldPath.Store.Slot

/-!
# The object heap

Objects live in numbered places.  When an object is freed its place becomes vacant, its generation
goes up by one, and the place is used again by a later object.  A handle names a place together with
a generation, so a handle that outlives its object is noticed and never reaches the next object of
the place.

Values are converted when they are stored: a primitive value is widened to the kind of the slot,
and a reference must be null or a live object of a fitting class.  A store that is refused changes
nothing.

## Main definitions

* `HeapObject`, `Place`, `Heap` — the objects, the places and the heap.
* `Heap.allocate`, `Heap.free`, `Heap.get` — the life of an object.
* `Heap.fit` — the value that is stored for a value and a type.
* `Heap.defineField`, `Heap.defineStatic` — slots made, whatever their flags.
* `Heap.getField`, `Heap.setField`, `Heap.getStatic`, `Heap.setStatic` — the heap as a graph.
-/

namespace FieldPath

/-- An object: its class and its fields. -/
structure HeapObject where
  /-- The class that the object was allocated with. -/
  type : ObjectType
  /-- The fields, in the order in which they were defined. -/
  slots : Slots
  deriving DecidableEq

namespace HeapObject

/-- The value of the first field of a name, whatever class declares it. -/
def valueOf? (o : HeapObject) (name : String) : Option Value :=
  (o.slots.find? (·.name == name)).map (·.value)

end HeapObject

/-- A place: the generation of its current use, and the object if it is not vacant. -/
structure Place where
  /-- How often an object of this place has been freed; the count wraps. -/
  generation : UInt32
  /-- The object in the place. -/
  object : Option HeapObject
  deriving DecidableEq

/-- The objects, and the fields of the classes. -/
structure Heap where
  /-- The places that have been used so far. -/
  places : Array Place := #[]
  /-- The vacant places; the one freed last comes first. -/
  vacant : List Nat := []
  /-- The fields of classes. -/
  statics : Slots := []

namespace Heap

/-- The heap without objects and fields. -/
def empty : Heap := {}

/-! ### The life of an object -/

/-- The generation of the use that a place is in or will be next in. -/
def generationAt (heap : Heap) (index : Nat) : UInt32 :=
  match heap.places[index]? with
  | some place => place.generation
  | none => 0

/-- The places with another content at `index`, which is one of them or the next one. -/
def setPlace (heap : Heap) (index : Nat) (place : Place) : Array Place :=
  if index < heap.places.size then heap.places.setIfInBounds index place
  else heap.places.push place

/-- The place that the next object goes to: the one freed last, or a new one. -/
def nextPlace (heap : Heap) : Nat := heap.vacant.headD heap.places.size

/-- A new object without fields. -/
def allocate (heap : Heap) (type : ObjectType) : Handle × Heap :=
  let index := heap.nextPlace
  let generation := heap.generationAt index
  (⟨index, generation⟩,
    { heap with
      places := heap.setPlace index ⟨generation, some ⟨type, []⟩⟩
      vacant := heap.vacant.tail })

/-- The live object of a handle. -/
def get (heap : Heap) (h : Handle) : Option HeapObject :=
  match heap.places[h.index]? with
  | some place => if place.generation = h.generation then place.object else none
  | none => none

/-- The heap with another content for a live object. -/
def replace (heap : Heap) (h : Handle) (o : HeapObject) : Heap :=
  { heap with places := heap.places.setIfInBounds h.index ⟨h.generation, some o⟩ }

/-- The heap without the object of a handle.  A handle of no live object changes nothing. -/
def free (heap : Heap) (h : Handle) : Heap :=
  match heap.get h with
  | none => heap
  | some _ =>
      { heap with
        places := heap.places.setIfInBounds h.index ⟨h.generation + 1, none⟩
        vacant := h.index :: heap.vacant }

/-- The class of a live object. -/
def classOf (heap : Heap) (h : Handle) : Option ObjectType := (heap.get h).map (·.type)

/-- The number of live objects: every place that is not vacant holds one. -/
def size (heap : Heap) : Nat := heap.places.size - heap.vacant.length

/-- There is no live object. -/
def isEmpty (heap : Heap) : Bool := heap.size == 0

/-! ### Storing values -/

/-- The value that is stored for `v` in a slot of type `t`, if `v` fits. -/
def fit (heap : Heap) (t : Ty) (v : Value) : Option Value :=
  match t.deref, v with
  | .primitive k, v => v.widenTo k
  | .object _, .null => some .null
  | .undefined, .null => some .null
  | .object o, .object h => if (heap.classOf h).any o.accepts then some v else none
  | .undefined, .object h => if (heap.classOf h).isSome then some v else none
  | _, _ => none

/-- What a refused value is, in messages: the class of an object, or the kind of the value. -/
def describe (heap : Heap) (v : Value) : String :=
  match v with
  | .object h =>
      match heap.classOf h with
      | some type => type.name.qualified
      | none => "freed object"
  | v => v.label

/-- The value that is stored for `v` in the slot of `field`, which has type `t`. -/
def convert (heap : Heap) (field : Field) (t : Ty) (v : Value) : Except AccessError Value :=
  match heap.fit t v with
  | some stored => .ok stored
  | none => .error (.invalidArgument field.text t.text (heap.describe v))

/-- The error of a field that is not there. -/
def missing (field : Field) : AccessError := .noSuchField field.declaring.qualified field.name

/-- The slots with `v` written to `field`.  The slot must be there, must not be final, and must have
a type that `v` fits. -/
def assign (heap : Heap) (slots : Slots) (field : Field) (v : Value) :
    Except AccessError Slots :=
  match slots.slot? field with
  | none => .error (missing field)
  | some slot =>
      if slot.flags.isFinal then .error (.denied field.text "field is final")
      else (heap.convert field slot.ty v).map fun stored => slots.write field stored

/-! ### Defining fields -/

/-- The heap with a field of an object defined, or defined anew.  Final fields are no exception. -/
def defineField (heap : Heap) (h : Handle) (field : Field) (t : Ty) (v : Value) :
    Except AccessError Heap := do
  let stored ← heap.convert field t v
  match heap.get h with
  | none => .error (.staleHandle h.index)
  | some o => .ok (heap.replace h { o with slots := o.slots.put field (.new field t stored) })

/-- The heap with a field of a class defined, or defined anew.  Final fields are no exception. -/
def defineStatic (heap : Heap) (field : Field) (t : Ty) (v : Value) : Except AccessError Heap := do
  let stored ← heap.convert field t v
  .ok { heap with statics := heap.statics.put field (.new field t stored) }

/-! ### The heap as an object graph -/

/-- The value of a field of an object. -/
def getField (heap : Heap) (h : Handle) (field : Field) : Except AccessError Value :=
  match heap.get h with
  | none => .error (.staleHandle h.index)
  | some o =>
      match o.slots.slot? field with
      | none => .error (missing field)
      | some slot => .ok slot.value

/-- The heap after a write to a field of an object. -/
def setField (heap : Heap) (h : Handle) (field : Field) (v : Value) : Except AccessError Heap :=
  match heap.get h with
  | none => .error (.staleHandle h.index)
  | some o =>
      (heap.assign o.slots field v).map fun slots => heap.replace h { o with slots := slots }

/-- The value of a field of a class. -/
def getStatic (heap : Heap) (field : Field) : Except AccessError Value :=
  match heap.statics.slot? field with
  | none => .error (missing field)
  | some slot => .ok slot.value

/-- The heap after a write to a field of a class. -/
def setStatic (heap : Heap) (field : Field) (v : Value) : Except AccessError Heap :=
  (heap.assign heap.statics field v).map fun statics => { heap with statics := statics }

instance : ObjectGraph Heap where
  getField := getField
  setField := setField
  getStatic := getStatic
  setStatic := setStatic

/-! ### Counts -/

/-- The number of classes with fields of their own, told apart by their digests. -/
def staticClassCount (heap : Heap) : Nat :=
  (heap.statics.map (·.declaring.hash)).eraseDups.length

/-- The counts of a heap in one line. -/
def summary (heap : Heap) : String :=
  "ObjectHeap \x7b slot_count: " ++ toString heap.places.size ++
    ", free_count: " ++ toString heap.vacant.length ++
    ", static_types: " ++ toString heap.staticClassCount ++ " \x7d"

end Heap

end FieldPath
