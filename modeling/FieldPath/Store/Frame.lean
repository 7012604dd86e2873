import FieldPath.Store.Graph
import Std.Data.HashMap

/-!
# Frames

While a rule runs, a frame holds the values of its bindings and the object graph it runs over.

## Main definitions

* `Frame` — the values and the graph.
* `Frame.give` — a name given a value before the rule runs.
* `Frame.set?` — another value for a name that has one.
-/

namespace FieldPath

/-- The values of the bindings of a rule, over an object graph. -/
structure Frame (γ : Type) where
  /-- The value of each name. -/
  values : Std.HashMap String Value
  /-- The objects. -/
  objects : γ

namespace Frame

variable {γ : Type}

/-- A frame without values. -/
def ofGraph (objects : γ) : Frame γ := ⟨∅, objects⟩

/-- The value of a name. -/
def value? (f : Frame γ) (name : String) : Option Value := f.values[name]?

/-- The frame with a value for a name, whether or not it had one. -/
def give (f : Frame γ) (name : String) (v : Value) : Frame γ :=
  { f with values := f.values.insert name v }

/-- The frame with another value for a name.  A name without a value cannot be set. -/
def set? (f : Frame γ) (name : String) (v : Value) : Option (Frame γ) :=
  if f.values.contains name then some (f.give name v) else none

theorem value?_give (f : Frame γ) (name other : String) (v : Value) :
    (f.give name v).value? other = if name = other then some v else f.value? other := by
  simp [value?, give, Std.HashMap.getElem?_insert]

@[simp] theorem objects_give (f : Frame γ) (name : String) (v : Value) :
    (f.give name v).objects = f.objects := rfl

end Frame

end FieldPath
