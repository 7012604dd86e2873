import FieldPath.Ty.Basic
import Std.Data.HashMap

/-!
# Bindings

A rule gives names to values: its parameters, the instrumented object, and the names that it binds
itself.  Each declaration takes the next free local slots, one or two as the type needs.  A name
that is declared again takes fresh slots, and the slots it had are not given to any other name.

## Main definitions

* `Binding` — a name with its type and its first slot.
* `Bindings` — the table, with `Bindings.declare` and `Bindings.lookup`.
* `Bindings.inOrder` — the bindings in the order of their names.
-/

namespace FieldPath

/-- A named value of a rule. -/
structure Binding where
  /-- The name. -/
  name : String
  /-- The type of the value. -/
  ty : Ty
  /-- The first local slot that holds the value. -/
  slot : Nat
  deriving DecidableEq, Repr

/-- The named values of a rule. -/
structure Bindings where
  /-- The current binding of each name. -/
  table : Std.HashMap String Binding
  /-- The slots that have been given out so far. -/
  slotCount : Nat

namespace Bindings

/-- No names. -/
def empty : Bindings := ⟨∅, 0⟩

/-- The bindings with `name` declared.  It starts at the first slot that was never given out.  Slots
have no bound here; in 32 bits they are the same as long as fewer than 2 ^ 32 are given out. -/
def declare (b : Bindings) (name : String) (ty : Ty) : Bindings :=
  ⟨b.table.insert name ⟨name, ty, b.slotCount⟩, b.slotCount + ty.width⟩

/-- The binding of a name. -/
def lookup (b : Bindings) (name : String) : Option Binding := b.table[name]?

/-- The number of names. -/
def size (b : Bindings) : Nat := b.table.size

/-- The bindings in the order of their names, character by character. -/
def inOrder (b : Bindings) : List Binding :=
  b.table.values.mergeSort fun x y => decide (x.name ≤ y.name)

/-- The bindings of a list of declarations, in order. -/
def ofList (decls : List (String × Ty)) : Bindings :=
  decls.foldl (fun b d => b.declare d.1 d.2) empty

@[simp] theorem lookup_empty (name : String) : empty.lookup name = none := by
  simp [lookup, empty]

theorem lookup_declare (b : Bindings) (name other : String) (ty : Ty) :
    (b.declare name ty).lookup other =
      if name = other then some ⟨name, ty, b.slotCount⟩ else b.lookup other := by
  simp [lookup, declare, Std.HashMap.getElem?_insert]

@[simp] theorem slotCount_empty : empty.slotCount = 0 := rfl

@[simp] theorem slotCount_declare (b : Bindings) (name : String) (ty : Ty) :
    (b.declare name ty).slotCount = b.slotCount + ty.width := rfl

end Bindings

end FieldPath
