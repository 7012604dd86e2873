import Std.Data.HashMap

/-!
# Constant pools

The chunks of one rule set share a pool of constants: integers, doubles, bytes, and symbolic
references to fields, which are found when the code is loaded.  A constant that is in the pool
already is not added again.  Doubles are told apart by their bits, so the two zeros differ and a
number that is not a number is the same as itself.

## Main definitions

* `Constant` — the constants.
* `ConstantPool` — the constants in order, with an index.
* `ConstantPool.add` — the index of a constant, which is added if it is new.
* `ConstantPool.addFieldRef` — the same for a reference to a field, by its three texts.
-/

namespace FieldPath

/-- A constant. -/
inductive Constant where
  /-- An integer; the narrower kinds fit. -/
  | int (n : Int)
  /-- A double, by its bits. -/
  | double (bits : UInt64)
  /-- A string of bytes. -/
  | bytes (data : List UInt8)
  /-- A field, by the internal name of its class, its name and the descriptor of its values. -/
  | fieldRef (owner name descriptor : String)
  deriving DecidableEq, Repr, Hashable

/-- The constants of a rule set. -/
structure ConstantPool where
  /-- The constants, in the order in which they were added. -/
  constants : Array Constant := #[]
  /-- The place of each constant. -/
  index : Std.HashMap Constant Nat := ∅

namespace ConstantPool

/-- No constants. -/
def empty : ConstantPool := {}

/-- The number of constants. -/
def size (p : ConstantPool) : Nat := p.constants.size

/-- The index of a constant, and the pool with it.  Indexes have no bound here.  In 32 bits they are
the same as long as the pool has at most 2 ^ 32 constants. -/
def add (p : ConstantPool) (c : Constant) : Nat × ConstantPool :=
  match p.index[c]? with
  | some i => (i, p)
  | none => (p.size, ⟨p.constants.push c, p.index.insert c p.size⟩)

/-- The index of a reference to a field, and the pool with it. -/
def addFieldRef (p : ConstantPool) (owner name descriptor : String) : Nat × ConstantPool :=
  p.add (.fieldRef owner name descriptor)

/-- The constant of an index. -/
def get? (p : ConstantPool) (i : Nat) : Option Constant := p.constants[i]?

/-- The pool with several constants, and the index of each. -/
def addAll (p : ConstantPool) : List Constant → List Nat × ConstantPool
  | [] => ([], p)
  | c :: rest =>
      let (i, p) := p.add c
      let (indices, p) := p.addAll rest
      (i :: indices, p)

end ConstantPool

end FieldPath
