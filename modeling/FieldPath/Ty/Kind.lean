/-!
# Primitive kinds

The eight primitive kinds of the instrumented machine, with their storage sizes, their one-letter
descriptors and the widening conversions between them.

## Main definitions

* `Kind` — the kinds, and `Kind.all`, their fixed order.
* `Kind.byteSize`, `Kind.descriptor`, `Kind.name` — one entry a kind.
* `Kind.widensFrom` — the conversions that need no cast.
-/

namespace FieldPath

/-- A primitive kind. -/
inductive Kind where
  /-- A truth value. -/
  | boolean
  /-- A signed integer of 8 bits. -/
  | byte
  /-- A signed integer of 16 bits. -/
  | short
  /-- An unsigned code unit of 16 bits. -/
  | char
  /-- A signed integer of 32 bits. -/
  | int
  /-- A signed integer of 64 bits. -/
  | long
  /-- A binary floating-point number of 32 bits. -/
  | float
  /-- A binary floating-point number of 64 bits. -/
  | double
  deriving DecidableEq, Repr, Inhabited

namespace Kind

/-- Every kind, in the order in which they are listed. -/
def all : List Kind := [boolean, byte, short, char, int, long, float, double]

/-- The name that rules and messages use. -/
def name : Kind → String
  | boolean => "boolean"
  | byte => "byte"
  | short => "short"
  | char => "char"
  | int => "int"
  | long => "long"
  | float => "float"
  | double => "double"

/-- The kind of a name. -/
def ofName? (s : String) : Option Kind := all.find? (·.name = s)

/-- The storage size in bytes. -/
def byteSize : Kind → Nat
  | boolean | byte => 1
  | short | char => 2
  | int | float => 4
  | long | double => 8

/-- The letter that stands for the kind in a descriptor. -/
def descriptor : Kind → Char
  | boolean => 'Z'
  | byte => 'B'
  | short => 'S'
  | char => 'C'
  | int => 'I'
  | long => 'J'
  | float => 'F'
  | double => 'D'

/-- All kinds but the truth values hold numbers. -/
def isNumeric : Kind → Bool
  | boolean => false
  | _ => true

/-- The kinds that a kind widens to without a cast, other than itself. -/
def wider : Kind → List Kind
  | byte => [short, int, long, float, double]
  | short | char => [int, long, float, double]
  | int => [long, float, double]
  | long => [float, double]
  | float => [double]
  | boolean | double => []

/-- A value of kind `source` may be stored where `target` is required: the kinds are the same, or
the conversion widens. -/
def widensFrom (target source : Kind) : Bool := target == source || source.wider.contains target

theorem mem_all (k : Kind) : k ∈ all := by cases k <;> decide

@[simp] theorem widensFrom_self (k : Kind) : k.widensFrom k = true := by cases k <;> rfl

end Kind

end FieldPath
