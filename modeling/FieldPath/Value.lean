import FieldPath.Number.Shortest
import FieldPath.Text.Hex
import FieldPath.Ty.Basic

/-!
# Values

A value is of one of the eight primitive kinds, or it is a reference: null or a handle to an
object.  Floating-point values are kept as their bits, so equality of values is identity.

## Main definitions

* `Handle` — the name of an object: a place and the generation of its use.
* `Value` — the values, with `Value.kind?` and `Value.text`.
* `Value.zero` — the value of a fresh field of a type.
* `Value.widenTo` — the identity and widening conversions.
-/

namespace FieldPath

/-- The name of an object.  A place is used again after its object is freed, and the generation
tells the uses of one place apart. -/
structure Handle where
  /-- The place. -/
  index : Nat
  /-- The use of the place; the count wraps. -/
  generation : UInt32
  deriving DecidableEq, Repr, Inhabited

/-- A value. -/
inductive Value where
  /-- A truth value. -/
  | bool (b : Bool)
  /-- A signed integer of 8 bits. -/
  | byte (n : Int8)
  /-- A signed integer of 16 bits. -/
  | short (n : Int16)
  /-- A code unit of 16 bits. -/
  | char (n : UInt16)
  /-- A signed integer of 32 bits. -/
  | int (n : Int32)
  /-- A signed integer of 64 bits. -/
  | long (n : Int64)
  /-- A binary floating-point number of 32 bits. -/
  | float (bits : UInt32)
  /-- A binary floating-point number of 64 bits. -/
  | double (bits : UInt64)
  /-- The reference to nothing. -/
  | null
  /-- A reference to an object. -/
  | object (handle : Handle)
  deriving DecidableEq, Inhabited

namespace Value

/-- The kind of a primitive value.  References have none. -/
def kind? : Value → Option Kind
  | .bool _ => some .boolean
  | .byte _ => some .byte
  | .short _ => some .short
  | .char _ => some .char
  | .int _ => some .int
  | .long _ => some .long
  | .float _ => some .float
  | .double _ => some .double
  | .null | .object _ => none

/-- The value is the reference to nothing. -/
def isNull : Value → Bool
  | .null => true
  | _ => false

/-- The handle of a reference to an object. -/
def object? : Value → Option Handle
  | .object h => some h
  | _ => none

/-- The zero of a kind. -/
def zeroOf : Kind → Value
  | .boolean => .bool false
  | .byte => .byte 0
  | .short => .short 0
  | .char => .char 0
  | .int => .int 0
  | .long => .long 0
  | .float => .float 0
  | .double => .double 0

/-- The value of a fresh field: zero for a primitive type, null for any other. -/
def zero (t : Ty) : Value :=
  match t.kind? with
  | some k => zeroOf k
  | none => .null

/-! ### Widening -/

/-- The integer that a value of an integral kind stands for. -/
def toInt? : Value → Option Int
  | .byte n => some n.toInt
  | .short n => some n.toInt
  | .char n => some n.toNat
  | .int n => some n.toInt
  | .long n => some n.toInt
  | _ => none

/-- An integer as a value of a wider kind.  A double takes the nearest number, and a single the one
nearest to that double. -/
def ofIntWide (n : Int) : Kind → Option Value
  | .short => some (.short (Int16.ofInt n))
  | .int => some (.int (Int32.ofInt n))
  | .long => some (.long (Int64.ofInt n))
  | .float =>
      let rounded := roundIntToBits BinaryFormat.double.precision n
      some (.float (UInt32.ofNat (BinaryFormat.single.ofInt rounded)))
  | .double => some (.double (UInt64.ofNat (BinaryFormat.double.ofInt n)))
  | .boolean | .byte | .char => none

/-- A value of another kind than `target` converted to it. -/
def convert (v : Value) (target : Kind) : Option Value :=
  match v, target with
  | .float bits, .double => some (.double (widenSingle bits))
  | v, target => v.toInt?.bind (ofIntWide · target)

/-- The value as one of kind `target`: unchanged if it is one already, converted if its kind
widens.  References and narrower targets are refused. -/
def widenTo (v : Value) (target : Kind) : Option Value :=
  match v.kind? with
  | none => none
  | some source =>
      if source = target then some v
      else if target.widensFrom source then v.convert target
      else none

/-! ### Text -/

/-- What kind of value this is, in messages. -/
def label (v : Value) : String :=
  match v.kind? with
  | some k => k.name
  | none => if v.isNull then "null" else "reference"

/-- A code unit in quotes.  One that is half of a surrogate pair is no character and is written by
its number. -/
def charText (n : UInt16) : String :=
  if 0xD800 ≤ n && n ≤ 0xDFFF then "'\\u\x7b" ++ hexText 4 n.toNat ++ "\x7d'"
  else "'" ++ String.singleton (Char.ofNat n.toNat) ++ "'"

/-- The value as shown to people.  Longs and floats carry a letter, doubles and the other integers
stand alone, and an object is shown by its place. -/
def text : Value → String
  | .bool b => if b then "true" else "false"
  | .byte n => toString n.toInt
  | .short n => toString n.toInt
  | .char n => charText n
  | .int n => toString n.toInt
  | .long n => toString n.toInt ++ "L"
  | .float bits => BinaryFormat.single.text bits.toNat ++ "f"
  | .double bits => BinaryFormat.double.text bits.toNat
  | .null => "null"
  | .object h => "@" ++ toString h.index

@[simp] theorem kind?_zeroOf (k : Kind) : (zeroOf k).kind? = some k := by cases k <;> rfl

@[simp] theorem widenTo_null (k : Kind) : null.widenTo k = none := rfl

@[simp] theorem widenTo_object (h : Handle) (k : Kind) : (object h).widenTo k = none := rfl

/-- A value of the target kind is left as it is. -/
theorem widenTo_of_kind?_eq {v : Value} {k : Kind} (h : v.kind? = some k) :
    v.widenTo k = some v := by
  simp [widenTo, h]

end Value

end FieldPath
