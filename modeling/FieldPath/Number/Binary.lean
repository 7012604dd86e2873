/-!
# Binary floating-point numbers

A number is kept as its bits: a sign bit, a biased exponent and a fraction.  Everything is done in
exact integer arithmetic on those fields, so no rounding happens but the one that is written.

## Main definitions

* `BinaryFormat` — the two field widths, with the formats `single` and `double`.
* `BinaryFormat.decode` — a number as a significand and a power of two.
* `BinaryFormat.encode` — the bits of a number that the format holds exactly.
* `roundToBits` — the nearest natural number with a bounded count of significant bits.
* `BinaryFormat.ofInt` — the nearest number of the format to an integer.
* `widenSingle` — a single as a double.
-/

namespace FieldPath

/-- A binary interchange format, given by the widths of its fraction and its exponent. -/
structure BinaryFormat where
  /-- The bits of the fraction. -/
  fractionBits : Nat
  /-- The bits of the biased exponent. -/
  exponentBits : Nat

namespace BinaryFormat

/-- The format of 32 bits. -/
def single : BinaryFormat := ⟨23, 8⟩

/-- The format of 64 bits. -/
def double : BinaryFormat := ⟨52, 11⟩

/-- The bias of the exponent. -/
def bias (f : BinaryFormat) : Nat := Nat.pow 2 (f.exponentBits - 1) - 1

/-- The exponent field of infinities and of numbers that are not numbers. -/
def topExponent (f : BinaryFormat) : Nat := Nat.pow 2 f.exponentBits - 1

/-- The sign bit is set. -/
def isNegative (f : BinaryFormat) (bits : Nat) : Bool :=
  bits.testBit (f.fractionBits + f.exponentBits)

/-- The exponent field. -/
def exponentField (f : BinaryFormat) (bits : Nat) : Nat :=
  bits / Nat.pow 2 f.fractionBits % Nat.pow 2 f.exponentBits

/-- The fraction field. -/
def fractionField (f : BinaryFormat) (bits : Nat) : Nat := bits % Nat.pow 2 f.fractionBits

end BinaryFormat

/-- What the bits of a number mean, apart from the sign. -/
inductive Magnitude where
  /-- Not a number. -/
  | nan
  /-- Infinity. -/
  | infinite
  /-- The number `significand * 2 ^ exponent`. -/
  | finite (significand : Nat) (exponent : Int)
  deriving DecidableEq, Repr

namespace BinaryFormat

/-- The magnitude that some bits stand for.  The exponent fields zero and one share a scale, and all
fields but zero bring a leading one. -/
def decode (f : BinaryFormat) (bits : Nat) : Magnitude :=
  let e := f.exponentField bits
  let m := f.fractionField bits
  if e = f.topExponent then (if m = 0 then .infinite else .nan)
  else if e = 0 then .finite m (1 - f.bias - f.fractionBits)
  else .finite (Nat.pow 2 f.fractionBits + m) (e - f.bias - f.fractionBits)

/-- The three fields put together. -/
def assemble (f : BinaryFormat) (negative : Bool) (exponent fraction : Nat) : Nat :=
  (if negative then Nat.pow 2 (f.fractionBits + f.exponentBits) else 0) +
    exponent * Nat.pow 2 f.fractionBits + fraction

/-- The bits of `significand * 2 ^ exponent`, for a number that the format holds as a normal number
or as zero. -/
def encode (f : BinaryFormat) (negative : Bool) (significand : Nat) (exponent : Int) : Nat :=
  if significand = 0 then f.assemble negative 0 0
  else
    let top := significand.log2
    f.assemble negative (top + exponent + f.bias).toNat
      (significand * Nat.pow 2 f.fractionBits / Nat.pow 2 top - Nat.pow 2 f.fractionBits)

end BinaryFormat

/-- The natural number nearest to `n` among those with at most `p` significant bits; a number
halfway between two goes to the one with the even significand. -/
def roundToBits (p n : Nat) : Nat :=
  let s := n.log2 + 1 - p
  let q := n / Nat.pow 2 s
  let r := n % Nat.pow 2 s
  let up := Nat.pow 2 s < 2 * r ∨ (Nat.pow 2 s = 2 * r ∧ q % 2 = 1)
  (if up then q + 1 else q) * Nat.pow 2 s

/-- The integer nearest to `n` with at most `p` significant bits, ties to the even significand. -/
def roundIntToBits (p : Nat) (n : Int) : Int := n.sign * roundToBits p n.natAbs

namespace BinaryFormat

/-- The significant bits that the format keeps. -/
def precision (f : BinaryFormat) : Nat := f.fractionBits + 1

/-- The number of the format nearest to an integer, ties to the even significand. -/
def ofInt (f : BinaryFormat) (n : Int) : Nat :=
  f.encode (n < 0) (roundToBits f.precision n.natAbs) 0

end BinaryFormat

/-- A single as a double.  Every single is one: the fraction gains zeros, and a number that is not a
number keeps its fraction. -/
def widenSingle (bits : UInt32) : UInt64 :=
  let negative := BinaryFormat.single.isNegative bits.toNat
  let wide := match BinaryFormat.single.decode bits.toNat with
    | .nan => BinaryFormat.double.assemble negative BinaryFormat.double.topExponent
        (BinaryFormat.single.fractionField bits.toNat * Nat.pow 2 29)
    | .infinite => BinaryFormat.double.assemble negative BinaryFormat.double.topExponent 0
    | .finite m q => BinaryFormat.double.encode negative m q
  UInt64.ofNat wide

/-- A number with few enough bits is its own rounding. -/
theorem roundToBits_of_log2_lt {p n : Nat} (h : n.log2 < p) : roundToBits p n = n := by
  have hs : n.log2 + 1 - p = 0 := by omega
  simp [roundToBits, hs, Nat.mod_one]

example : roundToBits 3 9 = 8 ∧ roundToBits 3 11 = 12 ∧ roundToBits 3 15 = 16 := by decide

example : BinaryFormat.double.ofInt (-2) = 0xC000000000000000 := by decide

example : widenSingle 0x3FC00000 = 0x3FF8000000000000 := by decide

/-- The least single above zero is a normal double. -/
example : widenSingle 1 = 0x36A0000000000000 := by decide

end FieldPath
