import FieldPath.Number.Binary

/-!
# Shortest decimal text

The decimal of a floating-point number is the one with the fewest digits among those that read back
as the number, and the nearest of these.  The decimals that read back fill an interval around the
number, which reaches halfway to its two neighbours; the ends belong to it exactly if the
significand is even.

Everything is scaled to integers: a finite number, the interval and the candidates are natural
numbers over one power of ten.  The grids of multiples of `10 ^ j` are then tried from coarse to
fine, and of each grid the two points next to the number.

## Main definitions

* `Reading` — a number and its interval, scaled to natural numbers over a power of ten.
* `Reading.shortest` — the chosen decimal.
* `positional` — a decimal written out without an exponent.
* `BinaryFormat.text` — the text of a number.
-/

namespace FieldPath

/-! ### The interval that reads back -/

/-- A positive number and the interval of decimals that read back as it, in units of
`10 ^ exponent`. -/
structure Reading where
  /-- The number. -/
  value : Nat
  /-- The lower end of the interval. -/
  low : Nat
  /-- The upper end of the interval. -/
  high : Nat
  /-- The ends belong to the interval. -/
  closed : Bool
  /-- The power of ten that one unit stands for. -/
  exponent : Int
  deriving Repr

namespace Reading

/-- The point `x` lies in the interval. -/
def has (r : Reading) (x : Nat) : Bool :=
  if r.closed then r.low ≤ x && x ≤ r.high else r.low < x && x < r.high

/-- The coarsest decimal in the interval at or below the grid of `10 ^ j`, as a multiple and the
power that it multiplies.  On one grid the nearer of two points wins, and the upper one of two
points at the same distance.  The grid of `10 ^ 0` holds the number itself. -/
def search (r : Reading) : Nat → Nat × Nat
  | 0 => (r.value, 0)
  | j + 1 =>
      let grid := Nat.pow 10 (j + 1)
      let below := r.value / grid
      let down := r.has (below * grid)
      let up := r.has ((below + 1) * grid)
      if up && (!down || grid ≤ 2 * (r.value % grid)) then (below + 1, j + 1)
      else if down then (below, j + 1)
      else r.search j

/-- The shortest decimal that reads back, as digits and a power of ten.  The search starts at a grid
that is wider than the whole interval. -/
def shortest (r : Reading) : Nat × Int :=
  let found := r.search (r.high.log2 * 31 / 100 + 1)
  (found.1, r.exponent + found.2)

end Reading

namespace BinaryFormat

/-- The interval of the positive number `m * 2 ^ q`.  In quarters of a unit in the last place it
reaches two up and two down, but only one down from a power of two, whose lower neighbours lie
twice as dense; at the least exponent they do not. -/
def reading (f : BinaryFormat) (m : Nat) (q : Int) : Reading :=
  let least : Int := 1 - f.bias - f.fractionBits
  let down := if m = Nat.pow 2 f.fractionBits ∧ least < q then 1 else 2
  let scale := Nat.pow 2 (q - 2).toNat * Nat.pow 5 (2 - q).toNat
  { value := 4 * m * scale
    low := (4 * m - down) * scale
    high := (4 * m + 2) * scale
    closed := m % 2 = 0
    exponent := min (q - 2) 0 }

end BinaryFormat

/-! ### Written form -/

/-- The decimal `digits * 10 ^ exponent` written out: trailing zeros for a positive power, else a
point, with a zero before it if no digit is left there. -/
def positional (digits : Nat) (exponent : Int) : String :=
  let ds := Nat.toDigits 10 digits
  if 0 ≤ exponent then String.ofList (ds ++ List.replicate exponent.toNat '0')
  else
    let places := (-exponent).toNat
    let padded := List.replicate (places + 1 - ds.length) '0' ++ ds
    let whole := padded.length - places
    String.ofList (padded.take whole ++ '.' :: padded.drop whole)

/-- The text of a number: the shortest digits that read back, without an exponent and without a
point for whole numbers.  The sign of zero is shown. -/
def BinaryFormat.text (f : BinaryFormat) (bits : Nat) : String :=
  let sign := if f.isNegative bits then "-" else ""
  match f.decode bits with
  | .nan => "NaN"
  | .infinite => sign ++ "inf"
  | .finite m q =>
      if m = 0 then sign ++ "0"
      else
        let d := (f.reading m q).shortest
        sign ++ positional d.1 d.2

example : BinaryFormat.double.text 0x3FB999999999999A = "0.1" := by decide +kernel

/-- The sum of one tenth and two tenths needs all its digits. -/
example : BinaryFormat.double.text 0x3FD3333333333334 = "0.30000000000000004" := by decide +kernel

example : BinaryFormat.double.text 0x444B1AE4D6E2EF50 = "1000000000000000000000" := by
  decide +kernel

example : BinaryFormat.single.text 0x80000000 = "-0" := by decide +kernel

end FieldPath
