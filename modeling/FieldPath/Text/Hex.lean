/-!
# Hexadecimal text

Digests are shown with sixteen hexadecimal digits and code units without a character with four.

## Main definitions

* `hexText` — the last `width` hexadecimal digits of a number, in lower case.
-/

namespace FieldPath

/-- The last `width` hexadecimal digits of `n`, most significant first, in lower case. -/
def hexDigits : Nat → Nat → List Char
  | 0, _ => []
  | width + 1, n => hexDigits width (n / 16) ++ [Nat.digitChar (n % 16)]

/-- The last `width` hexadecimal digits of `n` as a string. -/
def hexText (width n : Nat) : String := String.ofList (hexDigits width n)

@[simp] theorem length_hexDigits (width n : Nat) : (hexDigits width n).length = width := by
  induction width generalizing n with
  | zero => rfl
  | succ width ih => simp [hexDigits, ih]

end FieldPath
