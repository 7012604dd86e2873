import FieldPath.Proofs.Number.Rounding

/-!
# Integers as binary floating-point numbers

The three fields of a number can be read back from the bits that they were put together to.  An
integer that fits the precision of a format, and is small enough for its exponents, is encoded by
bits that decode to it again; so the bits of the nearest number to an integer decode to its
rounding.

## Main results

* `BinaryFormat.Stands` — the integer that some bits stand for, by sign, significand and exponent.
* `BinaryFormat.stands_encode` — encoded bits stand for the integer that was encoded.
* `BinaryFormat.stands_ofInt` — the bits of an integer stand for its rounding.
-/

namespace FieldPath

variable {p : Nat} {n r : Int}

/-! ### Signs and sizes of roundings -/

namespace NearestBits

theorem neg_iff (hp : 0 < p) (h : NearestBits p n r) : r < 0 ↔ n < 0 := by
  have h0 := h.nearest 0 (.zero p)
  have h1 := h.nearest (-1) (.of_natAbs_le hp (Nat.one_le_two_pow))
  omega

/-- Rounding does not pass a power of two. -/
theorem natAbs_le {k : Nat} (hp : 0 < p) (h : NearestBits p n r) (hn : n.natAbs ≤ 2 ^ k) :
    r.natAbs ≤ 2 ^ k := by
  have hk : FitsBits p (2 ^ k : Nat) :=
    ⟨1, k, Nat.one_lt_two_pow (by omega), by rw [Int.natAbs_natCast, Nat.one_mul]⟩
  have h1 := h.nearest _ hk
  have h2 := h.nearest _ hk.neg
  omega

theorem log2_le {k : Nat} (hp : 0 < p) (h : NearestBits p n r) (hn : n.natAbs ≤ 2 ^ k) :
    r.natAbs.log2 ≤ k := by
  rcases eq_or_ne r.natAbs 0 with h0 | h0
  · simp [h0]
  · exact (Nat.pow_le_pow_iff_right (by decide)).1
      (Nat.le_trans (Nat.log2_self_le h0) (h.natAbs_le hp hn))

end NearestBits

namespace BinaryFormat

variable (f : BinaryFormat)

/-! ### The fields of assembled bits -/

section fields

variable {f} {negative : Bool} {exponent fraction : Nat}

/-- The sign and the exponent stand above the fraction. -/
theorem assemble_eq : f.assemble negative exponent fraction =
    ((if negative then 2 ^ f.exponentBits else 0) + exponent) * 2 ^ f.fractionBits + fraction := by
  simp only [assemble, show ∀ a, Nat.pow 2 a = 2 ^ a from fun _ => rfl, Nat.pow_add, Nat.add_mul]
  split
  · rw [Nat.mul_comm (2 ^ f.fractionBits)]
  · rw [Nat.zero_mul]

variable (hm : fraction < 2 ^ f.fractionBits) (he : exponent < 2 ^ f.exponentBits)
include hm

theorem assemble_div : f.assemble negative exponent fraction / 2 ^ f.fractionBits =
    (if negative then 2 ^ f.exponentBits else 0) + exponent := by
  rw [assemble_eq, Nat.add_comm _ fraction, Nat.add_mul_div_right _ _ (Nat.two_pow_pos _),
    Nat.div_eq_of_lt hm, Nat.zero_add]

theorem fractionField_assemble :
    f.fractionField (f.assemble negative exponent fraction) = fraction := by
  show _ % 2 ^ f.fractionBits = _
  rw [assemble_eq, Nat.add_comm _ fraction, Nat.add_mul_mod_self_right, Nat.mod_eq_of_lt hm]

include he

theorem exponentField_assemble :
    f.exponentField (f.assemble negative exponent fraction) = exponent := by
  show _ / 2 ^ f.fractionBits % 2 ^ f.exponentBits = _
  rw [assemble_div hm]
  cases negative <;> simp [Nat.mod_eq_of_lt he]

theorem isNegative_assemble :
    f.isNegative (f.assemble negative exponent fraction) = negative := by
  have hpos := Nat.two_pow_pos f.exponentBits
  rw [isNegative, Nat.testBit_eq_decide_div_mod_eq, Nat.pow_add, ← Nat.div_div_eq_div_mul,
    assemble_div hm]
  cases negative <;> simp [Nat.div_eq_of_lt he, Nat.add_div_left _ hpos]

/-- Assembled bits fill the format. -/
theorem assemble_lt :
    f.assemble negative exponent fraction < 2 ^ (f.fractionBits + f.exponentBits + 1) := by
  have hhigh : (if negative then 2 ^ f.exponentBits else 0) + exponent <
      2 ^ (f.exponentBits + 1) := by
    rw [Nat.pow_succ]
    split <;> omega
  rw [assemble_eq]
  calc _ < ((if negative then 2 ^ f.exponentBits else 0) + exponent + 1) * 2 ^ f.fractionBits := by
        rw [Nat.succ_mul]; omega
    _ ≤ 2 ^ (f.exponentBits + 1) * 2 ^ f.fractionBits := Nat.mul_le_mul_right _ hhigh
    _ = 2 ^ (f.fractionBits + f.exponentBits + 1) := by rw [← Nat.pow_add]; congr 1; omega

end fields

/-! ### Encoded integers -/

/-- The bits stand for the integer `r`: they carry its sign, and the power of two of their exponent
makes their significand its magnitude. -/
def Stands (bits : Nat) (r : Int) : Prop :=
  f.isNegative bits = decide (r < 0) ∧
    ∃ m e, f.decode bits = .finite m e ∧ m * 2 ^ e.toNat = r.natAbs * 2 ^ (-e).toNat

variable {f}

/-- The significand of a number that fits the precision, with its leading one in the place that the
format keeps for it. -/
theorem exists_significand (h0 : r ≠ 0) (hr : FitsBits f.precision r) :
    ∃ c, c < 2 ^ f.fractionBits ∧
      (2 ^ f.fractionBits + c) * 2 ^ r.natAbs.log2 = r.natAbs * 2 ^ f.fractionBits := by
  have hlow := Nat.log2_self_le (Int.natAbs_ne_zero.2 h0)
  have hhigh := Nat.lt_log2_self (n := r.natAbs)
  have hdvd := hr.pow_dvd hlow
  generalize r.natAbs.log2 = k at *
  have hdvd' : 2 ^ k ∣ r.natAbs * 2 ^ f.fractionBits := by
    refine Nat.dvd_trans ?_ (Nat.mul_dvd_mul_right hdvd _)
    rw [← Nat.pow_add]
    exact Nat.pow_dvd_pow 2 (by rw [precision]; omega)
  obtain ⟨a, ha⟩ := hdvd'
  have hla : 2 ^ f.fractionBits ≤ a := by
    refine Nat.le_of_mul_le_mul_left ?_ (Nat.two_pow_pos k)
    rw [← ha]
    exact Nat.mul_le_mul_right _ hlow
  have hah : a < 2 ^ f.fractionBits * 2 := by
    refine Nat.lt_of_mul_lt_mul_left (a := 2 ^ k) ?_
    rw [← ha, Nat.mul_comm (2 ^ f.fractionBits), ← Nat.mul_assoc, ← Nat.pow_succ]
    exact Nat.mul_lt_mul_of_pos_right hhigh (Nat.two_pow_pos _)
  exact ⟨a - 2 ^ f.fractionBits, by omega, by
    rw [Nat.add_sub_cancel' hla, ha, Nat.mul_comm]⟩

/-- The encoding of an integer keeps its significand in the fraction. -/
theorem encode_eq_assemble {c : Nat} {negative : Bool} (h0 : r ≠ 0)
    (hc : (2 ^ f.fractionBits + c) * 2 ^ r.natAbs.log2 = r.natAbs * 2 ^ f.fractionBits) :
    f.encode negative r.natAbs 0 = f.assemble negative (r.natAbs.log2 + f.bias) c := by
  have hdiv : r.natAbs * 2 ^ f.fractionBits / 2 ^ r.natAbs.log2 = 2 ^ f.fractionBits + c := by
    rw [← hc, Nat.mul_div_cancel _ (Nat.two_pow_pos _)]
  simp only [encode, if_neg (Int.natAbs_ne_zero.2 h0), show ∀ a, Nat.pow 2 a = 2 ^ a from
    fun _ => rfl, hdiv]
  congr 1
  omega

theorem topExponent_lt : f.topExponent < 2 ^ f.exponentBits :=
  Nat.sub_lt (Nat.two_pow_pos _) Nat.one_pos

/-- A product with one power of two against a product with another, after the common part of the
powers is taken out. -/
theorem scale_eq {a c k l : Nat} (h : c * 2 ^ k = a * 2 ^ l) :
    c * 2 ^ (k - l : Int).toNat = a * 2 ^ (-(k - l : Int)).toNat := by
  rcases Nat.le_total l k with hlk | hkl
  · obtain ⟨d, rfl⟩ := Nat.exists_eq_add_of_le hlk
    have hd : ((l + d : Nat) - l : Int).toNat = d := by omega
    have hd' : (-((l + d : Nat) - l : Int)).toNat = 0 := by omega
    rw [hd, hd', Nat.pow_zero, Nat.mul_one]
    refine Nat.eq_of_mul_eq_mul_right (Nat.two_pow_pos l) ?_
    rw [← h, Nat.pow_add, Nat.mul_assoc, Nat.mul_comm (2 ^ d)]
  · obtain ⟨d, rfl⟩ := Nat.exists_eq_add_of_le hkl
    have hd : (k - (k + d : Nat) : Int).toNat = 0 := by omega
    have hd' : (-(k - (k + d : Nat) : Int)).toNat = d := by omega
    rw [hd, hd', Nat.pow_zero, Nat.mul_one]
    refine Nat.eq_of_mul_eq_mul_right (Nat.two_pow_pos k) ?_
    rw [h, Nat.pow_add, Nat.mul_assoc, Nat.mul_comm (2 ^ d)]

/-- The bits of an integer that fits stand for it. -/
theorem stands_encode (hb : 0 < f.bias) (hr : FitsBits f.precision r)
    (hk : r.natAbs.log2 + f.bias < f.topExponent) :
    f.Stands (f.encode (decide (r < 0)) r.natAbs 0) r ∧
      f.encode (decide (r < 0)) r.natAbs 0 < 2 ^ (f.fractionBits + f.exponentBits + 1) := by
  have htop := f.topExponent_lt
  rcases eq_or_ne r 0 with rfl | h0
  · have hf := Nat.two_pow_pos f.fractionBits
    have he := Nat.two_pow_pos f.exponentBits
    have henc : f.encode (decide ((0 : Int) < 0)) (0 : Int).natAbs 0 = f.assemble false 0 0 := rfl
    rw [henc]
    refine ⟨⟨isNegative_assemble hf he, 0, 1 - f.bias - f.fractionBits, ?_, by simp⟩,
      assemble_lt hf he⟩
    simp only [decode, exponentField_assemble hf he, fractionField_assemble hf]
    rw [if_neg (by omega), if_pos trivial]
  · obtain ⟨c, hc, hcr⟩ := exists_significand h0 hr
    have he : r.natAbs.log2 + f.bias < 2 ^ f.exponentBits := Nat.lt_trans hk htop
    rw [encode_eq_assemble h0 hcr]
    refine ⟨⟨isNegative_assemble hc he, 2 ^ f.fractionBits + c, r.natAbs.log2 - f.fractionBits,
      ?_, ?_⟩, assemble_lt hc he⟩
    · simp only [decode, exponentField_assemble hc he, fractionField_assemble hc]
      rw [if_neg (by omega), if_neg (by omega)]
      congr 1
      omega
    · exact scale_eq hcr

/-! ### The nearest number to an integer -/

theorem ofInt_eq_encode (hp : 2 ≤ f.precision) (n : Int) :
    f.ofInt n = f.encode (decide (roundIntToBits f.precision n < 0))
      (roundIntToBits f.precision n).natAbs 0 := by
  have hsign := (nearestBits_roundIntToBits hp n).neg_iff (by omega)
  have habs : (roundIntToBits f.precision n).natAbs = roundToBits f.precision n.natAbs := by
    rcases eq_or_ne n 0 with rfl | h0
    · rw [Int.natAbs_zero, roundToBits_of_log2_lt (by simp; omega)]
      simp [roundIntToBits]
    · simp [roundIntToBits, Int.natAbs_mul, Int.natAbs_sign_of_ne_zero h0]
  rw [ofInt, habs, decide_eq_decide.2 hsign]

/-- The bits of the nearest number to an integer stand for its rounding. -/
theorem stands_ofInt (hp : 2 ≤ f.precision) (hb : 0 < f.bias) {k : Nat}
    (hn : n.natAbs ≤ 2 ^ k) (hk : k + f.bias < f.topExponent) :
    f.Stands (f.ofInt n) (roundIntToBits f.precision n) ∧
      f.ofInt n < 2 ^ (f.fractionBits + f.exponentBits + 1) := by
  have hnear := nearestBits_roundIntToBits hp n
  rw [ofInt_eq_encode hp]
  refine stands_encode hb hnear.fits ?_
  have hlog := hnear.log2_le (by omega) hn
  omega

end BinaryFormat

end FieldPath
