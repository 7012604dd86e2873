import FieldPath.Proofs.Number.Encoding
import FieldPath.Value

/-!
# Integers in wider kinds

A value of an integral kind can be stored where a wider kind is required.  A wider integral kind
holds the same integer, and a double the nearest number of 53 bits.  A single is reached by way of a
double, so the integer is rounded twice: every integer of up to 53 bits gets the nearest single, but
a long may miss it.

## Main results

* `Kind.magnitudeBits` — the range of the integers of a kind.
* `integer_widening` — what a wider kind holds of an integer.
* `float_of_long_misses` — a long that is not converted to the nearest single.
-/

namespace FieldPath

variable {v : Value} {n : Int} {source k : Kind}

/-! ### Ranges of integers -/

/-- The bits that the magnitudes of the integers of a kind take. -/
def Kind.magnitudeBits : Kind → Nat
  | .byte => 7
  | .short => 15
  | .char => 16
  | .int => 31
  | .boolean | .long | .float | .double => 63

/-- Widening to an integral kind does not narrow the range. -/
theorem Kind.magnitudeBits_le (hk : k.widensFrom source = true) (hf : k ≠ .float)
    (hd : k ≠ .double) : source.magnitudeBits ≤ k.magnitudeBits := by
  revert hk hf hd
  cases source <;> cases k <;> decide

namespace Value

theorem toInt?_bounds (hn : v.toInt? = some n) (hs : v.kind? = some source) :
    -2 ^ source.magnitudeBits ≤ n ∧ n < 2 ^ source.magnitudeBits := by
  cases v <;> simp only [toInt?, kind?, Option.some.injEq, reduceCtorEq] at hn hs <;> subst hn hs
  case byte n => exact ⟨n.le_toInt, n.toInt_lt⟩
  case short n => exact ⟨n.le_toInt, n.toInt_lt⟩
  case char n =>
    have := n.toNat_lt
    simp only [Kind.magnitudeBits]
    omega
  case int n => exact ⟨n.le_toInt, n.toInt_lt⟩
  case long n => exact ⟨n.le_toInt, n.toInt_lt⟩

/-- The magnitude of an integer has at most 63 bits, and at most 53 if the value is not a long. -/
theorem natAbs_le_of_toInt? (hn : v.toInt? = some n) (hs : v.kind? = some source) :
    n.natAbs ≤ 2 ^ 63 ∧ (source ≠ .long → n.natAbs ≤ 2 ^ 53) := by
  have hbounds := toInt?_bounds hn hs
  cases v <;> simp only [toInt?, kind?, Option.some.injEq, reduceCtorEq] at hn hs <;>
    subst hs <;> simp only [Kind.magnitudeBits] at hbounds <;> simp <;> omega

/-! ### Conversions -/

/-- An integer is converted to every other kind that is wider. -/
theorem widenTo_eq_ofIntWide (hn : v.toInt? = some n) (hs : v.kind? = some source)
    (hk : k.widensFrom source = true) (hne : source ≠ k) : v.widenTo k = ofIntWide n k := by
  have hconv : v.convert k = ofIntWide n k := by
    cases v <;> simp_all [toInt?, convert]
  simp [widenTo, hs, hne, hk, hconv]

/-- A wider integral kind holds the same integer. -/
theorem widenTo_integral (hn : v.toInt? = some n) (hs : v.kind? = some source)
    (hk : k.widensFrom source = true) (hf : k ≠ .float) (hd : k ≠ .double) :
    ∃ w, v.widenTo k = some w ∧ w.kind? = some k ∧ w.toInt? = some n := by
  rcases eq_or_ne source k with rfl | hne
  · exact ⟨v, widenTo_of_kind?_eq hs, hs, hn⟩
  have hbounds := toInt?_bounds hn hs
  have hbits := Kind.magnitudeBits_le hk hf hd
  have hpow : (2 : Int) ^ source.magnitudeBits ≤ 2 ^ k.magnitudeBits := by
    exact_mod_cast Nat.pow_le_pow_right (by decide) hbits
  have hlow : -2 ^ k.magnitudeBits ≤ n := by omega
  have hhigh : n < 2 ^ k.magnitudeBits := by omega
  rw [widenTo_eq_ofIntWide hn hs hk hne]
  cases k with
  | short => exact ⟨_, rfl, rfl, congrArg some (Int16.toInt_ofInt_of_le hlow hhigh)⟩
  | int => exact ⟨_, rfl, rfl, congrArg some (Int32.toInt_ofInt_of_le hlow hhigh)⟩
  | long => exact ⟨_, rfl, rfl, congrArg some (Int64.toInt_ofInt_of_le hlow hhigh)⟩
  | boolean | byte | char => cases source <;> simp [Kind.widensFrom, Kind.wider] at hk hne
  | float => contradiction
  | double => contradiction

/-- The bits of a double stand for the nearest number of 53 bits. -/
theorem ofIntWide_double (hn : n.natAbs ≤ 2 ^ 63) :
    ∃ bits, ofIntWide n .double = some (.double bits) ∧
      BinaryFormat.double.Stands bits.toNat (roundIntToBits 53 n) := by
  obtain ⟨hstands, hlt⟩ := BinaryFormat.stands_ofInt (f := .double) (by decide) (by decide) hn
    (by decide)
  refine ⟨_, rfl, ?_⟩
  rwa [UInt64.toNat_ofNat_of_lt' hlt]

/-- The bits of a single stand for the integer rounded to 53 bits and then to 24. -/
theorem ofIntWide_float (hn : n.natAbs ≤ 2 ^ 63) :
    ∃ bits, ofIntWide n .float = some (.float bits) ∧
      BinaryFormat.single.Stands bits.toNat (roundIntToBits 24 (roundIntToBits 53 n)) := by
  have hx : (roundIntToBits 53 n).natAbs ≤ 2 ^ 63 :=
    (nearestBits_roundIntToBits (by decide) n).natAbs_le (by decide) hn
  obtain ⟨hstands, hlt⟩ := BinaryFormat.stands_ofInt (f := .single) (by decide) (by decide) hx
    (by decide)
  refine ⟨UInt32.ofNat (BinaryFormat.single.ofInt (roundIntToBits 53 n)), rfl, ?_⟩
  rwa [UInt32.toNat_ofNat_of_lt' hlt]

end Value

/-! ### The nearest number of a wider kind -/

/-- An integer can be widened to every wider kind.  An integral kind holds the same integer, and a
double the nearest number of 53 bits.  A single holds the nearest number `r` of 24 bits to the
nearest number `x` of 53 bits.  That is the nearest one to the integer, unless `x` is halfway
between two numbers of 24 bits and the tie was broken against the integer; no integer up to `2 ^ 53`
in magnitude comes to that, hence none of a byte, a short, a char or an int. -/
theorem integer_widening (hn : v.toInt? = some n) (hs : v.kind? = some source)
    (hk : k.widensFrom source = true) :
    ∃ w, v.widenTo k = some w ∧ w.kind? = some k ∧
      (k ≠ .float → k ≠ .double → w.toInt? = some n) ∧
      (k = .double → ∃ bits r, w = .double bits ∧ BinaryFormat.double.Stands bits.toNat r ∧
        NearestBits 53 n r) ∧
      (k = .float → ∃ bits x r, w = .float bits ∧ BinaryFormat.single.Stands bits.toNat r ∧
        NearestBits 53 n x ∧ NearestBits 24 x r ∧
        (NearestBits 24 n r ↔ ¬ BreaksTieAgainst 24 n x r) ∧
        (source ≠ .long ∨ n.natAbs ≤ 2 ^ 53 → NearestBits 24 n r)) := by
  obtain ⟨hsize, hsmall⟩ := Value.natAbs_le_of_toInt? hn hs
  have hne : k = .float ∨ k = .double → source ≠ k := by
    rintro (rfl | rfl) rfl <;> cases v <;> simp [Value.toInt?, Value.kind?] at hn hs
  rcases eq_or_ne k .float with rfl | hf
  · obtain ⟨bits, hw, hstands⟩ := Value.ofIntWide_float hsize
    rw [Value.widenTo_eq_ofIntWide hn hs hk (hne (.inl rfl))]
    have hx := nearestBits_roundIntToBits (p := 53) (by decide) n
    have hr := nearestBits_roundIntToBits (p := 24) (by decide) (roundIntToBits 53 n)
    refine ⟨_, hw, rfl, fun h => absurd rfl h, nofun, fun _ => ⟨bits, _, _, rfl, hstands, hx, hr,
      hx.twice_iff (by decide) (by decide) hr, fun h => ?_⟩⟩
    have hfits : n.natAbs ≤ 2 ^ 53 := h.elim hsmall id
    rwa [hx.eq_self (.of_natAbs_le (by decide) hfits)] at hr ⊢
  rcases eq_or_ne k .double with rfl | hd
  · obtain ⟨bits, hw, hstands⟩ := Value.ofIntWide_double hsize
    rw [Value.widenTo_eq_ofIntWide hn hs hk (hne (.inr rfl))]
    exact ⟨_, hw, rfl, fun _ h => absurd rfl h,
      fun _ => ⟨bits, _, rfl, hstands, nearestBits_roundIntToBits (by decide) n⟩, nofun⟩
  · obtain ⟨w, hw, hkind, hint⟩ := Value.widenTo_integral hn hs hk hf hd
    exact ⟨w, hw, hkind, fun _ _ => hint, fun h => absurd h hd, fun h => absurd h hf⟩

/-- An int between two singles goes to the one with the even significand. -/
theorem integer_widening_int :
    (Value.int 16777217).toInt? = some 16777217 ∧ (Value.int 16777217).kind? = some .int ∧
      Kind.float.widensFrom .int = true ∧
      ∃ bits r, (Value.int 16777217).widenTo .float = some (.float bits) ∧
        BinaryFormat.single.Stands bits.toNat r ∧ NearestBits 24 16777217 r := by
  have hn : (Value.int 16777217).toInt? = some 16777217 := by decide
  have hs : (Value.int 16777217).kind? = some .int := rfl
  obtain ⟨w, hw, -, -, -, hfloat⟩ := integer_widening (k := .float) hn hs rfl
  obtain ⟨bits, x, r, rfl, hstands, -, -, -, hnear⟩ := hfloat rfl
  exact ⟨hn, hs, rfl, bits, r, hw, hstands, hnear (.inl (by decide))⟩

/-- The long `2 ^ 53 + 2 ^ 29 + 1` lies above the middle of two singles, but the nearest double is
the middle; so it gets the lower single, which has the even significand. -/
theorem float_of_long_misses :
    (Value.long 9007199791611905).widenTo .float = some (.float 0x5A000000) ∧
      (∀ r, BinaryFormat.single.Stands 0x5A000000 r → ¬ NearestBits 24 9007199791611905 r) ∧
      ∃ r, BinaryFormat.single.Stands 0x5A000001 r ∧ NearestBits 24 9007199791611905 r := by
  refine ⟨by decide, ?_, 9007200328482816, ⟨by decide, 8388609, 30, by decide, by decide⟩, ?_⟩
  · rintro r ⟨hsign, m, e, hdec, hr⟩ h
    have hupper := h.nearest 9007200328482816 ⟨8388609, 30, by decide, by decide⟩
    have hdec' : BinaryFormat.single.decode 0x5A000000 = .finite 8388608 30 := by decide
    rw [hdec', Magnitude.finite.injEq] at hdec
    obtain ⟨rfl, rfl⟩ := hdec
    simp at hr
    omega
  · have := nearestBits_roundIntToBits (p := 24) (by decide) 9007199791611905
    rwa [show roundIntToBits 24 9007199791611905 = 9007200328482816 by decide] at this

end FieldPath
