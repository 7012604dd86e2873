import FieldPath.Number.Binary
import Mathlib.Algebra.Ring.Int.Defs
import Mathlib.Algebra.Ring.Nat
import Mathlib.Tactic.WLOG

/-!
# Rounding to significant bits

An integer fits `p` bits if it is a significand of at most `p` bits with a power of two.  From a
normal significand on, the integers that fit lie on a grid whose spacing is that power, up to the
next power of two; so the nearest ones to a number are the two ends of its interval of the grid.

A number may also be rounded twice, to many bits and then to few.  The second rounding sees a number
that has moved.  It goes wrong exactly if the first rounding moved the number onto the middle of an
interval of the coarse grid, and the tie was then broken away from the side on which the number had
been.

## Main results

* `NearestBits` — the nearest integer of `p` bits, ties to the even significand, among all that fit.
* `nearestBits_roundIntToBits` — the computed rounding is the nearest one.
* `NearestBits.twice_iff` — when two roundings in a row give the nearest number.
-/

namespace FieldPath

/-- The integer is a significand of at most `p` bits with a power of two. -/
def FitsBits (p : Nat) (r : Int) : Prop := ∃ m e : Nat, m < 2 ^ p ∧ r.natAbs = m * 2 ^ e

/-- The integer has a significand of exactly `p` bits, and the last of them is zero. -/
def EvenSignificand (p : Nat) (r : Int) : Prop :=
  ∃ m e : Nat, 2 ^ (p - 1) ≤ m ∧ m < 2 ^ p ∧ m % 2 = 0 ∧ r.natAbs = m * 2 ^ e

/-- `r` is the integer of `p` significant bits nearest to `n`; if another one is as near, `r` is the
one with the even significand. -/
structure NearestBits (p : Nat) (n r : Int) : Prop where
  /-- The number has `p` significant bits. -/
  fits : FitsBits p r
  /-- No other number of `p` bits is nearer. -/
  nearest : ∀ s, FitsBits p s → (n - r).natAbs ≤ (n - s).natAbs
  /-- A tie goes to the even significand. -/
  even : ∀ s, FitsBits p s → s ≠ r → (n - s).natAbs = (n - r).natAbs → EvenSignificand p r

variable {p q m e : Nat} {n r s t x : Int}

/-! ### Numbers that fit -/

namespace FitsBits

theorem zero (p : Nat) : FitsBits p 0 := ⟨0, 0, Nat.two_pow_pos p, rfl⟩

theorem neg (h : FitsBits p r) : FitsBits p (-r) := by
  obtain ⟨m, e, hm, hr⟩ := h
  exact ⟨m, e, hm, by rw [Int.natAbs_neg, hr]⟩

theorem mono (h : FitsBits q r) (hqp : q ≤ p) : FitsBits p r := by
  obtain ⟨m, e, hm, hr⟩ := h
  exact ⟨m, e, Nat.lt_of_lt_of_le hm (Nat.pow_le_pow_right (by decide) hqp), hr⟩

/-- A number up to `2 ^ p` fits `p` bits. -/
theorem of_natAbs_le (hp : 0 < p) (h : r.natAbs ≤ 2 ^ p) : FitsBits p r := by
  rcases Nat.lt_or_eq_of_le h with h | h
  · exact ⟨r.natAbs, 0, h, by simp⟩
  · exact ⟨1, p, Nat.one_lt_two_pow (by omega), by omega⟩

/-- A significand of `p` bits and the next one fit `p` bits. -/
theorem of_le (hp : 0 < p) (hm : m ≤ 2 ^ p) : FitsBits p (m * 2 ^ e : Nat) := by
  rcases Nat.lt_or_eq_of_le hm with hm | rfl
  · exact ⟨m, e, hm, Int.natAbs_natCast _⟩
  · exact ⟨1, p + e, Nat.one_lt_two_pow (by omega), by
      rw [Int.natAbs_natCast, ← Nat.pow_add, Nat.one_mul]⟩

/-- A large number that fits few bits is divisible by a high power of two. -/
theorem pow_dvd {k : Nat} (h : FitsBits p r) (hk : 2 ^ k ≤ r.natAbs) :
    2 ^ (k + 1 - p) ∣ r.natAbs := by
  obtain ⟨m, e, hm, hr⟩ := h
  have hlt : 2 ^ k < 2 ^ (p + e) := by
    calc 2 ^ k ≤ m * 2 ^ e := hr ▸ hk
      _ < 2 ^ p * 2 ^ e := Nat.mul_lt_mul_of_pos_right hm (Nat.two_pow_pos e)
      _ = 2 ^ (p + e) := (Nat.pow_add 2 p e).symm
  have hke : k < p + e := (Nat.pow_lt_pow_iff_right (by decide)).1 hlt
  rw [hr]
  exact Nat.dvd_trans (Nat.pow_dvd_pow 2 (by omega)) (Nat.dvd_mul_left _ _)

/-- Above a normal significand, the next number that fits is the one of the next significand. -/
theorem next_le (hp : 0 < p) (hm : 2 ^ (p - 1) ≤ m) (ht : FitsBits p t)
    (h : (m * 2 ^ e : Nat) < t) : ((m + 1) * 2 ^ e : Nat) ≤ t := by
  obtain ⟨t, rfl⟩ := Int.eq_ofNat_of_zero_le (by omega : 0 ≤ t)
  have hmt : m * 2 ^ e < t := Int.ofNat_lt.1 h
  have hlow : 2 ^ (p - 1 + e) ≤ t := by
    calc 2 ^ (p - 1 + e) = 2 ^ (p - 1) * 2 ^ e := Nat.pow_add 2 _ _
      _ ≤ m * 2 ^ e := Nat.mul_le_mul_right _ hm
      _ ≤ t := Nat.le_of_lt hmt
  obtain ⟨c, hc⟩ : 2 ^ e ∣ t := by
    have := ht.pow_dvd (k := p - 1 + e) (by simpa using hlow)
    rwa [show p - 1 + e + 1 - p = e by omega, Int.natAbs_natCast] at this
  subst hc
  have hmc : m < c := by
    rw [Nat.mul_comm m] at hmt
    exact Nat.lt_of_mul_lt_mul_left hmt
  rw [Nat.mul_comm (2 ^ e) c]
  exact Int.ofNat_le.2 (Nat.mul_le_mul_right _ hmc)

/-- A number of at least `p` bits that fits `p` bits has a normal significand. -/
theorem exists_normal (hp : 0 < p) (h : FitsBits p r) (hr : 2 ^ (p - 1) ≤ r.natAbs) :
    ∃ m e : Nat, 2 ^ (p - 1) ≤ m ∧ m < 2 ^ p ∧ r.natAbs = m * 2 ^ e := by
  have h0 : r.natAbs ≠ 0 := by have := Nat.two_pow_pos (p - 1); omega
  have hlow := Nat.log2_self_le h0
  have hhigh := Nat.lt_log2_self (n := r.natAbs)
  have hlog : p - 1 ≤ r.natAbs.log2 := (Nat.le_log2 h0).2 hr
  obtain ⟨m, hm⟩ := h.pow_dvd hlow
  generalize r.natAbs.log2 = k at *
  have hk : k = (k + 1 - p) + (p - 1) := by omega
  have hk' : k + 1 = (k + 1 - p) + p := by omega
  refine ⟨m, k + 1 - p, ?_, ?_, by rw [hm, Nat.mul_comm]⟩
  · refine Nat.le_of_mul_le_mul_left ?_ (Nat.two_pow_pos (k + 1 - p))
    rwa [← hm, ← Nat.pow_add, ← hk]
  · refine Nat.lt_of_mul_lt_mul_left (a := 2 ^ (k + 1 - p)) ?_
    rwa [← hm, ← Nat.pow_add, ← hk']

end FitsBits

/-! ### The nearest number -/

namespace NearestBits

theorem neg (h : NearestBits p n r) : NearestBits p (-n) (-r) where
  fits := h.fits.neg
  nearest s hs := by have := h.nearest (-s) hs.neg; omega
  even s hs hsr hd := by
    obtain ⟨m, e, hm⟩ := h.even (-s) hs.neg (by omega) (by omega)
    exact ⟨m, e, by rwa [Int.natAbs_neg]⟩

/-- A number that fits is its own rounding. -/
theorem eq_self (h : NearestBits p n r) (hn : FitsBits p n) : r = n := by
  have := h.nearest n hn
  omega

theorem self (hn : FitsBits p n) : NearestBits p n n where
  fits := hn
  nearest s _ := by omega
  even s _ hsn hd := by omega

/-- No number that fits lies between a number and its rounding. -/
theorem not_between (h : NearestBits p n r) (ht : FitsBits p t) :
    ¬ (r < t ∧ t ≤ n) ∧ ¬ (n ≤ t ∧ t < r) := by
  have := h.nearest t ht
  omega

/-- The lower end of an interval of the grid, for a number in its lower half. -/
theorem of_lower (hp : 0 < p) (hm : 2 ^ (p - 1) ≤ m) (hm' : m < 2 ^ p) {n : Nat}
    (hn : m * 2 ^ e ≤ n) (hhalf : 2 * n ≤ 2 * (m * 2 ^ e) + 2 ^ e)
    (htie : 2 * n = 2 * (m * 2 ^ e) + 2 ^ e → m % 2 = 0) :
    NearestBits p n (m * 2 ^ e : Nat) := by
  have hend : (m + 1) * 2 ^ e = m * 2 ^ e + 2 ^ e := Nat.succ_mul _ _
  refine ⟨.of_le hp (by omega), fun s hs => ?_, fun s hs hsr hd => ?_⟩
  · rcases Int.lt_or_le (m * 2 ^ e : Nat) s with h | h
    · have := hs.next_le hp hm h
      omega
    · omega
  · rcases Int.lt_or_le (m * 2 ^ e : Nat) s with h | h
    · have := hs.next_le hp hm h
      exact ⟨m, e, hm, hm', htie (by omega), Int.natAbs_natCast _⟩
    · omega

/-- The upper end of an interval of the grid, for a number in its upper half. -/
theorem of_upper (hp : 2 ≤ p) (hm : 2 ^ (p - 1) ≤ m) (hm' : m < 2 ^ p) {n : Nat}
    (hn : n ≤ (m + 1) * 2 ^ e) (hhalf : 2 * (m * 2 ^ e) + 2 ^ e ≤ 2 * n)
    (htie : 2 * n = 2 * (m * 2 ^ e) + 2 ^ e → m % 2 = 1) :
    NearestBits p n ((m + 1) * 2 ^ e : Nat) := by
  have hend : (m + 1) * 2 ^ e = m * 2 ^ e + 2 ^ e := Nat.succ_mul _ _
  refine ⟨.of_le (by omega) hm', fun s hs => ?_, fun s hs hsr hd => ?_⟩
  · rcases Int.lt_or_le (m * 2 ^ e : Nat) s with h | h
    · have := hs.next_le (by omega) hm h
      omega
    · omega
  · rcases Int.lt_or_le (m * 2 ^ e : Nat) s with h | h
    · have := hs.next_le (by omega) hm h
      omega
    · have hodd : m % 2 = 1 := htie (by omega)
      rcases Nat.lt_or_eq_of_le hm' with hlt | htop
      · exact ⟨m + 1, e, by omega, hlt, by omega, Int.natAbs_natCast _⟩
      · -- the next significand is a power of two, which is written with one more in the exponent
        obtain ⟨b, rfl⟩ : ∃ b, p = b + 2 := ⟨p - 2, by omega⟩
        have htop' : m + 1 = 2 ^ (b + 1) * 2 := by rw [← Nat.pow_succ, ← htop]
        exact ⟨2 ^ (b + 1), e + 1, Nat.le_refl _,
          Nat.pow_lt_pow_right (by decide) (by omega), by rw [Nat.pow_succ]; omega, by
            rw [Int.natAbs_natCast, htop', Nat.pow_succ 2 e, Nat.mul_assoc, Nat.mul_comm 2]⟩

end NearestBits

/-! ### The computed rounding -/

/-- A number of at least `p` bits lies in an interval of the grid, and is rounded to the end that is
nearer. -/
theorem roundToBits_cases {n : Nat} (hp : 0 < p) (hn : p ≤ n.log2) :
    ∃ m e, 2 ^ (p - 1) ≤ m ∧ m < 2 ^ p ∧ m * 2 ^ e ≤ n ∧ n < (m + 1) * 2 ^ e ∧
      ((roundToBits p n = m * 2 ^ e ∧ 2 * n ≤ 2 * (m * 2 ^ e) + 2 ^ e ∧
          (2 * n = 2 * (m * 2 ^ e) + 2 ^ e → m % 2 = 0)) ∨
        (roundToBits p n = (m + 1) * 2 ^ e ∧ 2 * (m * 2 ^ e) + 2 ^ e ≤ 2 * n ∧
          (2 * n = 2 * (m * 2 ^ e) + 2 ^ e → m % 2 = 1))) := by
  have h0 : n ≠ 0 := by rintro rfl; simp at hn; omega
  have hlow := Nat.log2_self_le h0
  have hhigh := Nat.lt_log2_self (n := n)
  have hdiv := Nat.div_add_mod n (2 ^ (n.log2 + 1 - p))
  have hmod := Nat.mod_lt n (Nat.two_pow_pos (n.log2 + 1 - p))
  rw [Nat.mul_comm] at hdiv
  simp only [roundToBits, show ∀ a, Nat.pow 2 a = 2 ^ a from fun _ => rfl]
  generalize hk : n.log2 = k at *
  generalize he : k + 1 - p = e at *
  generalize hm : n / 2 ^ e = m at *
  have hend : (m + 1) * 2 ^ e = m * 2 ^ e + 2 ^ e := Nat.succ_mul _ _
  refine ⟨m, e, ?_, ?_, by omega, by omega, ?_⟩
  · rw [← hm, Nat.le_div_iff_mul_le (Nat.two_pow_pos e), ← Nat.pow_add]
    rwa [show p - 1 + e = k by omega]
  · rw [← hm, Nat.div_lt_iff_lt_mul (Nat.two_pow_pos e), ← Nat.pow_add]
    rwa [show p + e = k + 1 by omega]
  · split
    · exact .inr ⟨rfl, by omega, by omega⟩
    · exact .inl ⟨rfl, by omega, by omega⟩

theorem nearestBits_roundToBits (hp : 2 ≤ p) (n : Nat) : NearestBits p n (roundToBits p n) := by
  rcases Nat.lt_or_ge n.log2 p with h | h
  · rw [roundToBits_of_log2_lt h]
    refine .self (.of_natAbs_le (by omega) ?_)
    rw [Int.natAbs_natCast]
    exact Nat.le_of_lt (Nat.lt_of_lt_of_le Nat.lt_log2_self (Nat.pow_le_pow_right (by decide) h))
  · obtain ⟨m, e, hm, hm', hlow, hhigh, h | h⟩ := roundToBits_cases (by omega) h
    · rw [h.1]
      exact .of_lower (by omega) hm hm' hlow h.2.1 h.2.2
    · rw [h.1]
      exact .of_upper hp hm hm' (by omega) h.2.1 h.2.2

/-- Rounding an integer gives the nearest number of `p` bits. -/
theorem nearestBits_roundIntToBits (hp : 2 ≤ p) (n : Int) :
    NearestBits p n (roundIntToBits p n) := by
  rcases Int.lt_trichotomy n 0 with h | rfl | h
  · have := (nearestBits_roundToBits hp n.natAbs).neg
    rw [roundIntToBits, Int.sign_eq_neg_one_of_neg h, Int.neg_one_mul]
    rwa [Int.ofNat_natAbs_of_nonpos (by omega), Int.neg_neg] at this
  · simpa [roundIntToBits] using NearestBits.self (.zero p)
  · have := nearestBits_roundToBits hp n.natAbs
    rw [roundIntToBits, Int.sign_eq_one_of_pos h, Int.one_mul]
    rwa [Int.natAbs_of_nonneg (by omega)] at this

/-! ### Rounding twice -/

/-- Two numbers of `q` bits with none between them differ by one, or the number halfway between
them has one more bit. -/
theorem FitsBits.exists_middle (hq : 0 < q) (hr : FitsBits q r) (ht : FitsBits q t) (hrt : r < t)
    (hgap : ∀ u, FitsBits q u → ¬ (r < u ∧ u < t)) :
    t = r + 1 ∨ ∃ c, FitsBits (q + 1) c ∧ 2 * c = r + t := by
  have hzero := hgap 0 (.zero q)
  -- both have one sign, so that only numbers from zero on are left
  wlog h0 : 0 ≤ r generalizing r t
  · have := this ht.neg hr.neg (by omega) (fun u hu h => hgap (-u) hu.neg (by omega)) (by omega)
      (by omega)
    rcases this with h | ⟨c, hc, h⟩
    · exact .inl (by omega)
    · exact .inr ⟨-c, hc.neg, by omega⟩
  obtain ⟨a, rfl⟩ := Int.eq_ofNat_of_zero_le h0
  rcases Nat.lt_or_ge a (2 ^ (q - 1)) with ha | ha
  · -- all numbers up to here fit
    have := hgap (a + 1) (.of_natAbs_le hq (by
      have : 2 ^ (q - 1) ≤ 2 ^ q := Nat.pow_le_pow_right (by decide) (by omega)
      omega))
    exact .inl (by omega)
  · obtain ⟨m, e, hm, hm', hme⟩ := hr.exists_normal hq (by simpa using ha)
    rw [Int.natAbs_natCast] at hme
    subst hme
    have hend : (m + 1) * 2 ^ e = m * 2 ^ e + 2 ^ e := Nat.succ_mul _ _
    have hpos := Nat.two_pow_pos e
    have hnext := ht.next_le hq hm hrt
    have := hgap ((m + 1) * 2 ^ e : Nat) (.of_le hq hm')
    cases e with
    | zero => exact .inl (by simp at *; omega)
    | succ e =>
      refine .inr ⟨((2 * m + 1) * 2 ^ e : Nat), ⟨2 * m + 1, e, ?_, Int.natAbs_natCast _⟩, ?_⟩
      · rw [Nat.pow_succ]; omega
      · have : (2 * m + 1) * 2 ^ e = m * 2 ^ (e + 1) + 2 ^ e := by
          rw [Nat.succ_mul, Nat.pow_succ, Nat.mul_comm 2 m, Nat.mul_assoc, Nat.mul_comm 2]
        have := Nat.pow_succ 2 e
        omega

/-- Rounding `x` to the number `r` of `q` bits breaks a tie against `n`: `x` is halfway between `r`
and another number `s` of `q` bits, and `n` lies on the side of `s`. -/
def BreaksTieAgainst (q : Nat) (n x r : Int) : Prop :=
  ∃ s, FitsBits q s ∧ 2 * x = r + s ∧ (r < x ∧ x < n ∨ n < x ∧ x < r)

theorem BreaksTieAgainst.neg (h : BreaksTieAgainst q n x r) :
    BreaksTieAgainst q (-n) (-x) (-r) := by
  obtain ⟨s, hs, hx, hn⟩ := h
  exact ⟨-s, hs.neg, by omega, by omega⟩

namespace NearestBits

/-- If a number of `q` bits is nearer to `n` than the one found in two steps, the second step broke
a tie against `n`. -/
theorem breaksTie_of_nearer (hq : 2 ≤ q) (hqp : q < p) (hx : NearestBits p n x)
    (hr : NearestBits q x r) (ht : FitsBits q t) (hlt : (n - t).natAbs < (n - r).natAbs) :
    BreaksTieAgainst q n x r := by
  -- the nearest number to `n` has no other one between it and `r`
  have hs := nearestBits_roundIntToBits hq n
  generalize roundIntToBits q n = s at hs
  have hsn := hs.nearest t ht
  wlog hrs : r < s generalizing n x r s t
  · have := this hx.neg hr.neg ht.neg (by omega) (-s) hs.neg (by omega) (by omega)
    simpa using this.neg
  have hxr := hr.nearest s hs.fits
  have hgap : ∀ u, FitsBits q u → ¬ (r < u ∧ u < s) := fun u hu h => by
    have h1 := hs.nearest u hu
    have h2 := hr.nearest u hu
    have h3 := hx.not_between (hu.mono (by omega))
    omega
  have hr3 := hx.not_between (hr.fits.mono (by omega : q ≤ p))
  have hs3 := hx.not_between (hs.fits.mono (by omega : q ≤ p))
  rcases hr.fits.exists_middle (by omega) hs.fits hrs hgap with h | ⟨c, hc, h⟩
  · omega
  · have hc3 := hx.not_between (hc.mono hqp)
    exact ⟨s, hs.fits, by omega, .inl (by omega)⟩

/-- A tie between two numbers of `q` bits is seen by a rounding to more bits. -/
theorem eq_of_tie (hq : 0 < q) (hqp : q < p) (hx : NearestBits p n x) (hr : FitsBits q r)
    (hnearest : ∀ u, FitsBits q u → (n - r).natAbs ≤ (n - u).natAbs) (hs : FitsBits q s)
    (hsr : s ≠ r) (htie : (n - s).natAbs = (n - r).natAbs) : x = n := by
  wlog hrs : r < s generalizing n x r s
  · have := this hx.neg hr.neg (fun u hu => by have := hnearest (-u) hu.neg; omega) hs.neg
      (by omega) (by omega) (by omega)
    omega
  have hgap : ∀ u, FitsBits q u → ¬ (r < u ∧ u < s) := fun u hu h => by
    have := hnearest u hu
    omega
  rcases hr.exists_middle hq hs hrs hgap with h | ⟨c, hc, h⟩
  · omega
  · have hcn : c = n := by omega
    exact hx.eq_self (hcn ▸ hc.mono hqp)

/-- Two roundings in a row give the nearest number, except where the second one breaks a tie
against the number that was rounded. -/
theorem twice_iff (hq : 2 ≤ q) (hqp : q < p) (hx : NearestBits p n x) (hr : NearestBits q x r) :
    NearestBits q n r ↔ ¬ BreaksTieAgainst q n x r := by
  constructor
  · rintro h ⟨s, hs, hmid, hside⟩
    have := h.nearest s hs
    omega
  · intro h
    have hnearest : ∀ t, FitsBits q t → (n - r).natAbs ≤ (n - t).natAbs := fun t ht =>
      Nat.le_of_not_lt fun hlt => h (hx.breaksTie_of_nearer hq hqp hr ht hlt)
    refine ⟨hr.fits, hnearest, fun s hs hsr htie => ?_⟩
    have hxn : x = n := hx.eq_of_tie (by omega) hqp hr.fits hnearest hs hsr htie
    subst hxn
    exact hr.even s hs hsr htie

end NearestBits

end FieldPath
