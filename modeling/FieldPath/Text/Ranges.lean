/-!
# Ranges of code points

A class of characters is given as a list of inclusive ranges of code points in ascending order.

## Main definitions

* `Ranges` — the list of ranges.
* `Ranges.has` — membership of a code point, by one pass that stops at the first later range.
* `Ranges.Ascending` — each range is a range, and ends before the next one starts.

## Main results

* `Ranges.has_iff` — in ascending ranges the pass finds every code point.
-/

namespace FieldPath

/-- Inclusive ranges of code points, given by their ends. -/
abbrev Ranges := List (Nat × Nat)

namespace Ranges

/-- The code point `n` lies in one of the ranges.  The ranges ascend, so the pass stops at the first
one that starts after `n`. -/
def has : Ranges → Nat → Bool
  | [], _ => false
  | (lo, hi) :: rest, n => if n < lo then false else n ≤ hi || has rest n

/-- Every range is non-empty, lies at or above `floor`, and ends before the next one starts. -/
def ascendsFrom : Nat → Ranges → Bool
  | _, [] => true
  | floor, (lo, hi) :: rest => floor ≤ lo && lo ≤ hi && ascendsFrom (hi + 1) rest

/-- The ranges are disjoint and in ascending order. -/
def Ascending (r : Ranges) : Prop := ascendsFrom 0 r = true

instance (r : Ranges) : Decidable r.Ascending := inferInstanceAs (Decidable (_ = true))

/-- The number of code points in the ranges. -/
def count : Ranges → Nat
  | [] => 0
  | (lo, hi) :: rest => hi + 1 - lo + count rest

/-- Ranges that ascend from a floor start at it or above. -/
theorem le_of_ascendsFrom {r : Ranges} {floor : Nat} (h : ascendsFrom floor r = true) :
    ∀ range ∈ r, floor ≤ range.1 := by
  induction r generalizing floor with
  | nil => simp
  | cons first rest ih =>
    obtain ⟨lo, hi⟩ := first
    simp only [ascendsFrom, Bool.and_eq_true, decide_eq_true_eq] at h
    refine List.forall_mem_cons.mpr ⟨h.1.1, fun range hrange => ?_⟩
    have hrest := ih h.2 range hrange
    omega

theorem has_iff_of_ascendsFrom {r : Ranges} {floor : Nat} (h : ascendsFrom floor r = true)
    (n : Nat) : r.has n = true ↔ ∃ range ∈ r, range.1 ≤ n ∧ n ≤ range.2 := by
  induction r generalizing floor with
  | nil => simp [has]
  | cons first rest ih =>
    obtain ⟨lo, hi⟩ := first
    simp only [ascendsFrom, Bool.and_eq_true, decide_eq_true_eq] at h
    simp only [has, List.mem_cons, exists_eq_or_imp]
    split
    · next hlt =>
      -- what comes later starts later still
      refine iff_of_false Bool.false_ne_true ?_
      rintro (⟨hle, -⟩ | ⟨range, hrange, hle, -⟩)
      · exact Nat.not_le_of_lt hlt hle
      · have hrest := le_of_ascendsFrom h.2 range hrange
        omega
    · next hge =>
      have hle : lo ≤ n := Nat.le_of_not_lt hge
      simp only [Bool.or_eq_true, decide_eq_true_eq, ih h.2, hle, true_and]

/-- **The early stop loses nothing**: a code point is in ascending ranges exactly if it lies between
the ends of one of them. -/
theorem has_iff {r : Ranges} (h : r.Ascending) (n : Nat) :
    r.has n = true ↔ ∃ range ∈ r, range.1 ≤ n ∧ n ≤ range.2 :=
  has_iff_of_ascendsFrom h n

end Ranges

end FieldPath
