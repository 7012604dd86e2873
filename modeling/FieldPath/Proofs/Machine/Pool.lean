import FieldPath.Machine.ConstantPool
import Mathlib.Data.List.Perm.Subperm

/-!
# Pools that grow

A pool keeps its constants in order and an index of where each one stands.  The two agree in every
pool that additions make, so the index that an addition answers denotes the constant that was
added, and goes on to do so however many constants follow.

Two pools are compared in two ways: by the places of their constants, or only by which constants
they have.  An addition to both keeps either comparison.

## Main definitions

* `ConstantPool.Made` — the pools that additions make.
* `ConstantPool.Lawful` — constants and index agree.
* `ConstantPool.Within` — all constants of a pool stand at the same places in another.
* `ConstantPool.Grows` — a pool comes out of another by additions.
* `ConstantPool.Has` — a constant is in a pool, at whatever place.

## Main results

* `ConstantPool.Made.lawful` — **constants and index agree in every pool that is made.**
* `ConstantPool.get?_add` — an addition answers where the constant is.
* `ConstantPool.within_add` — an addition moves no constant.
* `ConstantPool.Within.add` — the same addition to a pool and to one that has got further.
* `ConstantPool.Lawful.nodup_constants` — no constant is there twice.
* `ConstantPool.size_le_of_has` — a pool with fewer constants is smaller.
-/

namespace FieldPath

namespace ConstantPool

/-- The pools that additions make out of the empty one. -/
inductive Made : ConstantPool → Prop where
  /-- No constants. -/
  | empty : Made ConstantPool.empty
  /-- One more addition. -/
  | add {p : ConstantPool} (c : Constant) : Made p → Made (p.add c).2

/-- A constant is indexed at a place exactly when it stands there. -/
def Lawful (p : ConstantPool) : Prop := ∀ c i, p.index[c]? = some i ↔ p.get? i = some c

/-- Every constant of `p` stands at its place in `q` as well. -/
def Within (p q : ConstantPool) : Prop := ∀ i c, p.get? i = some c → q.get? i = some c

variable {p q r : ConstantPool}

theorem Within.refl (p : ConstantPool) : p.Within p := fun _ _ h => h

theorem Within.trans (hpq : p.Within q) (hqr : q.Within r) : p.Within r :=
  fun i c h => hqr i c (hpq i c h)

theorem lawful_empty : empty.Lawful := by
  intro c i
  simp [empty, get?]

/-- A constant that is added is found at the index that is answered. -/
theorem get?_add (hp : p.Lawful) (c : Constant) : (p.add c).2.get? (p.add c).1 = some c := by
  unfold add
  split
  · next i hi => exact (hp c i).mp hi
  · simp [get?, size]

/-- An addition moves no constant. -/
theorem within_add (p : ConstantPool) (c : Constant) : p.Within (p.add c).2 := by
  intro i d hd
  unfold add
  split
  · exact hd
  · have hlt : i < p.constants.size := (Array.getElem?_eq_some_iff.mp hd).1
    simp only [get?, Array.getElem?_push_lt hlt]
    rw [← Array.getElem?_eq_getElem hlt]
    exact hd

theorem Lawful.add (hp : p.Lawful) (c : Constant) : (p.add c).2.Lawful := by
  unfold ConstantPool.add
  split
  · exact hp
  · next hnew =>
    intro d i
    have hold := hp d i
    simp only [get?, Std.HashMap.getElem?_insert, Array.getElem?_push, beq_iff_eq] at hold ⊢
    by_cases hcd : c = d
    · -- the new constant stands at the end only, since it was not indexed before
      subst hcd
      rw [if_pos rfl]
      rw [hnew] at hold
      simp only [reduceCtorEq, false_iff] at hold
      by_cases hi : i = p.constants.size
      · simp [hi, size]
      · rw [if_neg hi]
        simp only [Option.some.injEq, size]
        exact ⟨fun h => absurd h.symm hi, fun h => absurd h hold⟩
    · rw [if_neg hcd, hold]
      by_cases hi : i = p.constants.size
      · simp [hi, hcd]
      · rw [if_neg hi]

/-- **Constants and index agree in every pool that is made.** -/
theorem Made.lawful (h : p.Made) : p.Lawful := by
  induction h with
  | empty => exact lawful_empty
  | add c _ ih => exact ih.add c

/-- The second pool comes out of the first one by additions. -/
inductive Grows (p : ConstantPool) : ConstantPool → Prop where
  /-- Nothing is added. -/
  | refl : Grows p p
  /-- One more addition. -/
  | add {q : ConstantPool} (c : Constant) : Grows p q → Grows p (q.add c).2

theorem Grows.trans (hpq : p.Grows q) (hqr : q.Grows r) : p.Grows r := by
  induction hqr with
  | refl => exact hpq
  | add c _ ih => exact ih.add c

theorem Grows.within (h : p.Grows q) : p.Within q := by
  induction h with
  | refl => exact .refl p
  | add c _ ih => exact ih.trans (within_add _ c)

theorem Grows.lawful (h : p.Grows q) (hp : p.Lawful) : q.Lawful := by
  induction h with
  | refl => exact hp
  | add c _ ih => exact ih.add c

/-! ### Places -/

/-- A constant stands at one place only. -/
theorem Lawful.eq_of_get? (hp : p.Lawful) {c : Constant} {i j : Nat} (hi : p.get? i = some c)
    (hj : p.get? j = some c) : i = j := by
  have hi' := (hp c i).mpr hi
  rw [(hp c j).mpr hj] at hi'
  exact (Option.some.inj hi').symm

theorem Lawful.add_of_get? (hp : p.Lawful) {c : Constant} {i : Nat} (h : p.get? i = some c) :
    p.add c = (i, p) := by
  rw [ConstantPool.add, (hp c i).mpr h]

/-- A new constant comes last. -/
theorem Lawful.add_of_new (hp : p.Lawful) {c : Constant} (h : ∀ i, p.get? i ≠ some c) :
    (p.add c).1 = p.size ∧ (p.add c).2.constants = p.constants.push c := by
  have hnone : p.index[c]? = none := by
    rw [Option.eq_none_iff_forall_ne_some]
    intro i hi
    exact h i ((hp c i).mp hi)
  simp [ConstantPool.add, hnone]

/-- After an addition there is what was there, and the constant at the index that was answered. -/
theorem Lawful.get?_add_iff (hp : p.Lawful) {c d : Constant} {i : Nat} :
    (p.add c).2.get? i = some d ↔ p.get? i = some d ∨ (i = (p.add c).1 ∧ d = c) := by
  by_cases hold : ∃ j, p.get? j = some c
  · obtain ⟨j, hj⟩ := hold
    rw [hp.add_of_get? hj]
    constructor
    · exact Or.inl
    · rintro (h | ⟨rfl, rfl⟩)
      · exact h
      · exact hj
  · obtain ⟨hlast, hpush⟩ := hp.add_of_new fun j hj => hold ⟨j, hj⟩
    rw [hlast, get?, hpush, Array.getElem?_push]
    by_cases hi : i = p.size
    · have hnone : p.get? p.size = none := Array.getElem?_eq_none (Nat.le_refl _)
      have hsize : p.size = p.constants.size := rfl
      rw [hi, hnone, if_pos hsize]
      simp [eq_comm]
    · have hi' : i ≠ p.constants.size := hi
      simp [hi, hi', get?]

theorem lt_size_of_get? {i : Nat} {c : Constant} (h : p.get? i = some c) : i < p.size :=
  (Array.getElem?_eq_some_iff.mp h).1

theorem exists_get?_of_lt_size {i : Nat} (h : i < p.size) : ∃ c, p.get? i = some c :=
  ⟨p.constants[i], Array.getElem?_eq_getElem h⟩

theorem Lawful.add_lt_size (hp : p.Lawful) (c : Constant) : (p.add c).1 < (p.add c).2.size :=
  lt_size_of_get? (get?_add hp c)

theorem Within.size_le (h : p.Within q) : p.size ≤ q.size := by
  by_contra hlt
  obtain ⟨c, hc⟩ := exists_get?_of_lt_size (Nat.not_le.mp hlt)
  exact Nat.lt_irrefl _ (lt_size_of_get? (h _ c hc))

/-- Pools that are within each other have the same constants, in the same order. -/
theorem Within.antisymm (hpq : p.Within q) (hqp : q.Within p) : p.constants = q.constants := by
  have hsize : p.size = q.size := Nat.le_antisymm hpq.size_le hqp.size_le
  refine Array.ext hsize fun i hi hi' => ?_
  have h := hpq i p.constants[i] (Array.getElem?_eq_getElem hi)
  rw [get?, Array.getElem?_eq_getElem hi'] at h
  exact (Option.some.inj h).symm

/-- **The same addition to a pool and to one that has got further** answers the same index, as long
as both stay on the way to a third pool. -/
theorem Within.add (hp : p.Lawful) (hq : q.Lawful) (hr : r.Lawful) (hpq : p.Within q)
    (hqr : q.Within r) {c : Constant} (hadd : (p.add c).2.Within r) :
    (q.add c).1 = (p.add c).1 ∧ (p.add c).2.Within (q.add c).2 ∧ (q.add c).2.Within r := by
  have hplace : r.get? (p.add c).1 = some c := hadd _ c (get?_add hp c)
  have hindex : (q.add c).1 = (p.add c).1 := by
    by_cases hold : ∃ i, q.get? i = some c
    · -- the third pool has the constant at one place, so it stands there in the second one
      obtain ⟨i, hi⟩ := hold
      rw [hq.add_of_get? hi]
      exact hr.eq_of_get? (hqr i c hi) hplace
    · have hlastq := (hq.add_of_new fun i hi => hold ⟨i, hi⟩).1
      have hlastp := (hp.add_of_new fun i hi => hold ⟨i, hpq i c hi⟩).1
      -- had the second pool got further, it would have the constant at the end of the first
      have hle : q.size ≤ p.size := by
        refine Nat.not_lt.mp fun hlt => ?_
        obtain ⟨d, hd⟩ := exists_get?_of_lt_size hlt
        have hd' := hqr _ d hd
        rw [← hlastp, hplace] at hd'
        exact hold ⟨_, hd.trans hd'.symm⟩
      rw [hlastq, hlastp]
      exact Nat.le_antisymm hle hpq.size_le
  refine ⟨hindex, fun i d hd => ?_, fun i d hd => ?_⟩
  · rw [hq.get?_add_iff, hindex]
    exact (hp.get?_add_iff.mp hd).imp_left (hpq i d)
  · rcases hq.get?_add_iff.mp hd with h | ⟨rfl, rfl⟩
    · exact hqr i d h
    · rw [hindex]
      exact hplace

theorem size_add_le (p : ConstantPool) (c : Constant) : (p.add c).2.size ≤ p.size + 1 := by
  unfold add
  split
  · exact Nat.le_succ _
  · simp [size]

/-! ### Contents -/

/-- The constant is in the pool. -/
def Has (p : ConstantPool) (c : Constant) : Prop := ∃ i, p.get? i = some c

theorem has_iff_mem {c : Constant} : p.Has c ↔ c ∈ p.constants.toList := by
  simp only [Has, get?, List.mem_iff_getElem?, Array.getElem?_toList]

/-- No constant is there twice. -/
theorem Lawful.nodup_constants (hp : p.Lawful) : p.constants.toList.Nodup := by
  refine List.pairwise_iff_getElem.mpr fun i j hi hj hlt heq => ?_
  have hget : ∀ k (hk : k < p.constants.toList.length),
      p.get? k = some p.constants.toList[k] := by
    intro k hk
    rw [get?, ← Array.getElem?_toList, List.getElem?_eq_getElem hk]
  exact Nat.ne_of_lt hlt (hp.eq_of_get? (hget i hi) (heq ▸ hget j hj))

theorem Lawful.has_add (hp : p.Lawful) {c d : Constant} :
    (p.add c).2.Has d ↔ p.Has d ∨ d = c := by
  simp only [Has, hp.get?_add_iff, exists_or, exists_and_right, exists_eq, true_and]

/-- A pool keeps having the constants of another one when the same constant is added to both. -/
theorem has_add_of_has (hp : p.Lawful) (hq : q.Lawful) (h : ∀ d, q.Has d → p.Has d)
    (c : Constant) : ∀ d, (q.add c).2.Has d → (p.add c).2.Has d := by
  intro d hd
  rw [hp.has_add]
  exact (hq.has_add.mp hd).imp_left (h d)

/-- A pool with fewer constants is smaller, wherever they stand. -/
theorem size_le_of_has (hp : p.Lawful) (h : ∀ c, p.Has c → q.Has c) : p.size ≤ q.size := by
  have hsub : p.constants.toList ⊆ q.constants.toList := fun c hc => by
    rw [← has_iff_mem] at hc ⊢
    exact h c hc
  exact hp.nodup_constants.length_le_of_subset hsub

end ConstantPool

end FieldPath
