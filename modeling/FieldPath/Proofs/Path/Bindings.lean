import FieldPath.Path.Bindings

/-!
# Slots of bindings

Every declaration takes slots that were never given out, so the slots of two names never overlap,
whatever was declared again in between.

## Main definitions

* `Bindings.Declared` — the tables that declarations make.
* `Bindings.Apart` — the slots of the bindings are below the count and do not overlap.

## Main results

* `Bindings.Declared.apart` — **the slots of different names do not overlap.**
-/

namespace FieldPath

/-- The slots after those of a binding. -/
def Binding.stop (b : Binding) : Nat := b.slot + b.ty.width

namespace Bindings

/-- The tables that declarations make, with any names again. -/
inductive Declared : Bindings → Prop where
  /-- No names. -/
  | empty : Declared Bindings.empty
  /-- One more declaration. -/
  | declare {b : Bindings} (name : String) (ty : Ty) : Declared b → Declared (b.declare name ty)

/-- The slots of the bindings have been given out, and those of two names do not overlap. -/
structure Apart (b : Bindings) : Prop where
  /-- The slots of a binding have been given out. -/
  below : ∀ name x, b.lookup name = some x → x.stop ≤ b.slotCount
  /-- The slots of two names do not overlap. -/
  apart : ∀ name other x y, name ≠ other → b.lookup name = some x → b.lookup other = some y →
    x.stop ≤ y.slot ∨ y.stop ≤ x.slot

theorem Apart.declare {b : Bindings} (h : b.Apart) (name : String) (ty : Ty) :
    (b.declare name ty).Apart := by
  refine ⟨fun n x hx => ?_, fun n m x y hne hx hy => ?_⟩
  · rw [lookup_declare] at hx
    rw [slotCount_declare]
    split at hx
    · rw [← Option.some.inj hx]
      exact Nat.le_refl _
    · exact Nat.le_add_right_of_le (h.below n x hx)
  · rw [lookup_declare] at hx hy
    split at hx
    · next hn =>
      rw [if_neg (fun hm => hne (hn.symm.trans hm))] at hy
      rw [← Option.some.inj hx]
      exact Or.inr (h.below m y hy)
    · split at hy
      · rw [← Option.some.inj hy]
        exact Or.inl (h.below n x hx)
      · exact h.apart n m x y hne hx hy

/-- **The slots of different names do not overlap.** -/
theorem Declared.apart {b : Bindings} (h : b.Declared) : b.Apart := by
  induction h with
  | empty => exact ⟨by simp, by simp⟩
  | declare name ty _ ih => exact ih.declare name ty

end Bindings

end FieldPath
