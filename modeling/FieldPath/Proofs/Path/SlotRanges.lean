import FieldPath.Proofs.Path.Bindings
import Mathlib.Algebra.Ring.Nat
import Mathlib.Data.List.Basic

/-!
# Slots over a run of declarations

Each declaration of a run is given a range of slots, and the table keeps the latest one of each
name.  The ranges follow each other without a gap, so what is given to one declaration is given to
no other, not even after its name is declared again: code that was emitted for the old binding
shares no slot with code for any later one.

## Main definitions

* `Binding.slots` — the slots of a binding.
* `Bindings.given` — what the declarations of a run are given, in order.

## Main results

* `Bindings.lookup_declareAll` — a name has what its latest declaration was given.
* `Bindings.pairwise_given` — what is given later lies above what is given earlier.
* `slots_apart` — **no two declarations of a run share a slot.**
-/

namespace FieldPath

namespace Binding

/-- The slots of a binding, from its first one on as many as its type is wide. -/
def slots (x : Binding) : List Nat := List.range' x.slot x.ty.width

@[simp] theorem mem_slots {x : Binding} {s : Nat} : s ∈ x.slots ↔ x.slot ≤ s ∧ s < x.stop :=
  List.mem_range'_1

theorem disjoint_slots {x y : Binding} (h : x.stop ≤ y.slot ∨ y.stop ≤ x.slot) :
    x.slots.Disjoint y.slots := by
  intro s hx hy
  rw [mem_slots] at hx hy
  omega

end Binding

namespace Bindings

/-- The table after some declarations, in order. -/
def declareAll (b : Bindings) (decls : List (String × Ty)) : Bindings :=
  decls.foldl (fun b d => b.declare d.1 d.2) b

/-- What the declarations are given: each one the next slots that were never given out. -/
def given : Bindings → List (String × Ty) → List Binding
  | _, [] => []
  | b, d :: rest => ⟨d.1, d.2, b.slotCount⟩ :: given (b.declare d.1 d.2) rest

variable {b : Bindings} {decls : List (String × Ty)}

@[simp] theorem declareAll_nil (b : Bindings) : b.declareAll [] = b := rfl

@[simp] theorem declareAll_cons (b : Bindings) (d : String × Ty) (decls : List (String × Ty)) :
    b.declareAll (d :: decls) = (b.declare d.1 d.2).declareAll decls := rfl

theorem Declared.declareAll (h : b.Declared) (decls : List (String × Ty)) :
    (b.declareAll decls).Declared := by
  induction decls generalizing b with
  | nil => exact h
  | cons d decls ih => exact ih (h.declare d.1 d.2)

/-- The count grows by the widths that are declared. -/
theorem slotCount_declareAll (b : Bindings) (decls : List (String × Ty)) :
    (b.declareAll decls).slotCount = b.slotCount + (decls.map (·.2.width)).sum := by
  induction decls generalizing b with
  | nil => rfl
  | cons d decls ih =>
    rw [declareAll_cons, ih, slotCount_declare, List.map_cons, List.sum_cons, Nat.add_assoc]

/-! ### What is given -/

/-- Every declaration is given a binding of its name and type. -/
theorem map_given (b : Bindings) (decls : List (String × Ty)) :
    (b.given decls).map (fun x => (x.name, x.ty)) = decls := by
  induction decls generalizing b with
  | nil => rfl
  | cons d decls ih => rw [given, List.map_cons, ih]

/-- What a declaration is given is what its name stands for right after it. -/
theorem given_getElem? (b : Bindings) (decls : List (String × Ty)) {i : Nat} {d : String × Ty}
    (hd : decls[i]? = some d) :
    (b.given decls)[i]? = (b.declareAll (decls.take (i + 1))).lookup d.1 := by
  induction decls generalizing b i with
  | nil => simp at hd
  | cons e decls ih =>
    cases i with
    | zero =>
      obtain rfl : e = d := by simpa using hd
      simp [given, lookup_declare]
    | succ i =>
      rw [given, List.getElem?_cons_succ, List.take_succ_cons, declareAll_cons]
      exact ih _ (by simpa using hd)

/-- **A name has what its latest declaration was given.**  One that is not declared in the run has
what it had before. -/
theorem lookup_declareAll (b : Bindings) (decls : List (String × Ty)) (name : String) :
    (b.declareAll decls).lookup name =
      ((b.given decls).reverse.find? (·.name == name)).or (b.lookup name) := by
  induction decls generalizing b with
  | nil => rfl
  | cons d decls ih =>
    rw [declareAll_cons, ih, given, List.reverse_cons, List.find?_append, Option.or_assoc,
      lookup_declare]
    congr 1
    by_cases hname : d.1 = name <;> simp [hname]

/-- What is given lies between the count before the run and the count after it. -/
theorem bounds_of_mem_given {x : Binding} (hx : x ∈ b.given decls) :
    b.slotCount ≤ x.slot ∧ x.stop ≤ (b.declareAll decls).slotCount := by
  induction decls generalizing b with
  | nil => exact absurd hx List.not_mem_nil
  | cons d decls ih =>
    rw [declareAll_cons]
    rcases List.mem_cons.mp hx with rfl | hx
    · refine ⟨Nat.le_refl _, ?_⟩
      rw [slotCount_declareAll]
      exact Nat.le_add_right _ _
    · obtain ⟨hslot, hstop⟩ := ih hx
      rw [slotCount_declare] at hslot
      exact ⟨Nat.le_of_add_right_le hslot, hstop⟩

/-- **What is given later lies above what is given earlier.** -/
theorem pairwise_given (b : Bindings) (decls : List (String × Ty)) :
    (b.given decls).Pairwise fun x y => x.stop ≤ y.slot := by
  induction decls generalizing b with
  | nil => exact .nil
  | cons d decls ih => exact .cons (fun y hy => (bounds_of_mem_given hy).1) (ih _)

end Bindings

/-- **No two declarations of a run share a slot.**  Whatever is declared, names again included, with
the same type or another: each declaration is given a binding of its name and type, which the name
stands for right after it; in the end every name stands for what its latest declaration was given;
the count is the sum of all widths that were declared, and everything that was given lies below it;
what two declarations were given has no slot in common, also if one has replaced the other; and so
neither have the bindings of two names of the table. -/
theorem slots_apart (decls : List (String × Ty)) :
    let b := Bindings.ofList decls
    let given := Bindings.empty.given decls
    given.map (fun x => (x.name, x.ty)) = decls ∧
    (∀ i d, decls[i]? = some d →
      given[i]? = (Bindings.ofList (decls.take (i + 1))).lookup d.1) ∧
    (∀ name, b.lookup name = given.reverse.find? (·.name == name)) ∧
    b.slotCount = (decls.map (·.2.width)).sum ∧
    (∀ x ∈ given, ∀ s ∈ x.slots, s < b.slotCount) ∧
    given.Pairwise (fun x y => x.slots.Disjoint y.slots) ∧
    (∀ name other x y, name ≠ other → b.lookup name = some x → b.lookup other = some y →
      x.slots.Disjoint y.slots) := by
  intro b given
  have hapart : b.Apart := (Bindings.Declared.empty.declareAll decls).apart
  refine ⟨Bindings.map_given _ _, fun i d hd => Bindings.given_getElem? _ _ hd, fun name => ?_, ?_,
    fun x hx s hs => ?_, ?_, fun name other x y hne hx hy => ?_⟩
  · show (Bindings.empty.declareAll decls).lookup name = _
    rw [Bindings.lookup_declareAll, Bindings.lookup_empty, Option.or_none]
  · show (Bindings.empty.declareAll decls).slotCount = _
    rw [Bindings.slotCount_declareAll, Bindings.slotCount_empty, Nat.zero_add]
  · exact Nat.lt_of_lt_of_le (Binding.mem_slots.mp hs).2 (Bindings.bounds_of_mem_given hx).2
  · exact (Bindings.pairwise_given _ _).imp fun h => Binding.disjoint_slots (Or.inl h)
  · exact Binding.disjoint_slots (hapart.apart name other x y hne hx hy)

end FieldPath
