import FieldPath.Proofs.Store.Laws

/-!
# Values of types

A value is one of a primitive type when it is of that kind, and one of a class when it is null or a
live object of a class that fits.  What a heap stores in a slot is always a value of the type of
the slot.  It stays one as long as no object is freed, because objects keep their classes.

Once objects may be freed less is left: a reference still is a reference, and a primitive value
still is of its kind.  That is the form of a value.

## Main definitions

* `Ty.Shapes` — a value has the form of a type.
* `Heap.Holds` — a value is one of a type in a heap.
* `Heap.KeepsClasses` — the live objects of a heap live on with their classes.
* `Heap.EverySlot` — every slot of a heap has a property.

## Main results

* `kind?_of_widenTo` — a widened value is of the target kind.
* `Heap.holds_of_fit` — **what is stored for a value is a value of the type.**
* `Heap.EverySlot.setField` and its kin — an operation keeps a property of all slots.
-/

namespace FieldPath

/-! ### Kinds of converted values -/

theorem kind?_of_ofIntWide {n : Int} {k : Kind} {w : Value} (h : Value.ofIntWide n k = some w) :
    w.kind? = some k := by
  cases k <;> simp only [Value.ofIntWide, reduceCtorEq, Option.some.injEq] at h <;> subst h <;> rfl

theorem kind?_of_convert {v w : Value} {k : Kind} (h : v.convert k = some w) :
    w.kind? = some k := by
  unfold Value.convert at h
  split at h
  · rw [Option.some.injEq] at h
    subst h
    rfl
  · obtain ⟨n, -, hn⟩ := Option.bind_eq_some_iff.mp h
    exact kind?_of_ofIntWide hn

/-- A widened value is of the target kind. -/
theorem kind?_of_widenTo {v w : Value} {k : Kind} (h : v.widenTo k = some w) :
    w.kind? = some k := by
  unfold Value.widenTo at h
  split at h
  · simp at h
  · next source hsource =>
    split at h
    · next heq =>
      rw [Option.some.injEq] at h
      rw [← h, hsource, heq]
    · split at h
      · exact kind?_of_convert h
      · simp at h

/-! ### Forms and types of values -/

/-- A value has the form of a type: the kind of a primitive type, or a reference for a class and
for an unknown type.  Nothing has the form of `void`. -/
def Ty.Shapes (t : Ty) (v : Value) : Prop :=
  match t.deref with
  | .primitive k => v.kind? = some k
  | .object _ | .undefined => v.kind? = none
  | _ => False

namespace Heap

/-- A value is one of a type in a heap. -/
def Holds (heap : Heap) (t : Ty) (v : Value) : Prop :=
  match t.deref, v with
  | .primitive k, v => v.kind? = some k
  | .object _, .null => True
  | .undefined, .null => True
  | .object o, .object h => ∃ c, heap.classOf h = some c ∧ o.accepts c = true
  | .undefined, .object h => ∃ c, heap.classOf h = some c
  | _, _ => False

/-- The live objects of `heap` live on in `heap'`, with the same classes. -/
def KeepsClasses (heap heap' : Heap) : Prop :=
  ∀ h c, heap.classOf h = some c → heap'.classOf h = some c

/-- A value of a type has its form. -/
theorem Holds.shapes {heap : Heap} {t : Ty} {v : Value} (h : heap.Holds t v) : t.Shapes v := by
  unfold Holds at h
  unfold Ty.Shapes
  split at h
  · next ht => rw [ht]; exact h
  · next ht => rw [ht]; rfl
  · next ht => rw [ht]; rfl
  · next ht => rw [ht]; rfl
  · next ht => rw [ht]; rfl
  · exact h.elim

/-- Aliases do not matter to the values of a type. -/
theorem holds_congr {heap : Heap} {t u : Ty} {v : Value} (h : t.deref = u.deref) :
    heap.Holds t v ↔ heap.Holds u v := by
  unfold Holds
  rw [h]

/-- A value stays one of its type while objects keep their classes. -/
theorem Holds.mono {heap heap' : Heap} (hk : heap.KeepsClasses heap') {t : Ty} {v : Value}
    (h : heap.Holds t v) : heap'.Holds t v := by
  unfold Holds at h ⊢
  split at h
  · exact h
  · trivial
  · trivial
  · obtain ⟨c, hc, hacc⟩ := h
    exact ⟨c, hk _ c hc, hacc⟩
  · obtain ⟨c, hc⟩ := h
    exact ⟨c, hk _ c hc⟩
  · exact h.elim

/-- **What is stored for a value is a value of the type.** -/
theorem holds_of_fit {heap : Heap} {t : Ty} {v stored : Value} (h : heap.fit t v = some stored) :
    heap.Holds t stored := by
  unfold fit at h
  unfold Holds
  -- one case for each form that is stored: a widened primitive value, null, a checked reference
  split at h
  · next ht => rw [ht]; exact kind?_of_widenTo h
  · next ht => rw [ht, ← Option.some.inj h]; trivial
  · next ht => rw [ht, ← Option.some.inj h]; trivial
  · next o hd ht =>
    split at h
    · next hany =>
      rw [ht, ← Option.some.inj h]
      exact (Option.any_eq_true _ _).mp hany
    · simp at h
  · next hd ht =>
    split at h
    · next hsome =>
      rw [ht, ← Option.some.inj h]
      exact Option.isSome_iff_exists.mp hsome
    · simp at h
  · simp at h

/-! ### Classes are kept -/

theorem keepsClasses_of_eq {heap heap' : Heap} (h : ∀ h, heap'.classOf h = heap.classOf h) :
    heap.KeepsClasses heap' := by
  intro hd c hc
  rw [h, hc]

theorem Tidy.keepsClasses_allocate {heap : Heap} (ht : heap.Tidy) (type : ObjectType) :
    heap.KeepsClasses (heap.allocate type).2 := by
  intro h c hc
  unfold classOf at hc ⊢
  rw [ht.get_allocate]
  split
  · next hh =>
    -- the new handle names a place that held no object
    rw [hh, ht.get_nextPlace rfl] at hc
    simp at hc
  · exact hc

theorem classOf_setField {heap heap' : Heap} {h : Handle} {f : Field} {v : Value}
    (hset : heap.setField h f v = .ok heap') (h' : Handle) :
    heap'.classOf h' = heap.classOf h' := by
  obtain ⟨o, slot, stored, ho, -, -, -, rfl⟩ := setField_eq_ok hset
  exact classOf_replace ho (by rfl) h'

theorem classOf_defineField {heap heap' : Heap} {h : Handle} {f : Field} {t : Ty} {v : Value}
    (hdef : heap.defineField h f t v = .ok heap') (h' : Handle) :
    heap'.classOf h' = heap.classOf h' := by
  obtain ⟨o, stored, ho, -, rfl⟩ := defineField_eq_ok hdef
  exact classOf_replace ho (by rfl) h'

theorem get_setStatic {heap heap' : Heap} {f : Field} {v : Value}
    (hset : heap.setStatic f v = .ok heap') (h : Handle) : heap'.get h = heap.get h := by
  obtain ⟨slot, stored, -, -, -, rfl⟩ := setStatic_eq_ok hset
  rfl

theorem get_defineStatic {heap heap' : Heap} {f : Field} {t : Ty} {v : Value}
    (hdef : heap.defineStatic f t v = .ok heap') (h : Handle) : heap'.get h = heap.get h := by
  obtain ⟨stored, -, rfl⟩ := defineStatic_eq_ok hdef
  rfl

theorem classOf_setStatic {heap heap' : Heap} {f : Field} {v : Value}
    (hset : heap.setStatic f v = .ok heap') (h : Handle) : heap'.classOf h = heap.classOf h := by
  rw [classOf, get_setStatic hset, classOf]

theorem classOf_defineStatic {heap heap' : Heap} {f : Field} {t : Ty} {v : Value}
    (hdef : heap.defineStatic f t v = .ok heap') (h : Handle) :
    heap'.classOf h = heap.classOf h := by
  rw [classOf, get_defineStatic hdef, classOf]

/-! ### Properties of all slots -/

/-- Every slot of a live object and every slot of a class has the property. -/
structure EverySlot (P : Slot → Prop) (heap : Heap) : Prop where
  /-- The slots of live objects. -/
  ofObject : ∀ h o, heap.get h = some o → ∀ s ∈ o.slots, P s
  /-- The slots of classes. -/
  ofClass : ∀ s ∈ heap.statics, P s

namespace EverySlot

variable {P Q : Slot → Prop} {heap heap' : Heap}

theorem empty : EverySlot P Heap.empty :=
  ⟨by intro h o ho; simp [Heap.get, Heap.empty] at ho, by simp [Heap.empty]⟩

theorem mono (hall : EverySlot P heap) (hPQ : ∀ s, P s → Q s) : EverySlot Q heap :=
  ⟨fun h o ho s hs => hPQ s (hall.ofObject h o ho s hs), fun s hs => hPQ s (hall.ofClass s hs)⟩

/-- An object whose slots have the property may be put in place of another. -/
theorem replace (hall : EverySlot P heap) {h : Handle} {old o : HeapObject}
    (hold : heap.get h = some old) (ho : ∀ s ∈ o.slots, P s) : EverySlot P (heap.replace h o) := by
  refine ⟨fun h' o' ho' => ?_, hall.ofClass⟩
  rw [get_replace hold] at ho'
  split at ho'
  · rw [← Option.some.inj ho']
    exact ho
  · exact hall.ofObject h' o' ho'

theorem allocate (hall : EverySlot P heap) (ht : heap.Tidy) (type : ObjectType) :
    EverySlot P (heap.allocate type).2 := by
  refine ⟨fun h o ho => ?_, hall.ofClass⟩
  rw [ht.get_allocate] at ho
  split at ho
  · rw [← Option.some.inj ho]
    simp
  · exact hall.ofObject h o ho

theorem free (hall : EverySlot P heap) (h : Handle) : EverySlot P (heap.free h) := by
  refine ⟨fun h' o ho => ?_, by rw [statics_free]; exact hall.ofClass⟩
  rw [get_free] at ho
  split at ho
  · simp at ho
  · exact hall.ofObject h' o ho

/-- A write keeps the property if the written slot has it. -/
theorem setField (hall : EverySlot P heap) {h : Handle} {f : Field} {v : Value}
    (hset : heap.setField h f v = .ok heap')
    (hnew : ∀ s stored, P s → heap.fit s.ty v = some stored → P { s with value := stored }) :
    EverySlot P heap' := by
  obtain ⟨o, slot, stored, ho, hslot, -, hfit, rfl⟩ := setField_eq_ok hset
  refine hall.replace ho fun s hs => ?_
  rcases Slots.mem_write hs with hs | ⟨old, hold, rfl⟩
  · exact hall.ofObject h o ho s hs
  · -- the slot that was written is the one that the field was found in
    rw [hslot] at hold
    obtain rfl := Option.some.inj hold
    exact hnew slot stored (hall.ofObject h o ho slot (Slots.mem_of_slot?_eq_some hslot).1) hfit

theorem setStatic (hall : EverySlot P heap) {f : Field} {v : Value}
    (hset : heap.setStatic f v = .ok heap')
    (hnew : ∀ s stored, P s → heap.fit s.ty v = some stored → P { s with value := stored }) :
    EverySlot P heap' := by
  obtain ⟨slot, stored, hslot, -, hfit, rfl⟩ := setStatic_eq_ok hset
  refine ⟨hall.ofObject, fun s hs => ?_⟩
  rcases Slots.mem_write hs with hs | ⟨old, hold, rfl⟩
  · exact hall.ofClass s hs
  · rw [hslot] at hold
    obtain rfl := Option.some.inj hold
    exact hnew slot stored (hall.ofClass slot (Slots.mem_of_slot?_eq_some hslot).1) hfit

/-- A definition keeps the property if the new slot has it. -/
theorem defineField (hall : EverySlot P heap) {h : Handle} {f : Field} {t : Ty} {v : Value}
    (hdef : heap.defineField h f t v = .ok heap')
    (hnew : ∀ stored, heap.fit t v = some stored → P (.new f t stored)) : EverySlot P heap' := by
  obtain ⟨o, stored, ho, hfit, rfl⟩ := defineField_eq_ok hdef
  refine hall.replace ho fun s hs => ?_
  rcases Slots.mem_put hs with rfl | hs
  · exact hnew stored hfit
  · exact hall.ofObject h o ho s hs

theorem defineStatic (hall : EverySlot P heap) {f : Field} {t : Ty} {v : Value}
    (hdef : heap.defineStatic f t v = .ok heap')
    (hnew : ∀ stored, heap.fit t v = some stored → P (.new f t stored)) : EverySlot P heap' := by
  obtain ⟨stored, hfit, rfl⟩ := defineStatic_eq_ok hdef
  refine ⟨hall.ofObject, fun s hs => ?_⟩
  rcases Slots.mem_put hs with rfl | hs
  · exact hnew stored hfit
  · exact hall.ofClass s hs

end EverySlot

end Heap

end FieldPath
