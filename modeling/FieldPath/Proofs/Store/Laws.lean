import FieldPath.Proofs.Outcome
import FieldPath.Store.Heap
import Mathlib.Data.List.Nodup

/-!
# Laws of slots and heaps

What an operation on a list of slots or on a heap changes, and that it changes nothing else.  A
slot is found by the declaring class and the name of a field, an object by place and generation;
both are told apart by equality, so each law is one `if`.

The vacant places of a heap are kept in a list beside the places.  A heap is tidy when the two
agree; every operation keeps heaps tidy, and only in a tidy heap is the handle of a new object new.

## Main definitions

* `Heap.Tidy` — the list of vacant places is right.

## Main results

* `Slots.slot?_put`, `Slots.slot?_write` — the slots after a definition and after a write.
* `Heap.get_replace`, `Heap.get_free`, `Heap.Tidy.get_allocate` — **the objects after each
  operation.**
* `Heap.setField_eq_ok`, `Heap.setStatic_eq_ok`, `Heap.defineField_eq_ok`,
  `Heap.defineStatic_eq_ok` — all that a successful operation checked and did.
-/

namespace FieldPath

/-! ### Slots -/

namespace Slots

theorem isFor_iff {s : Slot} {f : Field} :
    s.isFor f = true ↔ s.name = f.name ∧ s.declaring = f.declaring := by
  simp [Slot.isFor]

/-- Two fields that share a slot share every slot. -/
theorem isFor_congr {s : Slot} {f g : Field} (hf : s.isFor f = true) (hg : s.isFor g = true)
    (s' : Slot) : s'.isFor f = s'.isFor g := by
  obtain ⟨hname, hdecl⟩ := isFor_iff.mp hf
  obtain ⟨hname', hdecl'⟩ := isFor_iff.mp hg
  simp [Slot.isFor, ← hname, ← hname', ← hdecl, ← hdecl']

theorem mem_of_slot?_eq_some {slots : Slots} {f : Field} {s : Slot} (h : slots.slot? f = some s) :
    s ∈ slots ∧ s.isFor f = true :=
  ⟨List.mem_of_find?_eq_some h, by
    unfold slot? at h
    simpa using List.find?_some h⟩

/-- **A definition sets the slot of its own field alone.** -/
theorem slot?_put {f : Field} {slot : Slot} (h : slot.isFor f = true) (g : Field) :
    ∀ slots : Slots,
      slot? (put f slot slots) g = if slot.isFor g then some slot else slot? slots g := by
  intro slots
  induction slots with
  | nil => rw [put, slot?_cons]
  | cons s rest ih =>
    simp only [put]
    split
    · next hs =>
      rw [slot?_cons, slot?_cons]
      by_cases hg : slot.isFor g = true
      · rw [if_pos hg, if_pos hg]
      · -- the slot that was replaced is for the field of the new one, so not for `g` either
        have hsg : ¬ s.isFor g = true := by
          intro hsg
          exact hg (by rw [← isFor_congr hs hsg]; exact h)
        rw [if_neg hg, if_neg hg, if_neg hsg]
    · next hs =>
      rw [slot?_cons, slot?_cons, ih]
      by_cases hsg : s.isFor g = true
      · have hg : ¬ slot.isFor g = true := by
          intro hg
          exact hs (by rw [isFor_congr h hg]; exact hsg)
        rw [if_pos hsg, if_neg hg, if_pos hsg]
      · rw [if_neg hsg, if_neg hsg]

/-- **A write sets the value in the slot of its own field alone.** -/
theorem slot?_write (f : Field) (v : Value) (g : Field) : ∀ slots : Slots,
    slot? (write f v slots) g =
      if f.sameAs g then (slot? slots g).map fun s => { s with value := v }
      else slot? slots g := by
  intro slots
  by_cases hfg : f.sameAs g = true
  · have hname : f.name = g.name ∧ f.declaring = g.declaring := by simpa [Field.sameAs] using hfg
    have hslot : ∀ s : Slots, slot? s g = slot? s f := by
      intro s
      simp [slot?, Slot.isFor, hname]
    rw [if_pos hfg, hslot, hslot, slot?_write_self]
  · rw [if_neg hfg]
    induction slots with
    | nil => rfl
    | cons s rest ih =>
      simp only [write]
      split
      · next hs =>
        have hsg : ¬ s.isFor g = true := by
          intro hsg
          obtain ⟨hname, hdecl⟩ := isFor_iff.mp hs
          obtain ⟨hname', hdecl'⟩ := isFor_iff.mp hsg
          exact hfg (by simp [Field.sameAs, ← hname, ← hname', ← hdecl, ← hdecl'])
        have hsg' : ¬ ({ s with value := v } : Slot).isFor g = true := hsg
        rw [slot?_cons, slot?_cons, if_neg hsg, if_neg hsg']
      · rw [slot?_cons, slot?_cons, ih]

theorem mem_put {f : Field} {slot s : Slot} : ∀ {slots : Slots},
    s ∈ put f slot slots → s = slot ∨ s ∈ slots := by
  intro slots
  induction slots with
  | nil => intro h; exact Or.inl (List.mem_singleton.mp h)
  | cons t rest ih =>
    intro h
    simp only [put] at h
    split at h
    · rcases List.mem_cons.mp h with h | h
      · exact Or.inl h
      · exact Or.inr (List.mem_cons_of_mem _ h)
    · rcases List.mem_cons.mp h with rfl | h
      · exact Or.inr List.mem_cons_self
      · exact (ih h).imp_right (List.mem_cons_of_mem _)

/-- After a write every slot is an old one or the one that was written. -/
theorem mem_write {f : Field} {v : Value} {s : Slot} : ∀ {slots : Slots},
    s ∈ write f v slots →
      s ∈ slots ∨ ∃ old, slot? slots f = some old ∧ s = { old with value := v } := by
  intro slots
  induction slots with
  | nil => intro h; simp [write] at h
  | cons t rest ih =>
    intro h
    simp only [write] at h
    split at h
    · next ht =>
      rcases List.mem_cons.mp h with h | h
      · exact Or.inr ⟨t, by rw [slot?_cons, if_pos ht], h⟩
      · exact Or.inl (List.mem_cons_of_mem _ h)
    · next ht =>
      rw [slot?_cons, if_neg ht]
      rcases List.mem_cons.mp h with rfl | h
      · exact Or.inl List.mem_cons_self
      · exact (ih h).imp_left (List.mem_cons_of_mem _)

theorem isSome_slot?_put {f g : Field} {slot : Slot} {slots : Slots} (h : slot.isFor f = true)
    (hg : (slot? slots g).isSome) : (slot? (put f slot slots) g).isSome := by
  rw [slot?_put h]
  split
  · rfl
  · exact hg

@[simp] theorem isSome_slot?_write (f g : Field) (v : Value) (slots : Slots) :
    (slot? (write f v slots) g).isSome = (slot? slots g).isSome := by
  rw [slot?_write]
  split <;> simp

end Slots

/-! ### Objects -/

namespace Heap

/-- A handle is live when its place is in the use that it names. -/
theorem get_eq_some {heap : Heap} {h : Handle} {o : HeapObject} :
    heap.get h = some o ↔ heap.places[h.index]? = some ⟨h.generation, some o⟩ := by
  unfold get
  cases hp : heap.places[h.index]? with
  | none => simp
  | some place =>
    obtain ⟨generation, object⟩ := place
    simp only [Option.some.injEq, Place.mk.injEq]
    split <;> simp_all

/-- A heap whose places are those of another but for one, which holds `place`. -/
theorem get_of_places (heap : Heap) {heap' : Heap} {i : Nat} {place : Place}
    (hsame : ∀ j, heap'.places[j]? = if j = i then some place else heap.places[j]?) (h : Handle) :
    heap'.get h =
      if h.index = i then (if place.generation = h.generation then place.object else none)
      else heap.get h := by
  unfold get
  rw [hsame]
  by_cases hi : h.index = i
  · rw [if_pos hi, if_pos hi]
  · rw [if_neg hi, if_neg hi]

theorem getElem?_setIfInBounds_of_some {places : Array Place} {i : Nat} {old place : Place}
    (hi : places[i]? = some old) (j : Nat) :
    (places.setIfInBounds i place)[j]? = if j = i then some place else places[j]? := by
  obtain ⟨hlt, -⟩ := Array.getElem?_eq_some_iff.mp hi
  rw [Array.getElem?_setIfInBounds]
  split
  · next hij => rw [if_pos hij.symm]
  · next hij => rw [if_neg (fun h => hij h.symm)]

/-- **A replaced object is the only one that changes.** -/
theorem get_replace {heap : Heap} {h : Handle} {old : HeapObject} (hold : heap.get h = some old)
    (o : HeapObject) (h' : Handle) :
    (heap.replace h o).get h' = if h' = h then some o else heap.get h' := by
  have hplace := get_eq_some.mp hold
  rw [get_of_places heap (getElem?_setIfInBounds_of_some hplace)]
  obtain ⟨i, g⟩ := h
  obtain ⟨i', g'⟩ := h'
  simp only [Handle.mk.injEq]
  by_cases hi : i' = i
  · subst hi
    by_cases hg : g = g'
    · subst hg
      rw [if_pos rfl, if_pos rfl, if_pos ⟨rfl, rfl⟩]
    · -- another use of the place: the handle is stale before and after
      rw [if_pos rfl, if_neg hg, if_neg (fun hh => hg hh.2.symm)]
      unfold get
      rw [hplace]
      exact (if_neg hg).symm
  · rw [if_neg hi, if_neg (fun hh => hi hh.1)]

/-- **A freed object is the only one that goes.** -/
theorem get_free (heap : Heap) (h h' : Handle) :
    (heap.free h).get h' = if h' = h then none else heap.get h' := by
  unfold free
  cases hold : heap.get h with
  | none =>
    by_cases hh : h' = h
    · subst hh
      rw [if_pos rfl, hold]
    · rw [if_neg hh]
  | some old =>
    have hplace := get_eq_some.mp hold
    rw [get_of_places heap (getElem?_setIfInBounds_of_some hplace)]
    obtain ⟨i, g⟩ := h
    obtain ⟨i', g'⟩ := h'
    simp only [Handle.mk.injEq, ite_self]
    by_cases hi : i' = i
    · subst hi
      rw [if_pos rfl]
      by_cases hg : g = g'
      · subst hg
        rw [if_pos ⟨rfl, rfl⟩]
      · -- another use of the place: the handle was stale before
        rw [if_neg (fun hh => hg hh.2.symm)]
        unfold get
        rw [hplace]
        exact (if_neg hg).symm
    · rw [if_neg hi, if_neg (fun hh => hi hh.1)]

/-- An object that is replaced by one of its class keeps every class. -/
theorem classOf_replace {heap : Heap} {h : Handle} {old o : HeapObject}
    (hold : heap.get h = some old) (htype : o.type = old.type) (h' : Handle) :
    (heap.replace h o).classOf h' = heap.classOf h' := by
  unfold classOf
  rw [get_replace hold]
  split
  · next hh => rw [hh, hold, Option.map_some, Option.map_some, htype]
  · rfl

@[simp] theorem statics_free (heap : Heap) (h : Handle) :
    (heap.free h).statics = heap.statics := by
  unfold free
  split <;> rfl

/-! ### Vacant places -/

/-- The list of vacant places is right: each vacant place once, and no other. -/
structure Tidy (heap : Heap) : Prop where
  /-- No place is listed twice. -/
  nodup : heap.vacant.Nodup
  /-- A place is listed when it holds no object. -/
  mem_vacant : ∀ i, i ∈ heap.vacant ↔ ∃ g, heap.places[i]? = some ⟨g, none⟩

theorem tidy_empty : empty.Tidy := ⟨by simp [empty], by simp [empty]⟩

theorem Tidy.getElem?_allocate {heap : Heap} (ht : heap.Tidy) (type : ObjectType) (j : Nat) :
    (heap.allocate type).2.places[j]? =
      if j = heap.nextPlace then some ⟨heap.generationAt heap.nextPlace, some ⟨type, []⟩⟩
      else heap.places[j]? := by
  simp only [allocate, setPlace]
  split
  · next hlt => exact getElem?_setIfInBounds_of_some (Array.getElem?_eq_getElem hlt) j
  · next hge =>
    -- a vacant place is in the array, so the next place is out of it only if none is vacant
    have hnext : heap.nextPlace = heap.places.size := by
      unfold nextPlace at hge ⊢
      cases hv : heap.vacant with
      | nil => rfl
      | cons i rest =>
        rw [hv] at hge
        obtain ⟨g, hg⟩ := (ht.mem_vacant i).mp (by rw [hv]; exact List.mem_cons_self)
        obtain ⟨hlt, -⟩ := Array.getElem?_eq_some_iff.mp hg
        exact absurd hlt hge
    rw [Array.getElem?_push, hnext]

/-- The next place holds no object. -/
theorem Tidy.get_nextPlace {heap : Heap} (ht : heap.Tidy) {h : Handle}
    (hi : h.index = heap.nextPlace) : heap.get h = none := by
  unfold get
  rw [hi]
  unfold nextPlace
  cases hv : heap.vacant with
  | nil => rw [List.headD_nil, Array.getElem?_eq_none (Nat.le_refl _)]
  | cons i rest =>
    obtain ⟨g, hg⟩ := (ht.mem_vacant i).mp (by rw [hv]; exact List.mem_cons_self)
    rw [List.headD_cons, hg]
    exact ite_self _

/-- **A new object is new, and leaves the others alone.** -/
theorem Tidy.get_allocate {heap : Heap} (ht : heap.Tidy) (type : ObjectType) (h : Handle) :
    (heap.allocate type).2.get h =
      if h = (heap.allocate type).1 then some ⟨type, []⟩ else heap.get h := by
  rw [get_of_places heap (ht.getElem?_allocate type)]
  obtain ⟨i, g⟩ := h
  simp only [allocate, Handle.mk.injEq]
  by_cases hi : i = heap.nextPlace
  · rw [if_pos hi]
    by_cases hg : heap.generationAt heap.nextPlace = g
    · rw [if_pos hg, if_pos ⟨hi, hg.symm⟩]
    · rw [if_neg hg, if_neg (fun hh => hg hh.2.symm), ht.get_nextPlace hi]
  · rw [if_neg hi, if_neg (fun hh => hi hh.1)]

theorem Tidy.replace {heap : Heap} (ht : heap.Tidy) {h : Handle} {old : HeapObject}
    (hold : heap.get h = some old) (o : HeapObject) : (heap.replace h o).Tidy := by
  refine ⟨ht.nodup, fun i => ?_⟩
  have hplace := get_eq_some.mp hold
  have hmem := ht.mem_vacant i
  simp only [Heap.replace, getElem?_setIfInBounds_of_some hplace]
  split
  · next hi =>
    subst hi
    simpa [hplace] using hmem
  · exact hmem

theorem Tidy.allocate {heap : Heap} (ht : heap.Tidy) (type : ObjectType) :
    (heap.allocate type).2.Tidy := by
  have hvacant : (heap.allocate type).2.vacant = heap.vacant.tail := rfl
  refine ⟨by rw [hvacant]; exact ht.nodup.tail, fun i => ?_⟩
  simp only [ht.getElem?_allocate, hvacant]
  have hmem := ht.mem_vacant i
  by_cases hi : i = heap.nextPlace
  · -- the place that was taken was the head of the list, so it is not in the tail
    have hnot : i ∉ heap.vacant.tail := by
      intro hin
      cases hv : heap.vacant with
      | nil => rw [hv] at hin; simp at hin
      | cons k rest =>
        have hk : i = k := by rw [hi, nextPlace, hv, List.headD_cons]
        have hnodup := ht.nodup
        rw [hv] at hin hnodup
        exact (List.nodup_cons.mp hnodup).1 (hk ▸ hin)
    simp [hi ▸ hnot, hi]
  · simp only [hi, if_false]
    rw [← hmem]
    cases hv : heap.vacant with
    | nil => rfl
    | cons k rest =>
      have hk : heap.nextPlace = k := by rw [nextPlace, hv, List.headD_cons]
      rw [List.tail_cons, List.mem_cons, or_iff_right (hk ▸ hi)]

theorem Tidy.free {heap : Heap} (ht : heap.Tidy) (h : Handle) : (heap.free h).Tidy := by
  unfold Heap.free
  cases hold : heap.get h with
  | none => exact ht
  | some old =>
    have hplace := get_eq_some.mp hold
    have hmem := ht.mem_vacant
    refine ⟨List.nodup_cons.mpr ⟨?_, ht.nodup⟩, fun i => ?_⟩
    · rw [hmem, hplace]
      simp
    · simp only [getElem?_setIfInBounds_of_some hplace, List.mem_cons]
      split
      · next hi => simp [hi]
      · next hi => rw [hmem, or_iff_right hi]

/-! ### What operations check and do -/

theorem convert_eq_ok {heap : Heap} {f : Field} {t : Ty} {v stored : Value}
    (h : heap.convert f t v = .ok stored) : heap.fit t v = some stored := by
  unfold convert at h
  split at h
  · next hfit => rw [hfit]; simpa using h
  · simp at h

/-- A successful write of a slot. -/
theorem assign_eq_ok {heap : Heap} {slots slots' : Slots} {f : Field} {v : Value}
    (h : heap.assign slots f v = .ok slots') :
    ∃ slot stored, slots.slot? f = some slot ∧ slot.flags.isFinal = false ∧
      heap.fit slot.ty v = some stored ∧ slots' = slots.write f stored := by
  unfold assign at h
  split at h
  · simp at h
  · next slot hslot =>
    split at h
    · simp at h
    · next hfinal =>
      obtain ⟨stored, hstored, rfl⟩ := eq_ok_of_map h
      exact ⟨slot, stored, hslot, by simpa using hfinal, convert_eq_ok hstored, rfl⟩

/-- A write of a slot that is there is refused only for its flags or for the value. -/
theorem assign_eq_error {heap : Heap} {slots : Slots} {f : Field} {v : Value} {e : AccessError}
    (h : heap.assign slots f v = .error e) (hslot : (slots.slot? f).isSome) :
    (∃ field reason, e = .denied field reason) ∨
      ∃ field expected found, e = .invalidArgument field expected found := by
  unfold assign at h
  split at h
  · next hnone => rw [hnone] at hslot; simp at hslot
  · split at h
    · exact Or.inl ⟨_, _, by simpa using h.symm⟩
    · have hconvert := eq_error_of_map h
      unfold convert at hconvert
      split at hconvert
      · simp at hconvert
      · exact Or.inr ⟨_, _, _, (Except.error.inj hconvert).symm⟩

/-- A successful write of a field of an object. -/
theorem setField_eq_ok {heap heap' : Heap} {h : Handle} {f : Field} {v : Value}
    (hset : heap.setField h f v = .ok heap') :
    ∃ o slot stored, heap.get h = some o ∧ o.slots.slot? f = some slot ∧
      slot.flags.isFinal = false ∧ heap.fit slot.ty v = some stored ∧
      heap' = heap.replace h { o with slots := o.slots.write f stored } := by
  unfold setField at hset
  split at hset
  · simp at hset
  · next o ho =>
    obtain ⟨slots, ha, rfl⟩ := eq_ok_of_map hset
    obtain ⟨slot, stored, hslot, hfinal, hfit, rfl⟩ := assign_eq_ok ha
    exact ⟨o, slot, stored, ho, hslot, hfinal, hfit, rfl⟩

theorem setStatic_eq_ok {heap heap' : Heap} {f : Field} {v : Value}
    (hset : heap.setStatic f v = .ok heap') :
    ∃ slot stored, heap.statics.slot? f = some slot ∧ slot.flags.isFinal = false ∧
      heap.fit slot.ty v = some stored ∧
      heap' = { heap with statics := heap.statics.write f stored } := by
  unfold setStatic at hset
  obtain ⟨slots, ha, rfl⟩ := eq_ok_of_map hset
  obtain ⟨slot, stored, hslot, hfinal, hfit, rfl⟩ := assign_eq_ok ha
  exact ⟨slot, stored, hslot, hfinal, hfit, rfl⟩

/-- A write to a slot of a live object is refused only for its flags or for the value. -/
theorem setField_eq_error {heap : Heap} {h : Handle} {o : HeapObject} {f : Field} {v : Value}
    {e : AccessError} (hset : heap.setField h f v = .error e) (ho : heap.get h = some o)
    (hslot : (o.slots.slot? f).isSome) :
    (∃ field reason, e = .denied field reason) ∨
      ∃ field expected found, e = .invalidArgument field expected found := by
  unfold setField at hset
  rw [ho] at hset
  exact assign_eq_error (eq_error_of_map hset) hslot

theorem setStatic_eq_error {heap : Heap} {f : Field} {v : Value} {e : AccessError}
    (hset : heap.setStatic f v = .error e) (hslot : (heap.statics.slot? f).isSome) :
    (∃ field reason, e = .denied field reason) ∨
      ∃ field expected found, e = .invalidArgument field expected found := by
  unfold setStatic at hset
  exact assign_eq_error (eq_error_of_map hset) hslot

theorem defineField_eq_ok {heap heap' : Heap} {h : Handle} {f : Field} {t : Ty} {v : Value}
    (hdef : heap.defineField h f t v = .ok heap') :
    ∃ o stored, heap.get h = some o ∧ heap.fit t v = some stored ∧
      heap' = heap.replace h { o with slots := o.slots.put f (.new f t stored) } := by
  unfold defineField at hdef
  obtain ⟨stored, hc, hput⟩ := eq_ok_of_bind hdef
  split at hput
  · simp at hput
  · next o ho => exact ⟨o, stored, ho, convert_eq_ok hc, (Except.ok.inj hput).symm⟩

theorem defineStatic_eq_ok {heap heap' : Heap} {f : Field} {t : Ty} {v : Value}
    (hdef : heap.defineStatic f t v = .ok heap') :
    ∃ stored, heap.fit t v = some stored ∧
      heap' = { heap with statics := heap.statics.put f (.new f t stored) } := by
  unfold defineStatic at hdef
  obtain ⟨stored, hc, hput⟩ := eq_ok_of_bind hdef
  exact ⟨stored, convert_eq_ok hc, (Except.ok.inj hput).symm⟩

end Heap

end FieldPath
