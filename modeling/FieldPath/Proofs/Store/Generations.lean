import FieldPath.Proofs.Store.Runs
import Mathlib.Data.List.Perm.Lattice

/-!
# Handles and generations

What holds in every state that a run reaches.  The vacant places are listed once each, so the
places that are not listed hold the live objects, and each live object has a handle of its own.  A
field has one slot in an object, and one among the fields of classes.  The handle of a new object
names that object, and no other, until the object is freed by it; from then on it names nothing.

A generation is a word, so a place that is freed as often as there are words is back at the
generation it started from.  This is the only way for a dead handle to name an object again.

## Main definitions

* `Heap.handles` — the handles of the live objects.
* `Heap.Accounted` — the vacant places and the live objects are counted right.
* `Slot.key`, `Slots.Apart`, `Heap.OneSlotEach` — no field has two slots.
* `Heap.Stale` — a handle names nothing, and every use of it says so.

## Main results

* `Heap.Tidy.accounted` — the counts of a tidy heap are right.
* `Heap.OneSlotEach.step` — no operation makes a second slot of a field.
* `Heap.generational_safety` — **what holds of every run, and of a handle from its issue on.**
-/

namespace FieldPath

namespace Heap

/-! ### Live objects -/

/-- The handle of the object in a place. -/
def handleAt? (heap : Heap) (i : Nat) : Option Handle :=
  match heap.places[i]? with
  | some ⟨g, some _⟩ => some ⟨i, g⟩
  | _ => none

/-- The handles of the live objects, in the order of their places. -/
def handles (heap : Heap) : List Handle :=
  (List.range heap.places.size).filterMap heap.handleAt?

theorem handleAt?_eq_some {heap : Heap} {i : Nat} {h : Handle} :
    heap.handleAt? i = some h ↔ h.index = i ∧ (heap.get h).isSome := by
  obtain ⟨j, g⟩ := h
  unfold handleAt? get
  constructor
  · intro heq
    split at heq
    · next hplace =>
      obtain ⟨rfl, rfl⟩ := Handle.mk.inj (Option.some.inj heq)
      simp [hplace]
    · simp at heq
  · rintro ⟨rfl, hsome⟩
    rcases hplace : heap.places[j]? with _ | ⟨g', _ | o⟩
    · simp [hplace] at hsome
    · simp [hplace] at hsome
    · simp only [hplace] at hsome ⊢
      split at hsome
      · next hg =>
        have hg' : g' = g := hg
        rw [hg']
      · simp at hsome

theorem handleAt?_eq_none {heap : Heap} {i : Nat} :
    heap.handleAt? i = none ↔ ∀ g, heap.get ⟨i, g⟩ = none := by
  constructor
  · intro hnone g
    cases hget : heap.get ⟨i, g⟩ with
    | none => rfl
    | some o =>
      have hsome := handleAt?_eq_some.mpr ⟨rfl, by rw [hget]; rfl⟩
      rw [hnone] at hsome
      simp at hsome
  · intro hall
    cases hat : heap.handleAt? i with
    | none => rfl
    | some h =>
      obtain ⟨rfl, hsome⟩ := handleAt?_eq_some.mp hat
      rw [hall h.generation] at hsome
      simp at hsome

theorem mem_handles {heap : Heap} {h : Handle} : h ∈ heap.handles ↔ (heap.get h).isSome := by
  unfold handles
  rw [List.mem_filterMap]
  constructor
  · rintro ⟨i, -, hat⟩
    exact (handleAt?_eq_some.mp hat).2
  · intro hsome
    obtain ⟨o, ho⟩ := Option.isSome_iff_exists.mp hsome
    obtain ⟨hlt, -⟩ := Array.getElem?_eq_some_iff.mp (get_eq_some.mp ho)
    exact ⟨h.index, List.mem_range.mpr hlt, handleAt?_eq_some.mpr ⟨rfl, hsome⟩⟩

theorem nodup_handles (heap : Heap) : heap.handles.Nodup := by
  apply List.Nodup.filterMap _ List.nodup_range
  intro i j h hi hj
  have hindex := (handleAt?_eq_some.mp hi).1
  rw [← hindex]
  exact (handleAt?_eq_some.mp hj).1

/-- The vacant places and the live objects are counted right. -/
structure Accounted (heap : Heap) : Prop where
  /-- No vacant place is listed twice. -/
  nodup : heap.vacant.Nodup
  /-- The listed places are those that hold no object. -/
  mem_vacant : ∀ i, i ∈ heap.vacant ↔ i < heap.places.size ∧ ∀ g, heap.get ⟨i, g⟩ = none
  /-- There are at least as many places as vacant ones. -/
  length_le : heap.vacant.length ≤ heap.places.size
  /-- Each live object has a handle of its own. -/
  handles_nodup : heap.handles.Nodup
  /-- The handles are those that name an object. -/
  mem_handles : ∀ h, h ∈ heap.handles ↔ (heap.get h).isSome
  /-- The size is the number of live objects. -/
  size_eq : heap.size = heap.handles.length

theorem Tidy.mem_vacant_iff {heap : Heap} (ht : heap.Tidy) (i : Nat) :
    i ∈ heap.vacant ↔ i < heap.places.size ∧ heap.handleAt? i = none := by
  rw [ht.mem_vacant]
  unfold handleAt?
  rcases hplace : heap.places[i]? with _ | ⟨g, _ | o⟩
  · simpa using hplace
  · obtain ⟨hlt, -⟩ := Array.getElem?_eq_some_iff.mp hplace
    simp [hlt]
  · simp

/-- The counts of a tidy heap are right. -/
theorem Tidy.accounted {heap : Heap} (ht : heap.Tidy) : heap.Accounted := by
  have hperm : heap.vacant.Perm
      ((List.range heap.places.size).filter fun i => (heap.handleAt? i).isNone) := by
    apply (List.perm_ext_iff_of_nodup ht.nodup (List.nodup_range.filter _)).mpr
    intro i
    rw [ht.mem_vacant_iff, List.mem_filter, List.mem_range, Option.isNone_iff_eq_none]
  -- every place is counted once, as vacant or as the place of a live object
  have hcount : heap.vacant.length + heap.handles.length = heap.places.size := by
    have hall := List.length_eq_countP_add_countP (fun i => (heap.handleAt? i).isNone)
      (l := List.range heap.places.size)
    have hlive : (fun i => decide ¬(heap.handleAt? i).isNone = true) =
        fun i => (heap.handleAt? i).isSome := by
      funext i
      cases heap.handleAt? i <;> rfl
    rw [hlive, List.length_range, List.countP_eq_length_filter, ← hperm.length_eq,
      ← List.length_filterMap_eq_countP] at hall
    exact hall.symm
  refine ⟨ht.nodup, fun i => ?_, by omega, heap.nodup_handles, fun h => Heap.mem_handles, ?_⟩
  · rw [ht.mem_vacant_iff, handleAt?_eq_none]
  · unfold size
    omega

end Heap

/-! ### Slots of a field -/

/-- What tells the slots of a list apart. -/
def Slot.key (s : Slot) : ClassName × String := (s.declaring, s.name)

namespace Slots

/-- No field has two slots. -/
def Apart (slots : Slots) : Prop := (slots.map Slot.key).Nodup

theorem key_eq_of_isFor {s s' : Slot} {f : Field} (hs : s.isFor f = true)
    (hs' : s'.isFor f = true) : s.key = s'.key := by
  obtain ⟨hname, hdecl⟩ := isFor_iff.mp hs
  obtain ⟨hname', hdecl'⟩ := isFor_iff.mp hs'
  rw [Slot.key, Slot.key, hname, hdecl, hname', hdecl']

theorem isFor_of_key_eq {s s' : Slot} {f : Field} (hkey : s.key = s'.key)
    (hs' : s'.isFor f = true) : s.isFor f = true := by
  obtain ⟨hdecl, hname⟩ := Prod.mk.inj hkey
  obtain ⟨hname', hdecl'⟩ := isFor_iff.mp hs'
  exact isFor_iff.mpr ⟨hname.trans hname', hdecl.trans hdecl'⟩

theorem map_key_write (f : Field) (v : Value) (slots : Slots) :
    (write f v slots).map Slot.key = slots.map Slot.key := by
  induction slots with
  | nil => rfl
  | cons s rest ih =>
    simp only [write]
    split
    · rfl
    · rw [List.map_cons, List.map_cons, ih]

theorem Apart.write {slots : Slots} (h : slots.Apart) (f : Field) (v : Value) :
    (write f v slots).Apart := by
  rw [Apart, map_key_write]
  exact h

theorem Apart.put {f : Field} {slot : Slot} (hslot : slot.isFor f = true) {slots : Slots}
    (h : slots.Apart) : (put f slot slots).Apart := by
  induction slots with
  | nil => exact List.nodup_singleton _
  | cons s rest ih =>
    obtain ⟨hnotin, hrest⟩ := List.nodup_cons.mp h
    simp only [Slots.put]
    split
    · next hs =>
      -- the new slot has the key of the one it replaces
      apply List.nodup_cons.mpr
      rw [key_eq_of_isFor hslot hs]
      exact ⟨hnotin, hrest⟩
    · next hs =>
      apply List.nodup_cons.mpr
      refine ⟨?_, ih hrest⟩
      intro hin
      obtain ⟨s', hs', hkey⟩ := List.mem_map.mp hin
      rcases mem_put hs' with rfl | hs'
      · exact hs (isFor_of_key_eq hkey.symm hslot)
      · exact hnotin (List.mem_map.mpr ⟨s', hs', hkey⟩)

end Slots

namespace Heap

/-- No field has two slots in an object, or two among the fields of classes. -/
structure OneSlotEach (heap : Heap) : Prop where
  /-- The slots of live objects. -/
  ofObject : ∀ h o, heap.get h = some o → o.slots.Apart
  /-- The slots of classes. -/
  ofClass : heap.statics.Apart

theorem oneSlotEach_empty : empty.OneSlotEach :=
  ⟨by intro h o ho; simp [get, empty] at ho, List.nodup_nil⟩

theorem OneSlotEach.replace {heap : Heap} (hone : heap.OneSlotEach) {h : Handle}
    {old o : HeapObject} (hold : heap.get h = some old) (ho : o.slots.Apart) :
    (heap.replace h o).OneSlotEach := by
  refine ⟨?_, hone.ofClass⟩
  intro h' o' ho'
  rw [get_replace hold] at ho'
  split at ho'
  · rw [← Option.some.inj ho']
    exact ho
  · exact hone.ofObject h' o' ho'

/-- No operation makes a second slot of a field. -/
theorem OneSlotEach.step {heap : Heap} (hone : heap.OneSlotEach) (ht : heap.Tidy) (op : HeapOp) :
    (heap.step op).OneSlotEach := by
  cases op with
  | allocate type =>
    refine ⟨?_, hone.ofClass⟩
    intro h o ho
    rw [Heap.step, ht.get_allocate] at ho
    split at ho
    · rw [← Option.some.inj ho]
      exact List.nodup_nil
    · exact hone.ofObject h o ho
  | free h =>
    refine ⟨?_, by rw [Heap.step, statics_free]; exact hone.ofClass⟩
    intro h' o ho
    rw [Heap.step, get_free] at ho
    split at ho
    · simp at ho
    · exact hone.ofObject h' o ho
  | defineField h f t v =>
    apply settle_ind hone
    intro next hdef
    obtain ⟨o, stored, ho, -, rfl⟩ := defineField_eq_ok hdef
    exact hone.replace ho ((hone.ofObject h o ho).put (Slots.isFor_new f t stored))
  | defineStatic f t v =>
    apply settle_ind hone
    intro next hdef
    obtain ⟨stored, -, rfl⟩ := defineStatic_eq_ok hdef
    exact ⟨hone.ofObject, hone.ofClass.put (Slots.isFor_new f t stored)⟩
  | setField h f v =>
    apply settle_ind hone
    intro next hset
    obtain ⟨o, slot, stored, ho, -, -, -, rfl⟩ := setField_eq_ok hset
    exact hone.replace ho ((hone.ofObject h o ho).write f stored)
  | setStatic f v =>
    apply settle_ind hone
    intro next hset
    obtain ⟨slot, stored, -, -, -, rfl⟩ := setStatic_eq_ok hset
    exact ⟨hone.ofObject, hone.ofClass.write f stored⟩

theorem OneSlotEach.run {heap : Heap} (hone : heap.OneSlotEach) (ht : heap.Tidy)
    (ops : List HeapOp) : (heap.run ops).OneSlotEach := by
  induction ops generalizing heap with
  | nil => exact hone
  | cons op ops ih => exact ih (hone.step ht op) (ht.step op)

/-! ### Dead handles -/

/-- A handle names nothing, and every use of it says so. -/
structure Stale (heap : Heap) (h : Handle) : Prop where
  /-- There is no object. -/
  get : heap.get h = none
  /-- There is no class. -/
  classOf : heap.classOf h = none
  /-- No field is read. -/
  getField : ∀ f, heap.getField h f = .error (.staleHandle h.index)
  /-- No field is written. -/
  setField : ∀ f v, heap.setField h f v = .error (.staleHandle h.index)
  /-- Nothing is freed. -/
  free : heap.free h = heap

theorem stale_of_get {heap : Heap} {h : Handle} (hget : heap.get h = none) : heap.Stale h := by
  refine ⟨hget, by rw [classOf, hget]; rfl, fun f => ?_, fun f v => ?_, ?_⟩
  · rw [getField, hget]
  · rw [setField, hget]
  · rw [free, hget]

/-- **What holds of every run, and of a handle from its issue on.**  The counts are right and no
field has two slots.  A new object gets a handle that names no other, and keeps it, with its class,
until it is freed by this handle; only operations that name the handle change the object.  Once it
is freed its handle is stale, whatever happens to the place, unless the place has been freed as
often since the issue as there are generations.  Places are numbered without bound here. -/
theorem generational_safety (ops : List HeapOp) :
    (empty.run ops).Accounted ∧ (empty.run ops).OneSlotEach ∧
      ∀ type h issued, (empty.run ops).allocate type = (h, issued) →
        (empty.run ops).get h = none ∧ issued.get h = some ⟨type, []⟩ ∧
        ∀ later : List HeapOp,
          (.free h ∉ later →
            (issued.run later).classOf h = some type ∧
            (∀ other, ((issued.run later).allocate other).1 ≠ h) ∧
            ∀ rest : List HeapOp, (∀ op ∈ rest, op.handle? ≠ some h) →
              (issued.run (later ++ rest)).get h = (issued.run later).get h) ∧
          (.free h ∈ later → issued.frees h.index later < UInt32.size →
            (issued.run later).Stale h) := by
  have htidy := tidy_empty.run ops
  refine ⟨htidy.accounted, oneSlotEach_empty.run tidy_empty ops, ?_⟩
  intro type h issued hallocate
  obtain ⟨rfl, rfl⟩ : ((empty.run ops).allocate type).1 = h ∧
      ((empty.run ops).allocate type).2 = issued := by simp [hallocate]
  have hnone : (empty.run ops).get ((empty.run ops).allocate type).1 = none :=
    htidy.get_nextPlace rfl
  have hissued := htidy.allocate type
  have hget : ((empty.run ops).allocate type).2.get ((empty.run ops).allocate type).1 =
      some ⟨type, []⟩ := by rw [htidy.get_allocate, if_pos rfl]
  refine ⟨hnone, hget, fun later => ⟨fun hkept => ?_, fun hfreed hfrees => ?_⟩⟩
  · have hclass := hissued.classOf_run hkept (c := type) (by rw [classOf, hget]; rfl)
    obtain ⟨o, ho, -⟩ := Option.map_eq_some_iff.mp hclass
    have hlater := hissued.run later
    refine ⟨hclass, fun other heq => ?_, fun rest hrest => ?_⟩
    · rw [← heq, hlater.get_nextPlace rfl] at ho
      simp at ho
    · rw [run_append, ho, hlater.get_run_of_unnamed hrest ho]
  · exact stale_of_get (hissued.get_run_of_freed hget hfreed hfrees)

/-- A second object is freed and its place is taken by a third one.  The second handle is stale, and
the first object is as it was. -/
theorem generational_safety_reuse :
    let dog : ObjectType := ⟨⟨"Dog"⟩, []⟩
    let cat : ObjectType := ⟨⟨"Cat"⟩, []⟩
    let issued := ((empty.run [.allocate dog]).allocate cat).2
    (issued.run [.free ⟨1, 0⟩, .allocate dog]).Stale ⟨1, 0⟩ ∧
      (issued.run [.allocate dog]).classOf ⟨1, 0⟩ = some cat := by
  intro dog cat issued
  obtain ⟨-, -, hlife⟩ := (generational_safety [.allocate dog]).2.2 cat ⟨1, 0⟩ issued rfl
  refine ⟨?_, ((hlife [.allocate dog]).1 (by simp)).1⟩
  apply (hlife [.free ⟨1, 0⟩, .allocate dog]).2 List.mem_cons_self
  exact Nat.lt_of_le_of_lt (frees_le_length _ _ _) (by decide)

end Heap

end FieldPath
