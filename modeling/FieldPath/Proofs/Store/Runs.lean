import FieldPath.Proofs.Store.Typing

/-!
# Runs of heap operations

A program works on a heap by six operations, with any arguments: handles may be stale or made up,
and definitions and writes may be refused.  A run is a list of them.  Whatever a single operation
keeps, a run keeps.

The generation of a place counts how often the place was freed, up to the words that a generation
is made of.  So a handle is dead for good from the moment its object is freed until its place has
been freed as often as there are generations.

## Main definitions

* `HeapOp` — the operations.
* `Heap.step`, `Heap.run` — the heap after an operation and after a run.
* `HeapOp.handle?` — the handle that an operation names.
* `Heap.frees` — how often a run frees a place.

## Main results

* `Heap.Tidy.run` — a run keeps heaps tidy.
* `Heap.EverySlot.step` — what holds of every stored value, every slot keeps.
* `Heap.Tidy.classOf_run` — **an object keeps its class until it is freed by its own handle.**
* `Heap.Tidy.get_run_of_unnamed` — operations that do not name an object leave it as it is.
* `Heap.Tidy.generationAt_run` — **the generation of a place counts how often it was freed.**
* `Heap.Tidy.get_run_of_freed` — **a freed object stays dead.**
* `Heap.Tidy.size_le_frees_of_reissued` — when a handle can be issued again.
-/

namespace FieldPath

/-- An operation on a heap. -/
inductive HeapOp where
  /-- An object is made. -/
  | allocate (type : ObjectType)
  /-- The object of a handle is freed, if there is one. -/
  | free (h : Handle)
  /-- A field of an object is defined. -/
  | defineField (h : Handle) (field : Field) (ty : Ty) (v : Value)
  /-- A field of a class is defined. -/
  | defineStatic (field : Field) (ty : Ty) (v : Value)
  /-- A field of an object is written. -/
  | setField (h : Handle) (field : Field) (v : Value)
  /-- A field of a class is written. -/
  | setStatic (field : Field) (v : Value)
  deriving DecidableEq

/-- The handle that an operation names. -/
def HeapOp.handle? : HeapOp → Option Handle
  | .free h | .defineField h _ _ _ | .setField h _ _ => some h
  | .allocate _ | .defineStatic _ _ _ | .setStatic _ _ => none

namespace Heap

/-! ### Steps -/

/-- The heap after an operation that may be refused.  A refusal leaves the heap as it was. -/
def settle (heap : Heap) : Except AccessError Heap → Heap
  | .ok next => next
  | .error _ => heap

/-- The heap after an operation. -/
def step (heap : Heap) : HeapOp → Heap
  | .allocate type => (heap.allocate type).2
  | .free h => heap.free h
  | .defineField h field ty v => heap.settle (heap.defineField h field ty v)
  | .defineStatic field ty v => heap.settle (heap.defineStatic field ty v)
  | .setField h field v => heap.settle (heap.setField h field v)
  | .setStatic field v => heap.settle (heap.setStatic field v)

/-- What the unchanged heap and every success satisfy, an operation that may be refused does. -/
theorem settle_ind {P : Heap → Prop} {heap : Heap} {out : Except AccessError Heap} (hsame : P heap)
    (hok : ∀ next, out = .ok next → P next) : P (heap.settle out) := by
  cases out with
  | error e => exact hsame
  | ok next => exact hok next rfl

theorem Tidy.step {heap : Heap} (ht : heap.Tidy) (op : HeapOp) : (heap.step op).Tidy := by
  cases op with
  | allocate type => exact ht.allocate type
  | free h => exact ht.free h
  | defineField h f t v =>
    apply settle_ind ht
    intro next hdef
    obtain ⟨o, stored, ho, -, rfl⟩ := defineField_eq_ok hdef
    exact ht.replace ho _
  | defineStatic f t v =>
    apply settle_ind ht
    intro next hdef
    obtain ⟨stored, -, rfl⟩ := defineStatic_eq_ok hdef
    exact ⟨ht.nodup, ht.mem_vacant⟩
  | setField h f v =>
    apply settle_ind ht
    intro next hset
    obtain ⟨o, slot, stored, ho, -, -, -, rfl⟩ := setField_eq_ok hset
    exact ht.replace ho _
  | setStatic f v =>
    apply settle_ind ht
    intro next hset
    obtain ⟨slot, stored, -, -, -, rfl⟩ := setStatic_eq_ok hset
    exact ⟨ht.nodup, ht.mem_vacant⟩

/-- A live object keeps its class in every step but the one that frees it. -/
theorem Tidy.classOf_step {heap : Heap} (ht : heap.Tidy) {op : HeapOp} {h : Handle}
    (hop : op ≠ .free h) {c : ObjectType} (hc : heap.classOf h = some c) :
    (heap.step op).classOf h = some c := by
  have hsame : ∀ {out : Except AccessError Heap},
      (∀ next, out = .ok next → next.classOf h = heap.classOf h) →
      (heap.settle out).classOf h = some c := by
    intro out hout
    apply settle_ind (P := fun next => next.classOf h = some c) hc
    intro next hnext
    rw [hout next hnext, hc]
  cases op with
  | allocate type => exact ht.keepsClasses_allocate type h c hc
  | free h' =>
    have hne : h ≠ h' := fun heq => hop (heq ▸ rfl)
    rw [Heap.step, classOf, get_free, if_neg hne]
    exact hc
  | defineField h' f t v => exact hsame fun next hdef => classOf_defineField hdef h
  | defineStatic f t v => exact hsame fun next hdef => classOf_defineStatic hdef h
  | setField h' f v => exact hsame fun next hset => classOf_setField hset h
  | setStatic f v => exact hsame fun next hset => classOf_setStatic hset h

/-- A step that does not name a live object leaves it as it is. -/
theorem Tidy.get_step_of_unnamed {heap : Heap} (ht : heap.Tidy) {op : HeapOp} {h : Handle}
    (hop : op.handle? ≠ some h) {o : HeapObject} (ho : heap.get h = some o) :
    (heap.step op).get h = some o := by
  cases op with
  | allocate type =>
    rw [Heap.step, ht.get_allocate, if_neg, ho]
    -- the new object goes to a place that holds none
    intro heq
    rw [heq, ht.get_nextPlace rfl] at ho
    simp at ho
  | free h' =>
    have hne : h ≠ h' := fun heq => hop (heq ▸ rfl)
    rw [Heap.step, get_free, if_neg hne, ho]
  | defineField h' f t v =>
    have hne : h ≠ h' := fun heq => hop (heq ▸ rfl)
    apply settle_ind (P := fun next => next.get h = some o) ho
    intro next hdef
    obtain ⟨old, stored, hold, -, rfl⟩ := defineField_eq_ok hdef
    rw [get_replace hold, if_neg hne, ho]
  | defineStatic f t v =>
    apply settle_ind (P := fun next => next.get h = some o) ho
    intro next hdef
    rw [get_defineStatic hdef, ho]
  | setField h' f v =>
    have hne : h ≠ h' := fun heq => hop (heq ▸ rfl)
    apply settle_ind (P := fun next => next.get h = some o) ho
    intro next hset
    obtain ⟨old, slot, stored, hold, -, -, -, rfl⟩ := setField_eq_ok hset
    rw [get_replace hold, if_neg hne, ho]
  | setStatic f v =>
    apply settle_ind (P := fun next => next.get h = some o) ho
    intro next hset
    rw [get_setStatic hset, ho]

/-- What every stored value has as it is stored, every slot keeps in a step. -/
theorem EverySlot.step {P : Slot → Prop} {heap : Heap} (hall : heap.EverySlot P) (ht : heap.Tidy)
    (op : HeapOp)
    (hput : ∀ f t v stored, heap.fit t v = some stored → P (.new f t stored))
    (hwrite : ∀ s v stored, P s → heap.fit s.ty v = some stored → P { s with value := stored }) :
    (heap.step op).EverySlot P := by
  cases op with
  | allocate type => exact hall.allocate ht type
  | free h => exact hall.free h
  | defineField h f t v =>
    apply settle_ind hall
    exact fun next hdef => hall.defineField hdef fun stored => hput f t v stored
  | defineStatic f t v =>
    apply settle_ind hall
    exact fun next hdef => hall.defineStatic hdef fun stored => hput f t v stored
  | setField h f v =>
    apply settle_ind hall
    exact fun next hset => hall.setField hset fun s stored => hwrite s v stored
  | setStatic f v =>
    apply settle_ind hall
    exact fun next hset => hall.setStatic hset fun s stored => hwrite s v stored

/-! ### Runs -/

/-- The heap after a run. -/
def run (heap : Heap) (ops : List HeapOp) : Heap := ops.foldl step heap

@[simp] theorem run_nil (heap : Heap) : heap.run [] = heap := rfl

@[simp] theorem run_cons (heap : Heap) (op : HeapOp) (ops : List HeapOp) :
    heap.run (op :: ops) = (heap.step op).run ops := rfl

theorem run_append (heap : Heap) (before after : List HeapOp) :
    heap.run (before ++ after) = (heap.run before).run after := List.foldl_append

theorem Tidy.run {heap : Heap} (ht : heap.Tidy) (ops : List HeapOp) : (heap.run ops).Tidy := by
  induction ops generalizing heap with
  | nil => exact ht
  | cons op ops ih => exact ih (ht.step op)

/-- **An object keeps its class until it is freed by its own handle.** -/
theorem Tidy.classOf_run {heap : Heap} (ht : heap.Tidy) {ops : List HeapOp} {h : Handle}
    (hops : .free h ∉ ops) {c : ObjectType} (hc : heap.classOf h = some c) :
    (heap.run ops).classOf h = some c := by
  induction ops generalizing heap with
  | nil => exact hc
  | cons op ops ih =>
    have hop : op ≠ .free h := fun heq => hops (heq ▸ List.mem_cons_self)
    have hrest : .free h ∉ ops := fun hmem => hops (List.mem_cons_of_mem op hmem)
    exact ih (ht.step op) hrest (ht.classOf_step hop hc)

/-- Operations that do not name a live object leave it as it is. -/
theorem Tidy.get_run_of_unnamed {heap : Heap} (ht : heap.Tidy) {ops : List HeapOp} {h : Handle}
    (hops : ∀ op ∈ ops, op.handle? ≠ some h) {o : HeapObject} (ho : heap.get h = some o) :
    (heap.run ops).get h = some o := by
  induction ops generalizing heap with
  | nil => exact ho
  | cons op ops ih =>
    have hop := hops op List.mem_cons_self
    have hrest := fun op' hmem => hops op' (List.mem_cons_of_mem op hmem)
    exact ih (ht.step op) hrest (ht.get_step_of_unnamed hop ho)

/-! ### Generations -/

/-- How often an operation frees a place: once if it frees the object there, else never. -/
def freesOnce (heap : Heap) (i : Nat) : HeapOp → Nat
  | .free h => if h.index = i ∧ (heap.get h).isSome then 1 else 0
  | _ => 0

/-- How often a run frees a place. -/
def frees (heap : Heap) (i : Nat) : List HeapOp → Nat
  | [] => 0
  | op :: ops => heap.freesOnce i op + (heap.step op).frees i ops

theorem frees_append (heap : Heap) (i : Nat) (before after : List HeapOp) :
    heap.frees i (before ++ after) = heap.frees i before + (heap.run before).frees i after := by
  induction before generalizing heap with
  | nil => rw [List.nil_append, frees, Nat.zero_add, run_nil]
  | cons op ops ih => rw [List.cons_append, frees, frees, ih, run_cons, Nat.add_assoc]

theorem freesOnce_le_one (heap : Heap) (i : Nat) (op : HeapOp) : heap.freesOnce i op ≤ 1 := by
  unfold freesOnce
  split
  · split <;> omega
  · omega

theorem frees_le_length (heap : Heap) (i : Nat) (ops : List HeapOp) :
    heap.frees i ops ≤ ops.length := by
  induction ops generalizing heap with
  | nil => exact Nat.le_refl 0
  | cons op ops ih =>
    have hop := heap.freesOnce_le_one i op
    have hrest := ih (heap.step op)
    rw [frees, List.length_cons]
    omega

theorem generationAt_replace {heap : Heap} {h : Handle} {old : HeapObject}
    (hold : heap.get h = some old) (o : HeapObject) (i : Nat) :
    (heap.replace h o).generationAt i = heap.generationAt i := by
  have hplace := get_eq_some.mp hold
  unfold generationAt
  rw [Heap.replace, getElem?_setIfInBounds_of_some hplace]
  by_cases hi : i = h.index
  · rw [if_pos hi, hi, hplace]
  · rw [if_neg hi]

theorem Tidy.generationAt_allocate {heap : Heap} (ht : heap.Tidy) (type : ObjectType) (i : Nat) :
    (heap.allocate type).2.generationAt i = heap.generationAt i := by
  by_cases hi : i = heap.nextPlace
  · subst hi
    conv => lhs; unfold generationAt
    rw [ht.getElem?_allocate, if_pos rfl]
  · unfold generationAt
    rw [ht.getElem?_allocate, if_neg hi]

theorem generationAt_free (heap : Heap) (h : Handle) (i : Nat) :
    (heap.free h).generationAt i =
      heap.generationAt i + UInt32.ofNat (heap.freesOnce i (.free h)) := by
  have hzero : heap.generationAt i = heap.generationAt i + UInt32.ofNat 0 := by simp
  rw [freesOnce]
  cases hold : heap.get h with
  | none =>
    rw [if_neg (by simp), free, hold]
    exact hzero
  | some old =>
    have hplace := get_eq_some.mp hold
    unfold generationAt free
    simp only [hold, getElem?_setIfInBounds_of_some hplace]
    by_cases hi : i = h.index
    · subst hi
      simp [hplace]
    · have hne : ¬ (h.index = i ∧ (some old).isSome = true) := fun hh => hi hh.1.symm
      rw [if_neg hi, if_neg hne]
      exact hzero

theorem Tidy.generationAt_step {heap : Heap} (ht : heap.Tidy) (op : HeapOp) (i : Nat) :
    (heap.step op).generationAt i = heap.generationAt i + UInt32.ofNat (heap.freesOnce i op) := by
  have hsame : ∀ {out : Except AccessError Heap},
      (∀ next, out = .ok next → next.generationAt i = heap.generationAt i) →
      (heap.settle out).generationAt i = heap.generationAt i + UInt32.ofNat 0 := by
    intro out hout
    have hzero : heap.generationAt i + UInt32.ofNat 0 = heap.generationAt i := by simp
    rw [hzero]
    exact settle_ind (P := fun next => next.generationAt i = heap.generationAt i) rfl hout
  cases op with
  | allocate type =>
    rw [Heap.step, ht.generationAt_allocate]
    simp [freesOnce]
  | free h => exact heap.generationAt_free h i
  | defineField h f t v =>
    apply hsame
    intro next hdef
    obtain ⟨o, stored, ho, -, rfl⟩ := defineField_eq_ok hdef
    exact generationAt_replace ho _ i
  | defineStatic f t v =>
    apply hsame
    intro next hdef
    obtain ⟨stored, -, rfl⟩ := defineStatic_eq_ok hdef
    rfl
  | setField h f v =>
    apply hsame
    intro next hset
    obtain ⟨o, slot, stored, ho, -, -, -, rfl⟩ := setField_eq_ok hset
    exact generationAt_replace ho _ i
  | setStatic f v =>
    apply hsame
    intro next hset
    obtain ⟨slot, stored, -, -, -, rfl⟩ := setStatic_eq_ok hset
    rfl

/-- **The generation of a place counts how often it was freed.** -/
theorem Tidy.generationAt_run {heap : Heap} (ht : heap.Tidy) (ops : List HeapOp) (i : Nat) :
    (heap.run ops).generationAt i = heap.generationAt i + UInt32.ofNat (heap.frees i ops) := by
  induction ops generalizing heap with
  | nil => simp [frees]
  | cons op ops ih =>
    rw [run_cons, ih (ht.step op), ht.generationAt_step, frees, UInt32.ofNat_add,
      UInt32.add_assoc]

/-- A handle names nothing while its place is in another use. -/
theorem get_eq_none_of_generationAt_ne {heap : Heap} {h : Handle}
    (hne : heap.generationAt h.index ≠ h.generation) : heap.get h = none := by
  unfold generationAt at hne
  unfold get
  cases hplace : heap.places[h.index]? with
  | none => rfl
  | some place =>
    rw [hplace] at hne
    exact if_neg hne

theorem generationAt_of_get {heap : Heap} {h : Handle} {o : HeapObject}
    (ho : heap.get h = some o) : heap.generationAt h.index = h.generation := by
  unfold generationAt
  rw [get_eq_some.mp ho]

/-- A run that frees a live object by its handle frees its place. -/
theorem Tidy.frees_pos {heap : Heap} (ht : heap.Tidy) {ops : List HeapOp} {h : Handle}
    (hops : .free h ∈ ops) {o : HeapObject} (ho : heap.get h = some o) :
    0 < heap.frees h.index ops := by
  obtain ⟨before, after, rfl, hbefore⟩ := List.eq_append_cons_of_mem hops
  -- the object is live up to the first time that it is freed
  have hclass : (heap.run before).classOf h = some o.type :=
    ht.classOf_run hbefore (by rw [classOf, ho, Option.map_some])
  obtain ⟨o', ho', -⟩ := Option.map_eq_some_iff.mp hclass
  have hfree : (heap.run before).freesOnce h.index (.free h) = 1 := by
    rw [freesOnce, if_pos ⟨rfl, by rw [ho']; rfl⟩]
  rw [frees_append, frees, hfree]
  omega

/-- The place of a freed object is in another use, until it has been freed as often as there are
generations. -/
theorem Tidy.generationAt_run_of_freed {heap : Heap} (ht : heap.Tidy) {ops : List HeapOp}
    {h : Handle} {o : HeapObject} (ho : heap.get h = some o) (hops : .free h ∈ ops)
    (hfrees : heap.frees h.index ops < UInt32.size) :
    (heap.run ops).generationAt h.index ≠ h.generation := by
  have hpos := ht.frees_pos hops ho
  rw [ht.generationAt_run, generationAt_of_get ho]
  intro heq
  have hzero : UInt32.ofNat (heap.frees h.index ops) = 0 := by
    simpa using heq
  have hnat := congrArg UInt32.toNat hzero
  rw [UInt32.toNat_ofNat_of_lt' hfrees] at hnat
  simp at hnat
  omega

/-- **A freed object stays dead** until its place has been freed as often as there are
generations. -/
theorem Tidy.get_run_of_freed {heap : Heap} (ht : heap.Tidy) {ops : List HeapOp} {h : Handle}
    {o : HeapObject} (ho : heap.get h = some o) (hops : .free h ∈ ops)
    (hfrees : heap.frees h.index ops < UInt32.size) : (heap.run ops).get h = none :=
  get_eq_none_of_generationAt_ne (ht.generationAt_run_of_freed ho hops hfrees)

/-- **A handle is issued again** only after its place has been freed as often as there are
generations. -/
theorem Tidy.size_le_frees_of_reissued {heap : Heap} (ht : heap.Tidy) {type type' : ObjectType}
    {ops : List HeapOp}
    (hsame : (((heap.allocate type).2.run ops).allocate type').1 = (heap.allocate type).1) :
    UInt32.size ≤ (heap.allocate type).2.frees (heap.allocate type).1.index ops := by
  have hissued := ht.allocate type
  have hget : (heap.allocate type).2.get (heap.allocate type).1 = some ⟨type, []⟩ := by
    rw [ht.get_allocate, if_pos rfl]
  refine Nat.le_of_not_lt fun hfrees => ?_
  by_cases hfreed : .free (heap.allocate type).1 ∈ ops
  · refine hissued.generationAt_run_of_freed hget hfreed hfrees ?_
    conv => rhs; rw [← hsame]
    rw [← hsame]
    rfl
  · -- the object is still there, so its place is not the next one
    have hclass := hissued.classOf_run hfreed (c := type) (by rw [classOf, hget]; rfl)
    have hnone := (hissued.run ops).get_nextPlace (h := (heap.allocate type).1)
      (congrArg Handle.index hsame.symm)
    rw [classOf, hnone] at hclass
    simp at hclass

end Heap

end FieldPath
