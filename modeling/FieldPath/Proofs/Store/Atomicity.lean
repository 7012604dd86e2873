import FieldPath.Proofs.Store.Arena

/-!
# Atomic operations

An arena represents a heap if it keeps the same objects and the same fields of classes.  An
operation has the same outcome on both, and leaves an arena that represents the heap it leaves.  So
an arena goes through every run as the heap does, although it is changed in place: an operation that
is refused has not changed it yet.

## Main definitions

* `Arena.Represents`, `Arena.ofHeap` — an arena keeps what a heap keeps.
* `Arena.step`, `Arena.run` — the arena after an operation and after a run.

## Main results

* `Arena.Represents.edit` — **an operation does the same to an arena and to a heap.**
* `Arena.represents_run` — so does a run.
* `slot_operations_atomic` — **an operation on a slot writes this slot alone, or nothing.**
-/

namespace FieldPath

/-! ### Arenas and heaps -/

namespace Heap

theorem get_congr {heap heap' : Heap} (h : heap.places = heap'.places) (hd : Handle) :
    heap.get hd = heap'.get hd := by
  unfold get
  rw [h]

theorem fit_congr {heap heap' : Heap} (h : heap.places = heap'.places) (t : Ty) (v : Value) :
    heap.fit t v = heap'.fit t v := by
  unfold fit classOf
  simp only [get_congr h]

theorem describe_congr {heap heap' : Heap} (h : heap.places = heap'.places) (v : Value) :
    heap.describe v = heap'.describe v := by
  unfold describe classOf
  simp only [get_congr h]

end Heap

namespace Arena

/-- An arena keeps the objects and the fields of classes that a heap keeps. -/
structure Represents (a : Arena) (heap : Heap) : Prop where
  /-- The objects are in the same places. -/
  places : a.places = heap.places
  /-- The same places are vacant. -/
  vacant : a.vacant = heap.vacant
  /-- Each field of a class has the same slot. -/
  staticSlot? : ∀ f, a.staticSlot? f = heap.statics.slot? f

/-- The arena that keeps what a heap keeps. -/
def ofHeap (heap : Heap) : Arena where
  places := heap.places
  vacant := heap.vacant
  buckets := heap.statics.foldr
    (fun s buckets =>
      buckets.insert s.declaring.hash (s :: buckets.getD s.declaring.hash [])) ∅

variable {a : Arena} {heap : Heap}

/-- Every heap is represented. -/
theorem represents_ofHeap (heap : Heap) : (ofHeap heap).Represents heap := by
  refine ⟨rfl, rfl, fun f => ?_⟩
  simp only [ofHeap, staticSlot?, bucket]
  induction heap.statics with
  | nil => simp
  | cons s rest ih =>
    rw [List.foldr_cons, Std.HashMap.getD_insert, Slots.slot?_cons]
    split
    · next hhash =>
      rw [Slots.slot?_cons, beq_iff_eq.mp hhash, ih]
    · next hhash =>
      -- a slot of the field would be in the bucket of its class
      rw [if_neg, ih]
      intro hs
      exact hhash (by rw [(Slots.isFor_iff.mp hs).2]; exact beq_self_eq_true _)

namespace Represents

theorem objects (hrep : a.Represents heap) : a.objects.places = heap.places := hrep.places

theorem object? (hrep : a.Represents heap) (h : Handle) : a.object? h = heap.get h :=
  Heap.get_congr hrep.objects h

theorem slotAt (hrep : a.Represents heap) (owner : Option Handle) (f : Field) :
    a.slotAt owner f = heap.slotAt owner f := by
  cases owner with
  | none => exact hrep.staticSlot? f
  | some h => rw [Arena.slotAt, Heap.slotAt, hrep.object?]

theorem slotAt_eq (hrep : a.Represents heap) : a.slotAt = heap.slotAt :=
  funext fun owner => funext fun f => hrep.slotAt owner f

theorem changeObject (hrep : a.Represents heap) {h : Handle} {o : HeapObject}
    (ho : heap.get h = some o) (change : Slots → Slots) :
    (a.changeObject h change).Represents
      (heap.replace h { o with slots := change o.slots }) := by
  refine ⟨?_, ?_, fun f => by rw [staticSlot?_changeObject]; exact hrep.staticSlot? f⟩
  · rw [Arena.changeObject, hrep.object?, ho]
    simp only [withObjects, Heap.replace, hrep.objects]
  · rw [Arena.changeObject, hrep.object?, ho]
    exact hrep.vacant

theorem changeBucket (hrep : a.Represents heap) {f : Field} {slot : Slot}
    (hslot : slot.isFor f = true) :
    (a.put none f slot).Represents { heap with statics := heap.statics.put f slot } := by
  refine ⟨hrep.places, hrep.vacant, fun g => ?_⟩
  have hat := slotAt_put a.owned_none hslot none g
  rw [hrep.slotAt, ← Slot.isFor_eq_sameAs hslot] at hat
  rw [Slots.slot?_put hslot]
  simpa [Arena.slotAt, Heap.slotAt] using hat

/-- A write has the same outcome in an arena. -/
theorem overwrite (hrep : a.Represents heap) {owner : Option Handle} {f : Field} {v : Value}
    {slots : Slots} (hslots : a.slotAt owner f = slots.slot? f)
    {next : Slots → Heap}
    (hput : ∀ slot : Slot, slot.isFor f = true →
      (a.put owner f slot).Represents (next (slots.put f slot))) :
    SameOutcome Represents (outcome (a.overwrite owner f v (a.slotAt owner f)))
      ((heap.assign slots f v).map next) := by
  rw [hslots]
  unfold Arena.overwrite Heap.assign Heap.convert
  cases hold : slots.slot? f with
  | none => exact .error
  | some old =>
    have hfor : old.isFor f = true := (Slots.mem_of_slot?_eq_some hold).2
    simp only
    split
    · exact .error
    · rw [Heap.fit_congr hrep.objects, Heap.describe_congr hrep.objects]
      cases heap.fit old.ty v with
      | none => exact .error
      | some stored =>
        have hwrite : next (slots.write f stored) =
            next (slots.put f { old with value := stored }) := by rw [Slots.write_eq_put hold]
        exact .ok (hwrite ▸ hput _ hfor)

/-- **An operation does the same to an arena and to the heap that it represents.** -/
theorem edit (hrep : a.Represents heap) (op : SlotOp) :
    SameOutcome Represents (outcome (op.edit.run a)) (op.perform heap) := by
  cases op with
  | defineField h f t v =>
    rw [SlotOp.edit, run_defineField, Heap.fit_congr hrep.objects,
      Heap.describe_congr hrep.objects, hrep.object?]
    simp only [SlotOp.perform, Heap.defineField, Heap.convert]
    cases heap.fit t v with
    | none => exact .error
    | some stored =>
      cases ho : heap.get h with
      | none => exact .error
      | some o => exact .ok (hrep.changeObject ho _)
  | defineStatic f t v =>
    rw [SlotOp.edit, run_defineStatic, Heap.fit_congr hrep.objects,
      Heap.describe_congr hrep.objects]
    simp only [SlotOp.perform, Heap.defineStatic, Heap.convert]
    cases heap.fit t v with
    | none => exact .error
    | some stored => exact .ok (hrep.changeBucket (Slots.isFor_new f t stored))
  | setField h f v =>
    rw [SlotOp.edit, run_setField, hrep.object?]
    simp only [SlotOp.perform, Heap.setField]
    cases ho : heap.get h with
    | none => exact .error
    | some o =>
      have hat : a.slotAt (some h) f = o.slots.slot? f := by
        rw [Arena.slotAt, hrep.object?, ho, Option.bind_some]
      simp only
      rw [← hat]
      exact hrep.overwrite hat fun slot _ => hrep.changeObject ho _
  | setStatic f v =>
    have hat : a.slotAt none f = heap.statics.slot? f := hrep.staticSlot? f
    rw [SlotOp.edit, run_setStatic]
    exact hrep.overwrite hat fun slot hfor => hrep.changeBucket hfor

end Represents

/-! ### Runs -/

/-- The arena that an operation leaves, whether it succeeds or not. -/
def after (a : Arena) (edit : Edit Unit) : Arena :=
  match edit.run a with
  | .ok _ next => next
  | .error _ next => next

/-- The arena after an operation of a program. -/
def step (a : Arena) : HeapOp → Arena
  | .allocate type => (a.allocate type).2
  | .free h => a.free h
  | .defineField h f t v => a.after (defineField h f t v)
  | .defineStatic f t v => a.after (defineStatic f t v)
  | .setField h f v => a.after (setField h f v)
  | .setStatic f v => a.after (setStatic f v)

/-- The arena after a run. -/
def run (a : Arena) (ops : List HeapOp) : Arena := ops.foldl step a

namespace Represents

/-- What an operation leaves in an arena represents what it leaves of the heap: if it is refused,
neither is changed. -/
theorem after (hrep : a.Represents heap) (op : SlotOp) :
    (a.after op.edit).Represents (heap.settle (op.perform heap)) := by
  have hsame := hrep.edit op
  have hdoes := op.does_edit a
  unfold Arena.after
  cases hout : op.edit.run a with
  | ok u next =>
    rw [hout] at hsame
    generalize op.perform heap = out at hsame
    cases hsame with
    | ok hnext => exact hnext
  | error e next =>
    rw [hout] at hsame hdoes
    generalize op.perform heap = out at hsame
    cases hsame
    cases hdoes <;> exact hrep

theorem allocate (hrep : a.Represents heap) (type : ObjectType) :
    (a.allocate type).2.Represents (heap.allocate type).2 := by
  have hobjects : a.objects = { heap with statics := [] } := by
    rw [Arena.objects, hrep.places, hrep.vacant]
  refine ⟨?_, ?_, hrep.staticSlot?⟩
  · simp only [Arena.allocate, hobjects]
    rfl
  · simp only [Arena.allocate, hobjects]
    rfl

theorem free (hrep : a.Represents heap) (h : Handle) : (a.free h).Represents (heap.free h) := by
  have hobjects : a.objects = { heap with statics := [] } := by
    rw [Arena.objects, hrep.places, hrep.vacant]
  have hget : Heap.get { heap with statics := [] } h = heap.get h := rfl
  refine ⟨?_, ?_, fun f => by rw [Heap.statics_free]; exact hrep.staticSlot? f⟩
  · simp only [Arena.free, hobjects, Heap.free, hget]
    cases heap.get h <;> rfl
  · simp only [Arena.free, hobjects, Heap.free, hget]
    cases heap.get h <;> rfl

theorem step (hrep : a.Represents heap) (op : HeapOp) :
    (a.step op).Represents (heap.step op) := by
  cases op with
  | allocate type => exact hrep.allocate type
  | free h => exact hrep.free h
  | defineField h f t v => exact hrep.after (.defineField h f t v)
  | defineStatic f t v => exact hrep.after (.defineStatic f t v)
  | setField h f v => exact hrep.after (.setField h f v)
  | setStatic f v => exact hrep.after (.setStatic f v)

end Represents

/-- **An arena goes through every run as the heap does.** -/
theorem represents_run (hrep : a.Represents heap) (ops : List HeapOp) :
    (a.run ops).Represents (heap.run ops) := by
  induction ops generalizing a heap with
  | nil => exact hrep
  | cons op rest ih => exact ih (hrep.step op)

/-- An arena and a heap that start empty keep the same after every run. -/
theorem represents_run_empty (ops : List HeapOp) :
    (empty.run ops).Represents (Heap.empty.run ops) := by
  refine represents_run ⟨rfl, rfl, fun f => ?_⟩ ops
  simp only [staticSlot?, bucket, empty, Std.HashMap.getD_empty]
  rfl

end Arena

/-- **An operation on a slot writes this slot alone, or nothing.**  If a definition or a write is
refused, the arena is as it was.  If it succeeds, it has stored the value, converted to the type of
the slot, in the slot of its field; every other slot of every object and every class is as it was,
also if the digests of two classes are equal, and so are the objects and their handles.  On a heap
that the arena represents the operation does the same. -/
theorem slot_operations_atomic (a : Arena) (op : SlotOp) :
    (match op.edit.run a with
      | .error _ a' => a' = a
      | .ok _ a' => ∃ slot, op.Stores a slot ∧ a.OnlyWrote op.owner? op.field slot a') ∧
    ∀ heap, a.Represents heap →
      SameOutcome Arena.Represents (Arena.outcome (op.edit.run a)) (op.perform heap) := by
  refine ⟨?_, fun heap hrep => hrep.edit op⟩
  have hdoes := op.does_edit a
  cases hout : op.edit.run a with
  | ok u a' =>
    rw [hout] at hdoes
    cases hdoes with
    | stored hslot => exact ⟨_, hslot, Arena.onlyWrote_put hslot.owned hslot.isFor⟩
  | error e a' =>
    rw [hout] at hdoes
    cases hdoes <;> rfl

namespace Tally

/-- The number of clients, kept by banks and by shops. -/
def clients (owner : String) : Field := .staticField ⟨owner⟩ "clients" (.primitive .long)

/-- A heap with an object and with the clients of both classes. -/
def heap : Heap := Heap.empty.run
  [.allocate ⟨⟨"Bank"⟩, []⟩, .defineStatic (clients "Bank") (.primitive .long) (.long 3),
    .defineStatic (clients "Shop") (.primitive .long) (.int 5)]

/-- The clients of the bank are counted anew. -/
def recount : SlotOp := .setStatic (clients "Bank") (.int 4)

/-- The heap after the count. -/
def recounted : Heap := heap.settle (recount.perform heap)

theorem perform_recount : recount.perform heap = .ok recounted := by
  have hok : (recount.perform heap).isOk = true := by decide +kernel
  cases hperform : recount.perform heap with
  | error e =>
    rw [hperform] at hok
    cases hok
  | ok next =>
    rw [recounted, hperform]
    rfl

end Tally

/-- The clients of a bank are written as a `long`, and the clients of the shop stay. -/
theorem slot_operations_atomic_tally :
    ∃ arena slot, Tally.recount.edit.run (Arena.ofHeap Tally.heap) = .ok () arena ∧
      (Arena.ofHeap Tally.heap).OnlyWrote none (Tally.clients "Bank") slot arena ∧
      arena.Represents Tally.recounted ∧
      Tally.recounted.getStatic (Tally.clients "Bank") = .ok (.long 4) ∧
      Tally.recounted.getStatic (Tally.clients "Shop") = .ok (.long 5) := by
  obtain ⟨hedit, hrepresented⟩ := slot_operations_atomic (Arena.ofHeap Tally.heap) Tally.recount
  have hsame := hrepresented Tally.heap (Arena.represents_ofHeap Tally.heap)
  rw [Tally.perform_recount] at hsame
  cases hout : Tally.recount.edit.run (Arena.ofHeap Tally.heap) with
  | error e arena =>
    rw [hout] at hsame
    cases hsame
  | ok u arena =>
    rw [hout] at hedit hsame
    obtain ⟨slot, -, honly⟩ := hedit
    cases hsame with
    | ok hrep => exact ⟨arena, slot, rfl, honly, hrep, by decide +kernel, by decide +kernel⟩

end FieldPath
