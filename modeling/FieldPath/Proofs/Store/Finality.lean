import FieldPath.Proofs.Store.Actions

/-!
# Final fields

A slot keeps the flags that its field was defined with, and a write looks at these flags and not at
those of the description that it is given.  So no description gets around a final field: whatever a
program does with a heap, a final slot stays as it is until a definition makes it anew or its object
is freed.  An object that is made takes a place that holds none, so laying out its fields does not
reach the slots of any other.

## Main definitions

* `Heap.slotAt` — the slot of a field, of an object or of a class.
* `Heap.Final` — the slot of a field is there, and it is final.
* `Heap.Renews`, `Heap.Renewed` — an action defines a slot anew or frees its object.

## Main results

* `Heap.slotAt_defineField`, `Heap.slotAt_defineStatic` — a slot has the flags of its definition.
* `Heap.Final.step` — no operation changes a final slot but one that renews it.
* `Heap.Final.act` — **nor does any other action.**
* `final_slot_kept` — **final slots never change until they are renewed.**
-/

namespace FieldPath

/-! ### Slots -/

/-- A write leaves a final slot as it is, if the slot that is written is not final. -/
theorem Slots.slot?_write_of_final {slots : Slots} {f g : Field} {s old : Slot}
    (hs : slots.slot? f = some s) (hfinal : s.flags.isFinal = true)
    (hold : slots.slot? g = some old) (hwritable : old.flags.isFinal = false) (v : Value) :
    (slots.write g v).slot? f = some s := by
  rw [slot?_write]
  split
  · next hsame =>
    -- then both fields have the same slot
    have hfields : g.name = f.name ∧ g.declaring = f.declaring := by
      simpa [Field.sameAs] using hsame
    have heq : slots.slot? g = slots.slot? f := by simp [slot?, Slot.isFor, hfields]
    rw [← heq, hold, Option.some.injEq] at hs
    rw [← hs, hwritable] at hfinal
    simp at hfinal
  · exact hs

/-- A definition sets the slot of its own field alone. -/
theorem Slots.slot?_put_new (g : Field) (t : Ty) (v : Value) (slots : Slots) (f : Field) :
    (slots.put g (.new g t v)).slot? f =
      if g.sameAs f = true then some (.new g t v) else slots.slot? f :=
  slot?_put (isFor_new g t v) f slots

/-- The slot of a field is that of every other description of it. -/
theorem Slots.slot?_congr {f g : Field} (h : f.sameAs g = true) (slots : Slots) :
    slots.slot? f = slots.slot? g := by
  have hfields : f.name = g.name ∧ f.declaring = g.declaring := by simpa [Field.sameAs] using h
  simp only [slot?, Slot.isFor, hfields]

namespace Heap

/-- The slot of a field of an object, or of a class if no object is named. -/
def slotAt (heap : Heap) (owner : Option Handle) (f : Field) : Option Slot :=
  match owner with
  | some h => (heap.get h).bind (·.slots.slot? f)
  | none => heap.statics.slot? f

theorem slotAt_congr {f g : Field} (h : f.sameAs g = true) (heap : Heap)
    (owner : Option Handle) : heap.slotAt owner f = heap.slotAt owner g := by
  cases owner with
  | none => exact Slots.slot?_congr h heap.statics
  | some hd => simp only [slotAt, Slots.slot?_congr h]

/-- The slot of a field is there, and it is final. -/
structure Final (heap : Heap) (owner : Option Handle) (f : Field) (s : Slot) : Prop where
  /-- The slot is there. -/
  slotAt_eq : heap.slotAt owner f = some s
  /-- The field was defined as final. -/
  isFinal : s.flags.isFinal = true

/-- The slots of an object that is replaced are the only ones that change. -/
theorem slotAt_replace {heap : Heap} {h : Handle} {old : HeapObject} (hold : heap.get h = some old)
    (o : HeapObject) (owner : Option Handle) (f : Field) :
    (heap.replace h o).slotAt owner f =
      if owner = some h then o.slots.slot? f else heap.slotAt owner f := by
  cases owner with
  | none => rfl
  | some h' =>
    simp only [slotAt, get_replace hold, Option.some.injEq]
    split <;> rfl

/-- A heap with the same objects has the same slots in them. -/
theorem slotAt_statics (heap : Heap) (statics : Slots) (owner : Option Handle) (f : Field) :
    ({ heap with statics := statics } : Heap).slotAt owner f =
      if owner = none then statics.slot? f else heap.slotAt owner f := by
  cases owner with
  | none => rfl
  | some h => rfl

/-- A definition makes a slot with the flags of its field. -/
theorem slotAt_defineField {heap next : Heap} {h : Handle} {f : Field} {t : Ty} {v : Value}
    (hdef : heap.defineField h f t v = .ok next) :
    ∃ stored, next.slotAt (some h) f = some (.new f t stored) := by
  obtain ⟨o, stored, ho, -, rfl⟩ := defineField_eq_ok hdef
  refine ⟨stored, ?_⟩
  rw [slotAt_replace ho, if_pos rfl]
  exact Slots.slot?_put_self (Slots.isFor_new f t stored) o.slots

/-- So does the definition of a field of a class. -/
theorem slotAt_defineStatic {heap next : Heap} {f : Field} {t : Ty} {v : Value}
    (hdef : heap.defineStatic f t v = .ok next) :
    ∃ stored, next.slotAt none f = some (.new f t stored) := by
  obtain ⟨stored, -, rfl⟩ := defineStatic_eq_ok hdef
  exact ⟨stored, Slots.slot?_put_self (Slots.isFor_new f t stored) heap.statics⟩

/-! ### Operations -/

namespace Final

variable {heap next : Heap} {owner : Option Handle} {f : Field} {s : Slot}

theorem slot?_of_get (hs : heap.Final owner f s) {h : Handle} (howner : owner = some h)
    {o : HeapObject} (ho : heap.get h = some o) : o.slots.slot? f = some s := by
  have hat := hs.slotAt_eq
  rwa [howner, slotAt, ho, Option.bind_some] at hat

theorem slot?_statics (hs : heap.Final owner f s) (howner : owner = none) :
    heap.statics.slot? f = some s := by
  have hat := hs.slotAt_eq
  rwa [howner] at hat

/-- If the slots of one owner change, it is enough to look at these. -/
theorem of_slots (hs : heap.Final owner f s) {changed : Option Handle} {slots : Slots}
    (hnext : next.slotAt owner f = if owner = changed then slots.slot? f else heap.slotAt owner f)
    (hkeep : owner = changed → slots.slot? f = some s) : next.Final owner f s := by
  refine ⟨?_, hs.isFinal⟩
  rw [hnext]
  split
  · next howner => exact hkeep howner
  · exact hs.slotAt_eq

/-- **A write to any field of any object leaves a final slot as it is.** -/
theorem setField (hs : heap.Final owner f s) {h : Handle} {g : Field} {v : Value}
    (hset : heap.setField h g v = .ok next) : next.Final owner f s := by
  obtain ⟨o, old, stored, ho, hold, hwritable, -, rfl⟩ := setField_eq_ok hset
  refine hs.of_slots (slotAt_replace ho _ owner f) fun howner => ?_
  exact Slots.slot?_write_of_final (hs.slot?_of_get howner ho) hs.isFinal hold hwritable stored

/-- So does a write to any field of a class. -/
theorem setStatic (hs : heap.Final owner f s) {g : Field} {v : Value}
    (hset : heap.setStatic g v = .ok next) : next.Final owner f s := by
  obtain ⟨old, stored, hold, hwritable, -, rfl⟩ := setStatic_eq_ok hset
  refine hs.of_slots (heap.slotAt_statics _ owner f) fun howner => ?_
  exact Slots.slot?_write_of_final (hs.slot?_statics howner) hs.isFinal hold hwritable stored

/-- A definition of another slot leaves it as it is. -/
theorem defineField (hs : heap.Final owner f s) {h : Handle} {g : Field} {t : Ty} {v : Value}
    (hdef : heap.defineField h g t v = .ok next) (hother : ¬ (owner = some h ∧ g.sameAs f = true)) :
    next.Final owner f s := by
  obtain ⟨o, stored, ho, -, rfl⟩ := defineField_eq_ok hdef
  refine hs.of_slots (slotAt_replace ho _ owner f) fun howner => ?_
  rw [Slots.slot?_put_new, if_neg fun hsame => hother ⟨howner, hsame⟩]
  exact hs.slot?_of_get howner ho

/-- So does a definition of another field of a class. -/
theorem defineStatic (hs : heap.Final owner f s) {g : Field} {t : Ty} {v : Value}
    (hdef : heap.defineStatic g t v = .ok next) (hother : ¬ (owner = none ∧ g.sameAs f = true)) :
    next.Final owner f s := by
  obtain ⟨stored, -, rfl⟩ := defineStatic_eq_ok hdef
  refine hs.of_slots (heap.slotAt_statics _ owner f) fun howner => ?_
  rw [Slots.slot?_put_new, if_neg fun hsame => hother ⟨howner, hsame⟩]
  exact hs.slot?_statics howner

/-- A new object is not the owner of a slot that was there before. -/
theorem owner_ne (hs : heap.Final owner f s) (ht : heap.Tidy) (type : ObjectType) :
    owner ≠ some (heap.allocate type).1 := by
  rintro rfl
  have hat := hs.slotAt_eq
  rw [slotAt, ht.get_nextPlace rfl] at hat
  simp at hat

theorem allocate (hs : heap.Final owner f s) (ht : heap.Tidy) (type : ObjectType) :
    (heap.allocate type).2.Final owner f s := by
  refine ⟨?_, hs.isFinal⟩
  have hne := hs.owner_ne ht type
  have hat := hs.slotAt_eq
  cases owner with
  | none => exact hat
  | some h =>
    rw [slotAt, ht.get_allocate, if_neg fun heq => hne (congrArg some heq)]
    exact hat

theorem free (hs : heap.Final owner f s) {h : Handle} (hne : owner ≠ some h) :
    (heap.free h).Final owner f s := by
  refine ⟨?_, hs.isFinal⟩
  have hat := hs.slotAt_eq
  cases owner with
  | none => rwa [slotAt, statics_free]
  | some h' =>
    rw [slotAt, get_free, if_neg fun heq => hne (congrArg some heq)]
    exact hat

end Final

/-! ### Renewals -/

/-- The action defines the slot of a field anew, or frees the object that has it.  A definition that
is refused defines nothing. -/
def Renews (heap : Heap) (owner : Option Handle) (f : Field) : HeapAction → Prop
  | .operate (.free h) => owner = some h
  | .operate (.defineField h g t v) =>
      owner = some h ∧ g.sameAs f = true ∧ ∃ next, heap.defineField h g t v = .ok next
  | .operate (.defineStatic g t v) =>
      owner = none ∧ g.sameAs f = true ∧ ∃ next, heap.defineStatic g t v = .ok next
  | .installStatics t order =>
      owner = none ∧
        ∃ d ∈ t.defined defineStatic (t.staticsIn order) heap, d.field.sameAs f = true
  | _ => False

/-- One of some actions renews the slot of a field, in the heap that it finds. -/
def Renewed (heap : Heap) (owner : Option Handle) (f : Field) (actions : List HeapAction) : Prop :=
  ∃ done action rest, actions = done ++ action :: rest ∧ (heap.acts done).Renews owner f action

namespace Final

variable {heap : Heap} {owner : Option Handle} {f : Field} {s : Slot}

/-- No operation changes a final slot but one that renews it. -/
theorem step (hs : heap.Final owner f s) (ht : heap.Tidy) {op : HeapOp}
    (hkeep : ¬ heap.Renews owner f (.operate op)) : (heap.step op).Final owner f s := by
  cases op with
  | allocate type => exact hs.allocate ht type
  | free h => exact hs.free hkeep
  | defineField h g t v =>
    apply settle_ind (P := fun next => next.Final owner f s) hs
    exact fun next hdef => hs.defineField hdef fun hother => hkeep ⟨hother.1, hother.2, next, hdef⟩
  | defineStatic g t v =>
    apply settle_ind (P := fun next => next.Final owner f s) hs
    exact fun next hdef => hs.defineStatic hdef fun hother => hkeep ⟨hother.1, hother.2, next, hdef⟩
  | setField h g v =>
    apply settle_ind (P := fun next => next.Final owner f s) hs
    exact fun next hset => hs.setField hset
  | setStatic g v =>
    apply settle_ind (P := fun next => next.Final owner f s) hs
    exact fun next hset => hs.setStatic hset

/-- Nor does a run of operations that renew the slot in no heap. -/
theorem run (hs : heap.Final owner f s) (ht : heap.Tidy) {ops : List HeapOp}
    (hkeep : ∀ op ∈ ops, ∀ heap' : Heap, ¬ heap'.Renews owner f (.operate op)) :
    (heap.run ops).Final owner f s := by
  induction ops generalizing heap with
  | nil => exact hs
  | cons op rest ih =>
    exact ih (hs.step ht (hkeep op List.mem_cons_self heap)) (ht.step op)
      fun op' hop => hkeep op' (List.mem_cons_of_mem op hop)

/-- **No action changes a final slot but one that renews it.** -/
theorem act (hs : heap.Final owner f s) (ht : heap.Tidy) {action : HeapAction}
    (hkeep : ¬ heap.Renews owner f action) : (heap.act action).Final owner f s := by
  by_cases hop : ∃ op, action = .operate op
  · obtain ⟨op, rfl⟩ := hop
    exact hs.step ht hkeep
  · obtain ⟨ops, hrun, hparts⟩ := heap.exists_run action
    rw [hrun]
    refine hs.run ht fun op hmem heap' hrenews => ?_
    cases hparts op hmem with
    | operate => exact hop ⟨op, rfl⟩
    | allocate => exact hrenews
    | defineField o =>
      -- the new object is not the owner of the slot
      exact hs.owner_ne ht o hrenews.1
    | defineStatic hd => exact hkeep ⟨hrenews.1, _, hd, hrenews.2.1⟩
    | setField => exact hrenews
    | setStatic => exact hrenews

/-- Some actions leave a final slot as it is if none of them renews it. -/
theorem acts (hs : heap.Final owner f s) (ht : heap.Tidy) {actions : List HeapAction}
    (hkeep : ¬ heap.Renewed owner f actions) : (heap.acts actions).Final owner f s := by
  induction actions generalizing heap with
  | nil => exact hs
  | cons action rest ih =>
    have hfirst : ¬ heap.Renews owner f action := fun hrenews =>
      hkeep ⟨[], action, rest, rfl, hrenews⟩
    have hrest : ¬ (heap.act action).Renewed owner f rest := by
      rintro ⟨done, later, after, rfl, hrenews⟩
      exact hkeep ⟨action :: done, later, after, rfl, hrenews⟩
    exact ih (hs.act ht hfirst) (ht.act action) hrest

end Final

end Heap

/-- **Final slots never change until they are renewed.**  In a heap that any actions led to, let the
slot of a field be final, whether the field is of an object or of a class.  Whatever is done with
the heap, the slot stays as it is, with its value, as long as no action defines it anew or frees its
object. -/
theorem final_slot_kept (before later : List HeapAction) {owner : Option Handle} {f : Field}
    {s : Slot} (hs : (Heap.empty.acts before).slotAt owner f = some s)
    (hfinal : s.flags.isFinal = true)
    (hkeep : ¬ (Heap.empty.acts before).Renewed owner f later) :
    ((Heap.empty.acts before).acts later).slotAt owner f = some s := by
  have ht : (Heap.empty.acts before).Tidy := Heap.tidy_empty.acts before
  have hslot : (Heap.empty.acts before).Final owner f s := ⟨hs, hfinal⟩
  exact (hslot.acts ht hkeep).slotAt_eq

namespace Account

/-- The class of accounts. -/
def account : ObjectType := ⟨⟨"bank.Account"⟩, []⟩

/-- The number of an account, which is final. -/
def number : Field :=
  (Field.instanceField ⟨"bank.Account"⟩ "number" (.primitive .int)).withFlags { isFinal := true }

/-- The number, described as a field that can be written. -/
def writable : Field := .instanceField ⟨"bank.Account"⟩ "number" (.primitive .long)

/-- The slot of the number. -/
def slot : Slot := .new number (.primitive .int) (.int 7)

/-- The number of the account that a binding names. -/
def path : Expr :=
  .member (.binding "a" ⟨1, 1, 1⟩ (.object account) (some 0)) "number" ⟨1, 1, 8⟩
    (some ⟨writable, .primitive .long⟩)

/-- An account is made. -/
def opened : List HeapAction :=
  [.operate (.allocate account), .operate (.defineField ⟨0, 0⟩ number (.primitive .int) (.int 7))]

/-- The number is written by description and by path, and another account comes and goes. -/
def attempts : List HeapAction :=
  [.operate (.setField ⟨0, 0⟩ writable (.int 8)),
    .assign ((∅ : Std.HashMap String Value).insert "a" (.object ⟨0, 0⟩)) path (.int 9),
    .operate (.allocate account), .operate (.free ⟨1, 0⟩)]

/-- None of the attempts defines the number anew or frees its account. -/
theorem not_renewed : ¬ (Heap.empty.acts opened).Renewed (some ⟨0, 0⟩) number attempts := by
  rintro ⟨done, action, rest, hsplit, hrenews⟩
  have hmem : action ∈ attempts := by simp [hsplit]
  simp only [attempts, List.mem_cons, List.not_mem_nil, or_false] at hmem
  rcases hmem with rfl | rfl | rfl | rfl
  · exact hrenews
  · exact hrenews
  · exact hrenews
  · exact absurd (Option.some.inj hrenews) (by decide)

end Account

/-- The final number of an account stays seven. -/
theorem final_slot_kept_account :
    ((Heap.empty.acts Account.opened).acts Account.attempts).slotAt (some ⟨0, 0⟩) Account.number =
      some Account.slot :=
  final_slot_kept Account.opened Account.attempts (by decide +kernel) (by decide)
    Account.not_renewed

end FieldPath
