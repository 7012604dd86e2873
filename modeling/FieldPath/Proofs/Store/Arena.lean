import FieldPath.Proofs.Store.Finality
import FieldPath.Store.Arena

/-!
# Operations in place

An operation on the slot of a field checks everything before it writes anything.  So if it is
refused the arena is as it was, and if it succeeds one slot was put in its place: all other slots,
the objects and their handles are as they were.  Classes of one digest share a bucket, but a slot is
found in it by the name of its class, so they do not share slots.

## Main definitions

* `Arena.slotAt`, `Arena.put` — the slot of a field, and another one put in its place.
* `Arena.OnlyWrote` — one slot was written, and nothing else was changed.
* `SlotOp.target?`, `SlotOp.Stores` — the slot that an operation fills, and the one it stores.
* `SlotOp.Does` — all that an operation can do.

## Main results

* `Arena.run_defineField`, `Arena.run_setField` and their kin — the operations without their steps.
* `Arena.slotAt_put` — **a slot that is put in its place is the only one that changes.**
* `Arena.onlyWrote_put` — nothing else that can be observed changes.
* `SlotOp.does_edit` — **an operation stores its slot or changes nothing.**
-/

namespace FieldPath

/-! ### Slots that are put in place -/

namespace Slots

/-- To write a value is to put the slot back with the value. -/
theorem write_eq_put {slots : Slots} {f : Field} {old : Slot} (h : slots.slot? f = some old)
    (v : Value) : slots.write f v = slots.put f { old with value := v } := by
  induction slots with
  | nil => simp at h
  | cons s rest ih =>
    rw [slot?_cons] at h
    simp only [write, put]
    split
    · next hs =>
      rw [if_pos hs] at h
      rw [Option.some.inj h]
    · next hs =>
      rw [if_neg hs] at h
      rw [ih h]

theorem length_put (f : Field) (slot : Slot) (slots : Slots) :
    (slots.put f slot).length =
      if (slots.slot? f).isSome then slots.length else slots.length + 1 := by
  induction slots with
  | nil => rfl
  | cons s rest ih =>
    rw [put, slot?_cons]
    split
    · rfl
    · rw [List.length_cons, ih, List.length_cons]
      split <;> rfl

/-- A slot that is put in its place is the first of its name if the old one was, or if there was
none of its name. -/
theorem find?_name_put {f : Field} {slot : Slot} (hslot : slot.isFor f = true) (name : String)
    (slots : Slots) :
    (slots.put f slot).find? (·.name == name) =
      if f.name = name ∧ (slots.find? (·.name == name)).all (·.isFor f) = true then some slot
      else slots.find? (·.name == name) := by
  have hname : slot.name = f.name := (isFor_iff.mp hslot).1
  induction slots with
  | nil =>
    by_cases h : f.name = name
    · simp [put, hname, h]
    · simp [put, hname, h]
  | cons s rest ih =>
    simp only [put]
    split
    · next hs =>
      have hsname : s.name = f.name := (isFor_iff.mp hs).1
      by_cases h : f.name = name
      · simp [hname, hsname, h, hs]
      · simp [hname, hsname, h]
    · next hs =>
      by_cases h : s.name = name
      · simp [h, hs]
      · have hne : (s.name == name) = false := by simpa using h
        simp only [List.find?_cons, hne, ih]

end Slots

/-- The new slot is for another field than `f` if `f` is not the field it was put in place for. -/
theorem Slot.isFor_eq_sameAs {slot : Slot} {f : Field} (hslot : slot.isFor f = true) (g : Field) :
    slot.isFor g = f.sameAs g := by
  obtain ⟨hname, hdecl⟩ := Slots.isFor_iff.mp hslot
  rw [Slot.isFor, Field.sameAs, hname, hdecl]

namespace Arena

variable {a : Arena}

/-- The slot of a field of an object, or of a class if no object is named. -/
def slotAt (a : Arena) (owner : Option Handle) (f : Field) : Option Slot :=
  match owner with
  | some h => (a.object? h).bind (·.slots.slot? f)
  | none => a.staticSlot? f

/-- The arena with a slot put in place of the one of its field, or added. -/
def put (a : Arena) (owner : Option Handle) (f : Field) (slot : Slot) : Arena :=
  match owner with
  | some h => a.changeObject h (·.put f slot)
  | none => a.changeBucket f.declaring (·.put f slot)

/-! ### What the operations do -/

theorem run_live (a : Arena) (h : Handle) :
    (live h).run a =
      match a.object? h with
      | some o => .ok o a
      | none => .error (.staleHandle h.index) a := by
  unfold live
  rw [EStateM.run_bind, EStateM.run_get]
  simp only
  cases a.object? h <;> rfl

theorem run_writable (a : Arena) (f : Field) (slot? : Option Slot) :
    (writable f slot?).run a =
      match slot? with
      | none => .error (Heap.missing f) a
      | some slot =>
          if slot.flags.isFinal then .error (.denied f.text "field is final") a
          else .ok slot a := by
  cases slot? with
  | none => rfl
  | some slot =>
    simp only [writable]
    split <;> rfl

theorem run_convert (a : Arena) (f : Field) (t : Ty) (v : Value) :
    (convert f t v).run a =
      match a.objects.fit t v with
      | some stored => .ok stored a
      | none => .error (.invalidArgument f.text t.text (a.objects.describe v)) a := by
  unfold convert Heap.convert
  rw [EStateM.run_bind, EStateM.run_get]
  simp only
  cases a.objects.fit t v <;> rfl

/-- The value converted and put into the slot that was found, if it is not final. -/
def overwrite (a : Arena) (owner : Option Handle) (f : Field) (v : Value) :
    Option Slot → EStateM.Result AccessError Arena Unit
  | none => .error (Heap.missing f) a
  | some old =>
      if old.flags.isFinal then .error (.denied f.text "field is final") a
      else match a.objects.fit old.ty v with
        | some stored => .ok () (a.put owner f { old with value := stored })
        | none => .error (.invalidArgument f.text old.ty.text (a.objects.describe v)) a

theorem run_defineField (a : Arena) (h : Handle) (f : Field) (t : Ty) (v : Value) :
    (defineField h f t v).run a =
      match a.objects.fit t v, a.object? h with
      | none, _ => .error (.invalidArgument f.text t.text (a.objects.describe v)) a
      | some _, none => .error (.staleHandle h.index) a
      | some stored, some _ => .ok () (a.put (some h) f (.new f t stored)) := by
  unfold defineField
  rw [EStateM.run_bind, run_convert]
  cases a.objects.fit t v with
  | none => rfl
  | some stored =>
    simp only
    rw [EStateM.run_bind, run_live]
    cases a.object? h <;> rfl

theorem run_defineStatic (a : Arena) (f : Field) (t : Ty) (v : Value) :
    (defineStatic f t v).run a =
      match a.objects.fit t v with
      | none => .error (.invalidArgument f.text t.text (a.objects.describe v)) a
      | some stored => .ok () (a.put none f (.new f t stored)) := by
  unfold defineStatic
  rw [EStateM.run_bind, run_convert]
  cases a.objects.fit t v <;> rfl

theorem changeObject_write {h : Handle} {o : HeapObject} (ho : a.object? h = some o) {f : Field}
    {old : Slot} (hold : o.slots.slot? f = some old) (v : Value) :
    a.changeObject h (·.write f v) = a.put (some h) f { old with value := v } := by
  simp only [put, changeObject, ho, Slots.write_eq_put hold]

theorem changeBucket_write {f : Field} {old : Slot} (hold : a.staticSlot? f = some old)
    (v : Value) :
    a.changeBucket f.declaring (·.write f v) = a.put none f { old with value := v } := by
  simp only [put, changeBucket, Slots.write_eq_put hold]

theorem run_setField (a : Arena) (h : Handle) (f : Field) (v : Value) :
    (setField h f v).run a =
      match a.object? h with
      | none => .error (.staleHandle h.index) a
      | some o => a.overwrite (some h) f v (o.slots.slot? f) := by
  unfold setField
  rw [EStateM.run_bind, run_live]
  cases ho : a.object? h with
  | none => rfl
  | some o =>
    simp only
    rw [EStateM.run_bind, run_writable]
    cases hold : o.slots.slot? f with
    | none => rfl
    | some old =>
      simp only [overwrite]
      cases old.flags.isFinal with
      | true => rfl
      | false =>
        simp only [Bool.false_eq_true, if_false]
        rw [EStateM.run_bind, run_convert]
        cases a.objects.fit old.ty v with
        | none => rfl
        | some stored => exact congrArg (EStateM.Result.ok ()) (changeObject_write ho hold stored)

theorem run_setStatic (a : Arena) (f : Field) (v : Value) :
    (setStatic f v).run a = a.overwrite none f v (a.staticSlot? f) := by
  unfold setStatic
  rw [EStateM.run_bind, EStateM.run_get]
  simp only
  rw [EStateM.run_bind, run_writable]
  cases hold : a.staticSlot? f with
  | none => rfl
  | some old =>
    simp only [overwrite]
    cases old.flags.isFinal with
    | true => rfl
    | false =>
      simp only [Bool.false_eq_true, if_false]
      rw [EStateM.run_bind, run_convert]
      cases a.objects.fit old.ty v with
      | none => rfl
      | some stored => exact congrArg (EStateM.Result.ok ()) (changeBucket_write hold stored)

/-! ### One slot put in its place -/

/-- The value of a field of an object, or of a class if no object is named. -/
def read (a : Arena) (owner : Option Handle) (f : Field) : Except AccessError Value :=
  match owner with
  | some h => a.getField h f
  | none => a.getStatic f

/-- The object of a slot is live.  A slot of a class has no object. -/
def Owned (a : Arena) (owner : Option Handle) : Prop :=
  ∀ h, owner = some h → (a.object? h).isSome

theorem owned_none (a : Arena) : a.Owned none := by simp [Owned]

theorem owned_some {h : Handle} {o : HeapObject} (ho : a.object? h = some o) :
    a.Owned (some h) := by
  intro h' heq
  rw [← Option.some.inj heq, ho, Option.isSome_some]

theorem object?_changeObject {h : Handle} {o : HeapObject} (ho : a.object? h = some o)
    (change : Slots → Slots) (h' : Handle) :
    (a.changeObject h change).object? h' =
      if h' = h then some { o with slots := change o.slots } else a.object? h' := by
  unfold changeObject
  rw [ho]
  exact Heap.get_replace ho _ h'

/-- The slots of the classes that share a bucket change together. -/
theorem staticSlot?_changeBucket (a : Arena) (c : ClassName) (change : Slots → Slots) (f : Field) :
    (a.changeBucket c change).staticSlot? f =
      if c.hash = f.declaring.hash then (change (a.bucket c)).slot? f else a.staticSlot? f := by
  simp only [staticSlot?, bucket, changeBucket, Std.HashMap.getD_insert, beq_iff_eq]
  split <;> rfl

@[simp] theorem staticSlot?_changeObject (a : Arena) (h : Handle) (change : Slots → Slots)
    (f : Field) : (a.changeObject h change).staticSlot? f = a.staticSlot? f := by
  unfold changeObject
  split <;> rfl

end Arena

/-- One slot of an object was put in its place, and nothing else of the object is changed. -/
structure HeapObject.OnlyPut (o : HeapObject) (f : Field) (slot : Slot) (o' : HeapObject) :
    Prop where
  /-- The object keeps its class. -/
  type : o'.type = o.type
  /-- The field has the slot, and the other fields have the slots they had. -/
  slot? : ∀ g, o'.slots.slot? g = if f.sameAs g then some slot else o.slots.slot? g
  /-- There is one more field if the field is new. -/
  length : o'.slots.length =
    if (o.slots.slot? f).isSome then o.slots.length else o.slots.length + 1
  /-- By name the slot is found if the first slot of the name is the one of the field. -/
  valueOf? : ∀ name, o'.valueOf? name =
    if f.name = name ∧ (o.slots.find? (·.name == name)).all (·.isFor f) = true then
      some slot.value else o.valueOf? name

theorem HeapObject.onlyPut_put (o : HeapObject) {f : Field} {slot : Slot}
    (hslot : slot.isFor f = true) : o.OnlyPut f slot { o with slots := o.slots.put f slot } where
  type := rfl
  slot? g := by rw [Slots.slot?_put hslot, Slot.isFor_eq_sameAs hslot]
  length := Slots.length_put f slot o.slots
  valueOf? name := by
    unfold HeapObject.valueOf?
    rw [Slots.find?_name_put hslot]
    split <;> rfl

/-- An object that is changed keeps its place. -/
theorem Heap.fst_allocate_replace {heap : Heap} {h : Handle} {old : HeapObject}
    (hold : heap.get h = some old) (o : HeapObject) (type : ObjectType) :
    ((heap.replace h o).allocate type).1 = (heap.allocate type).1 := by
  have hnext : (heap.replace h o).nextPlace = heap.nextPlace := by
    simp only [nextPlace, replace, Array.size_setIfInBounds]
  simp only [allocate, hnext, generationAt_replace hold]

namespace Arena

variable {a a' : Arena} {owner : Option Handle} {f : Field} {slot : Slot}

/-- One slot was put in its place, and nothing else is changed. -/
structure OnlyWrote (a : Arena) (owner : Option Handle) (f : Field) (slot : Slot) (a' : Arena) :
    Prop where
  /-- The field has the slot, and every other field of every object and class has the slot it
  had. -/
  slotAt : ∀ owner' g,
    a'.slotAt owner' g = if owner' = owner ∧ f.sameAs g then some slot else a.slotAt owner' g
  /-- The value of the slot is read for the field, and every other read has the outcome it had. -/
  read : ∀ owner' g, a'.read owner' g =
    if owner' = owner ∧ f.sameAs g then .ok slot.value else a.read owner' g
  /-- Of the object of the slot nothing else is changed. -/
  object : ∀ h, owner = some h → ∃ o o', a.object? h = some o ∧ a'.object? h = some o' ∧
    o.OnlyPut f slot o'
  /-- Every other object is as it was. -/
  object_other : ∀ h, owner ≠ some h → a'.object? h = a.object? h
  /-- The handles of live objects are as they were, and so are the classes of the objects. -/
  classOf : ∀ h, a'.classOf h = a.classOf h
  /-- There are as many live objects as before. -/
  size : a'.size = a.size
  /-- The handles of objects that are made from now on are not changed either. -/
  handle : ∀ type, (a'.allocate type).1 = (a.allocate type).1

/-! What is in a slot is what is read. -/

theorem read_of_slotAt (h : a.slotAt owner f = some slot) : a.read owner f = .ok slot.value := by
  cases owner with
  | none =>
    rw [slotAt] at h
    rw [read, getStatic, h]
  | some h' =>
    obtain ⟨o, ho, hslot⟩ := Option.bind_eq_some_iff.mp h
    have hget : a.objects.get h' = some o := ho
    rw [read, getField, Heap.getField, hget]
    simp only
    rw [hslot]

theorem isFor_of_slotAt (h : a.slotAt owner f = some slot) : slot.isFor f = true := by
  cases owner with
  | none => exact (Slots.mem_of_slot?_eq_some h).2
  | some h' =>
    obtain ⟨o, -, hslot⟩ := Option.bind_eq_some_iff.mp h
    exact (Slots.mem_of_slot?_eq_some hslot).2

theorem read_congr (hclass : ∀ h, a'.classOf h = a.classOf h)
    (hslot : a'.slotAt owner f = a.slotAt owner f) : a'.read owner f = a.read owner f := by
  cases owner with
  | none =>
    have hstatic : a'.staticSlot? f = a.staticSlot? f := hslot
    rw [read, read, getStatic, getStatic, hstatic]
  | some h =>
    have hlive := hclass h
    simp only [classOf, Heap.classOf] at hlive
    simp only [slotAt, object?] at hslot
    simp only [read, getField, Heap.getField]
    cases ho : a.objects.get h with
    | none => simp_all
    | some o =>
      cases ho' : a'.objects.get h with
      | none => simp_all
      | some o' =>
        rw [ho, ho', Option.bind_some, Option.bind_some] at hslot
        simp only
        rw [hslot]

theorem slotAt_put (hown : a.Owned owner) (hslot : slot.isFor f = true) (owner' : Option Handle)
    (g : Field) :
    (a.put owner f slot).slotAt owner' g =
      if owner' = owner ∧ f.sameAs g then some slot else a.slotAt owner' g := by
  cases owner with
  | none =>
    cases owner' with
    | none =>
      simp only [put, slotAt, staticSlot?_changeBucket, Slots.slot?_put hslot,
        Slot.isFor_eq_sameAs hslot, true_and]
      -- classes of one digest share a bucket, and in it the slots have names
      by_cases hhash : f.declaring.hash = g.declaring.hash
      · have hbucket : (a.bucket f.declaring).slot? g = a.staticSlot? g := by
          rw [staticSlot?, bucket, bucket, hhash]
        rw [if_pos hhash, hbucket]
      · have hother : ¬ f.sameAs g = true := by
          intro hsame
          have hfields : f.name = g.name ∧ f.declaring = g.declaring := by
            simpa [Field.sameAs] using hsame
          exact hhash (by rw [hfields.2])
        rw [if_neg hhash, if_neg hother]
    | some h' => exact (if_neg (by simp)).symm
  | some h =>
    obtain ⟨o, ho⟩ := Option.isSome_iff_exists.mp (hown h rfl)
    cases owner' with
    | none =>
      rw [if_neg (by simp)]
      exact staticSlot?_changeObject a h _ g
    | some h' =>
      simp only [put, slotAt, object?_changeObject ho, Option.some.injEq]
      by_cases hh : h' = h
      · subst hh
        rw [if_pos rfl, ho, Option.bind_some, Option.bind_some, Slots.slot?_put hslot,
          Slot.isFor_eq_sameAs hslot]
        simp
      · rw [if_neg hh, if_neg (fun hboth => hh hboth.1)]

theorem classOf_put (hown : a.Owned owner) (f : Field) (slot : Slot) (h : Handle) :
    (a.put owner f slot).classOf h = a.classOf h := by
  cases owner with
  | none => rfl
  | some h' =>
    obtain ⟨o, ho⟩ := Option.isSome_iff_exists.mp (hown h' rfl)
    simp only [put, changeObject, ho]
    exact Heap.classOf_replace ho (by rfl) h

/-- **A slot that is put in its place changes nothing else.** -/
theorem onlyWrote_put (hown : a.Owned owner) (hslot : slot.isFor f = true) :
    a.OnlyWrote owner f slot (a.put owner f slot) where
  slotAt := slotAt_put hown hslot
  read owner' g := by
    have hat := slotAt_put hown hslot owner' g
    split
    · next hsame =>
      rw [if_pos hsame] at hat
      exact read_of_slotAt hat
    · next hsame =>
      rw [if_neg hsame] at hat
      exact read_congr (classOf_put hown f slot) hat
  object h howner := by
    obtain ⟨o, ho⟩ := Option.isSome_iff_exists.mp (hown h howner)
    subst howner
    exact ⟨o, _, ho, by rw [put, object?_changeObject ho, if_pos rfl], o.onlyPut_put hslot⟩
  object_other h hne := by
    cases owner with
    | none => rfl
    | some h' =>
      obtain ⟨o, ho⟩ := Option.isSome_iff_exists.mp (hown h' rfl)
      rw [put, object?_changeObject ho, if_neg fun hh => hne (congrArg some hh.symm)]
  classOf := classOf_put hown f slot
  size := by
    cases owner with
    | none => rfl
    | some h =>
      obtain ⟨o, ho⟩ := Option.isSome_iff_exists.mp (hown h rfl)
      simp only [put, changeObject, ho, size, Heap.size, objects, withObjects, Heap.replace,
        Array.size_setIfInBounds]
  handle type := by
    cases owner with
    | none => rfl
    | some h =>
      obtain ⟨o, ho⟩ := Option.isSome_iff_exists.mp (hown h rfl)
      simp only [put, changeObject, ho]
      exact Heap.fst_allocate_replace ho _ type

end Arena

/-! ### What an operation does -/

namespace SlotOp

/-- The slot that an operation fills: a new one for a definition, and for a write the one that is
there, unless it is final. -/
def target? (slotAt : Option Handle → Field → Option Slot) : SlotOp → Option Slot
  | .defineField _ f t v | .defineStatic f t v => some (.new f t v)
  | .setField h f _ => (slotAt (some h) f).filter (!·.flags.isFinal)
  | .setStatic f _ => (slotAt none f).filter (!·.flags.isFinal)

/-- The slot that an operation stores: the one that it fills, with its value converted to the type
of the slot. -/
structure Stores (a : Arena) (op : SlotOp) (slot : Slot) : Prop where
  /-- The object is live. -/
  owned : a.Owned op.owner?
  /-- The slot is the one to be filled but for the value. -/
  filled : ∃ target stored, op.target? a.slotAt = some target ∧
    a.objects.fit target.ty op.value = some stored ∧ slot = { target with value := stored }

/-- All that an operation can do: it stores a slot, or it is refused and changes nothing. -/
inductive Does (a : Arena) (op : SlotOp) : EStateM.Result AccessError Arena Unit → Prop
  /-- The value fits, and the slot is put in its place. -/
  | stored {slot : Slot} : op.Stores a slot → Does a op (.ok () (a.put op.owner? op.field slot))
  /-- The value does not fit the slot. -/
  | unfit {target : Slot} : op.target? a.slotAt = some target →
      a.objects.fit target.ty op.value = none →
      Does a op
        (.error (.invalidArgument op.field.text target.ty.text (a.objects.describe op.value)) a)
  /-- The object is not live, although the value fits if there is a slot to be filled. -/
  | stale {h : Handle} : op.owner? = some h → a.object? h = none →
      (∀ target, op.target? a.slotAt = some target →
        (a.objects.fit target.ty op.value).isSome) →
      Does a op (.error (.staleHandle h.index) a)
  /-- There is no slot to be written. -/
  | missing : op.target? a.slotAt = none → a.slotAt op.owner? op.field = none →
      Does a op (.error (Heap.missing op.field) a)
  /-- The slot to be written is final. -/
  | final {slot : Slot} : op.target? a.slotAt = none → a.slotAt op.owner? op.field = some slot →
      Does a op (.error (.denied op.field.text "field is final") a)

theorem does_overwrite {a : Arena} {op : SlotOp} (hown : a.Owned op.owner?)
    (htarget : op.target? a.slotAt = (a.slotAt op.owner? op.field).filter (!·.flags.isFinal)) :
    op.Does a (a.overwrite op.owner? op.field op.value (a.slotAt op.owner? op.field)) := by
  cases hold : a.slotAt op.owner? op.field with
  | none =>
    rw [hold] at htarget
    exact .missing htarget hold
  | some old =>
    rw [hold] at htarget
    simp only [Arena.overwrite]
    split
    · next hfinal =>
      exact .final (by rw [htarget, Option.filter_some]; simp [hfinal]) hold
    · next hfinal =>
      have hfill : op.target? a.slotAt = some old := by
        rw [htarget, Option.filter_some]
        simp [hfinal]
      cases hfit : a.objects.fit old.ty op.value with
      | none => exact .unfit hfill hfit
      | some stored => exact .stored ⟨hown, old, stored, hfill, hfit, rfl⟩

/-- **An operation stores its slot or changes nothing.** -/
theorem does_edit (a : Arena) (op : SlotOp) : op.Does a (op.edit.run a) := by
  cases op with
  | defineField h f t v =>
    have htarget : target? a.slotAt (.defineField h f t v) = some (.new f t v) := rfl
    rw [edit, Arena.run_defineField]
    cases hfit : a.objects.fit t v with
    | none => exact .unfit htarget hfit
    | some stored =>
      cases ho : a.object? h with
      | none =>
        refine .stale rfl ho fun target heq => ?_
        rw [← Option.some.inj heq]
        exact Option.isSome_iff_exists.mpr ⟨stored, hfit⟩
      | some o =>
        have hslot : Stores a (.defineField h f t v) (.new f t stored) :=
          ⟨Arena.owned_some ho, _, stored, htarget, hfit, rfl⟩
        exact .stored hslot
  | defineStatic f t v =>
    have htarget : target? a.slotAt (.defineStatic f t v) = some (.new f t v) := rfl
    rw [edit, Arena.run_defineStatic]
    cases hfit : a.objects.fit t v with
    | none => exact .unfit htarget hfit
    | some stored =>
      have hslot : Stores a (.defineStatic f t v) (.new f t stored) :=
        ⟨Arena.owned_none a, _, stored, htarget, hfit, rfl⟩
      exact .stored hslot
  | setField h f v =>
    have htarget : target? a.slotAt (.setField h f v) =
        (a.slotAt (some h) f).filter (!·.flags.isFinal) := rfl
    rw [edit, Arena.run_setField]
    cases ho : a.object? h with
    | none =>
      have hat : a.slotAt (some h) f = none := by rw [Arena.slotAt, ho, Option.bind_none]
      rw [hat, Option.filter_none] at htarget
      refine .stale rfl ho fun target heq => ?_
      rw [htarget] at heq
      cases heq
    | some o =>
      have hat : a.slotAt (some h) f = o.slots.slot? f := by rw [Arena.slotAt, ho, Option.bind_some]
      simp only
      rw [← hat]
      exact does_overwrite (Arena.owned_some ho) htarget
  | setStatic f v =>
    have htarget : target? a.slotAt (.setStatic f v) =
        (a.slotAt none f).filter (!·.flags.isFinal) := rfl
    rw [edit, Arena.run_setStatic]
    exact does_overwrite (Arena.owned_none a) htarget

/-- The slot that is stored is one of the field. -/
theorem Stores.isFor {a : Arena} {op : SlotOp} {slot : Slot} (h : op.Stores a slot) :
    slot.isFor op.field = true := by
  obtain ⟨target, stored, htarget, -, rfl⟩ := h.filled
  have hfor : target.isFor op.field = true := by
    cases op with
    | defineField h f t v | defineStatic f t v =>
      rw [← Option.some.inj htarget]
      exact Slots.isFor_new f t v
    | setField h f v | setStatic f v =>
      exact Arena.isFor_of_slotAt (Option.filter_eq_some_iff.mp htarget).1
  exact hfor

end SlotOp

end FieldPath
