import FieldPath.Proofs.ClassTable.Registered
import FieldPath.Proofs.Store.Typing

/-!
# Heaps populated from a class table

A heap is populated when it arises from the empty one by installing the fields of classes, making
instances, and writing fields, in any order.  In such a heap an object has a slot for every field
that its class or a class above it declares, and every slot holds a value of the type that the
table gives to its field.  So a field that the table finds for a class is there in each object that
may stand for that class, and in the classes themselves once their fields are installed.

## Main definitions

* `ClassTable.Populated` — the heaps that installing, instantiating and writing make.
* `ClassTable.Gives` — a slot is the one that the table makes for a declared field.
* `ClassTable.Sound` — objects have classes of the table, and slots hold values of their types.
* `ClassTable.LaidOut` — a sound heap in which no declared field is missing.
* `ClassTable.Used` — the heaps that writing and freeing make out of populated ones.

## Main results

* `Populated.laidOut` — **a populated heap is laid out.**
* `Used.shaped` — a heap that is used still holds values of the form of their types.
* `LaidOut.exists_slot`, `LaidOut.exists_static` — **a field that the table finds is there**, and
  holds a value of its type.
-/

namespace FieldPath

namespace ClassTable

variable {t : ClassTable}

/-! ### Populating -/

/-- The heaps that installing the fields of classes, making instances and writing fields make out
of the empty one.  The index tells whether the fields of classes have been installed. -/
inductive Populated (t : ClassTable) : Bool → Heap → Prop where
  /-- Nothing has been done. -/
  | empty : Populated t false Heap.empty
  /-- The fields of classes are installed. -/
  | installStatics {installed : Bool} {heap heap' : Heap} :
      Populated t installed heap → t.installStatics heap = (.ok (), heap') →
      Populated t true heap'
  /-- An instance is made. -/
  | instantiate {installed : Bool} {heap heap' : Heap} {name : ClassName} {h : Handle} :
      Populated t installed heap → t.instantiate heap name = (.ok h, heap') →
      Populated t installed heap'
  /-- A field of an object is written. -/
  | setField {installed : Bool} {heap heap' : Heap} {h : Handle} {f : Field} {v : Value} :
      Populated t installed heap → heap.setField h f v = .ok heap' → Populated t installed heap'
  /-- A field of a class is written. -/
  | setStatic {installed : Bool} {heap heap' : Heap} {f : Field} {v : Value} :
      Populated t installed heap → heap.setStatic f v = .ok heap' → Populated t installed heap'

/-! ### Invariants -/

/-- The slot is the one that the table makes for some field it declares, whatever its value. -/
def Gives (t : ClassTable) (s : Slot) : Prop :=
  ∃ f, t.Declares f ∧ s = .new f (t.typeOf f.valueClass) s.value

/-- The objects are of classes of the table, and every slot was made for a declared field and holds
a value of its type. -/
structure Sound (t : ClassTable) (heap : Heap) : Prop where
  /-- The list of vacant places is right. -/
  tidy : heap.Tidy
  /-- Every object is of a class of the table. -/
  classes : ∀ h o, heap.get h = some o → t.objectType? o.type.name = some o.type
  /-- Every slot is right. -/
  slots : heap.EverySlot fun s => t.Gives s ∧ heap.Holds s.ty s.value

/-- A sound heap in which no declared field is missing. -/
structure LaidOut (t : ClassTable) (installed : Bool) (heap : Heap) : Prop
    extends t.Sound heap where
  /-- An object has all fields of instances of its lineage. -/
  objects : ∀ h o, heap.get h = some o → ∀ d ∈ t.lineageDecls o.type, ∀ f ∈ d.instanceFields,
    (o.slots.slot? f.field).isSome
  /-- Once they are installed, the fields of all classes are there. -/
  statics : installed = true → ∀ d ∈ t.decls, ∀ f ∈ d.staticFields,
    (heap.statics.slot? f.field).isSome

/-- The slots of a sound heap are right in any heap that keeps its classes. -/
theorem Sound.slots_of_keepsClasses {heap heap' : Heap} (hs : t.Sound heap)
    (hk : heap.KeepsClasses heap') :
    heap.EverySlot fun s => t.Gives s ∧ heap'.Holds s.ty s.value :=
  hs.slots.mono fun _ h => ⟨h.1, h.2.mono hk⟩

theorem Gives.withValue {s : Slot} (h : t.Gives s) (v : Value) :
    t.Gives { s with value := v } := by
  obtain ⟨f, hf, hs⟩ := h
  refine ⟨f, hf, ?_⟩
  rw [hs]
  rfl

/-! ### Steps on sound heaps -/

theorem sound_empty (t : ClassTable) : t.Sound Heap.empty :=
  ⟨Heap.tidy_empty, by intro h o ho; simp [Heap.get, Heap.empty] at ho, Heap.EverySlot.empty⟩

theorem Sound.allocate {heap : Heap} (hs : t.Sound heap) {name : ClassName} {type : ObjectType}
    (htype : t.objectType? name = some type) : t.Sound (heap.allocate type).2 := by
  refine ⟨hs.tidy.allocate type, fun h o ho => ?_, ?_⟩
  · rw [hs.tidy.get_allocate] at ho
    split at ho
    · rw [← Option.some.inj ho, name_of_objectType? htype, htype]
    · exact hs.classes h o ho
  · exact (hs.slots_of_keepsClasses (hs.tidy.keepsClasses_allocate type)).allocate hs.tidy type

/-- Every object keeps its class if classes are kept one by one. -/
theorem Sound.classes_of_eq {heap heap' : Heap} (hs : t.Sound heap)
    (hc : ∀ h, heap'.classOf h = heap.classOf h) :
    ∀ h o, heap'.get h = some o → t.objectType? o.type.name = some o.type := by
  intro h o ho
  have hclass : heap.classOf h = some o.type := by rw [← hc, Heap.classOf, ho, Option.map_some]
  obtain ⟨o', ho', htype⟩ := Option.map_eq_some_iff.mp hclass
  rw [← htype]
  exact hs.classes h o' ho'

theorem Sound.setField {heap heap' : Heap} (hs : t.Sound heap) {h : Handle} {f : Field} {v : Value}
    (hset : heap.setField h f v = .ok heap') : t.Sound heap' := by
  have hclass := Heap.classOf_setField hset
  have hkeeps := Heap.keepsClasses_of_eq hclass
  refine ⟨?_, hs.classes_of_eq hclass, (hs.slots_of_keepsClasses hkeeps).setField hset ?_⟩
  · obtain ⟨o, slot, stored, ho, -, -, -, rfl⟩ := Heap.setField_eq_ok hset
    exact hs.tidy.replace ho _
  · intro s stored hgives hfit
    exact ⟨hgives.1.withValue stored, (Heap.holds_of_fit hfit).mono hkeeps⟩

theorem Sound.setStatic {heap heap' : Heap} (hs : t.Sound heap) {f : Field} {v : Value}
    (hset : heap.setStatic f v = .ok heap') : t.Sound heap' := by
  have hclass := Heap.classOf_setStatic hset
  have hkeeps := Heap.keepsClasses_of_eq hclass
  refine ⟨?_, hs.classes_of_eq hclass, (hs.slots_of_keepsClasses hkeeps).setStatic hset ?_⟩
  · obtain ⟨slot, stored, -, -, -, rfl⟩ := Heap.setStatic_eq_ok hset
    exact ⟨hs.tidy.nodup, hs.tidy.mem_vacant⟩
  · intro s stored hgives hfit
    exact ⟨hgives.1.withValue stored, (Heap.holds_of_fit hfit).mono hkeeps⟩

/-- A declared field defined in an object, with its type, keeps the heap sound. -/
theorem Sound.defineField {heap heap' : Heap} (hs : t.Sound heap) {h : Handle} {f : Field}
    {v : Value} (hf : t.Declares f)
    (hdef : heap.defineField h f (t.typeOf f.valueClass) v = .ok heap') : t.Sound heap' := by
  have hclass := Heap.classOf_defineField hdef
  have hkeeps := Heap.keepsClasses_of_eq hclass
  refine ⟨?_, hs.classes_of_eq hclass, (hs.slots_of_keepsClasses hkeeps).defineField hdef ?_⟩
  · obtain ⟨o, stored, ho, -, rfl⟩ := Heap.defineField_eq_ok hdef
    exact hs.tidy.replace ho _
  · intro stored hfit
    exact ⟨⟨f, hf, rfl⟩, (Heap.holds_of_fit hfit).mono hkeeps⟩

theorem Sound.defineStatic {heap heap' : Heap} (hs : t.Sound heap) {f : Field} {v : Value}
    (hf : t.Declares f) (hdef : heap.defineStatic f (t.typeOf f.valueClass) v = .ok heap') :
    t.Sound heap' := by
  have hclass := Heap.classOf_defineStatic hdef
  have hkeeps := Heap.keepsClasses_of_eq hclass
  refine ⟨?_, hs.classes_of_eq hclass, (hs.slots_of_keepsClasses hkeeps).defineStatic hdef ?_⟩
  · obtain ⟨stored, -, rfl⟩ := Heap.defineStatic_eq_ok hdef
    exact ⟨hs.tidy.nodup, hs.tidy.mem_vacant⟩
  · intro stored hfit
    exact ⟨⟨f, hf, rfl⟩, (Heap.holds_of_fit hfit).mono hkeeps⟩

/-! ### Runs of definitions -/

/-- **What every definition keeps holds after all of them.**  The invariant may speak of the fields
defined so far. -/
theorem defineAll_induction {define : Heap → Field → Ty → Value → Except AccessError Heap}
    (I : List FieldDecl → Heap → Prop) :
    ∀ (fields done : List FieldDecl) (heap heap' : Heap),
      (∀ d ∈ fields, ∀ done heap heap', I done heap →
        define heap d.field (t.typeOf d.field.valueClass) (t.initialValue d) = .ok heap' →
        I (done ++ [d]) heap') →
      I done heap → t.defineAll define fields heap = (.ok (), heap') →
      I (done ++ fields) heap' := by
  intro fields
  induction fields with
  | nil =>
    intro done heap heap' _ hI h
    obtain rfl : heap = heap' := by simpa [defineAll] using h
    rw [List.append_nil]
    exact hI
  | cons d rest ih =>
    intro done heap heap' hstep hI h
    simp only [defineAll] at h
    split at h
    · simp at h
    · next next hnext =>
      have hrest := ih (done ++ [d]) next heap'
        (fun e he => hstep e (List.mem_cons_of_mem _ he))
        (hstep d List.mem_cons_self done heap next hI hnext) h
      rwa [List.append_assoc, List.singleton_append] at hrest

theorem mem_instanceFields {type : ObjectType} {f : FieldDecl} :
    f ∈ (t.lineageDecls type).flatMap (·.instanceFields) ↔
      ∃ d ∈ t.lineageDecls type, f ∈ d.instanceFields := List.mem_flatMap

theorem declares_of_mem_instanceFields {type : ObjectType} {f : FieldDecl}
    (h : f ∈ (t.lineageDecls type).flatMap (·.instanceFields)) : t.Declares f.field := by
  obtain ⟨d, hd, hf⟩ := mem_instanceFields.mp h
  exact ⟨d, mem_decls_of_mem_lineageDecls hd, f, List.mem_of_mem_filter hf, rfl⟩

theorem declares_of_mem_staticFields {f : FieldDecl}
    (h : f ∈ t.decls.flatMap (·.staticFields)) : t.Declares f.field := by
  obtain ⟨d, hd, hf⟩ := List.mem_flatMap.mp h
  exact ⟨d, hd, f, List.mem_of_mem_filter hf, rfl⟩

/-- The definitions of an instance: the heap stays sound, the other objects and the fields of
classes stay as they are, and the object gets every field. -/
theorem defineAll_defineField {heap heap' : Heap} {h : Handle} {o : HeapObject}
    {fields : List FieldDecl} (hfields : ∀ d ∈ fields, t.Declares d.field) (hs : t.Sound heap)
    (ho : heap.get h = some o)
    (hall : t.defineAll (fun heap => heap.defineField h) fields heap = (.ok (), heap')) :
    t.Sound heap' ∧ heap'.statics = heap.statics ∧ (∀ h', h' ≠ h → heap'.get h' = heap.get h') ∧
      ∃ slots, heap'.get h = some ⟨o.type, slots⟩ ∧
        ∀ d ∈ fields, (slots.slot? d.field).isSome := by
  refine defineAll_induction (fun done now => t.Sound now ∧ now.statics = heap.statics ∧
    (∀ h', h' ≠ h → now.get h' = heap.get h') ∧ ∃ slots, now.get h = some ⟨o.type, slots⟩ ∧
      ∀ d ∈ done, (slots.slot? d.field).isSome) fields [] heap heap' ?_ ?_ hall
  · rintro d hd done now next ⟨hsound, hstatics, hothers, slots, hget, hdone⟩ hdef
    refine ⟨hsound.defineField (hfields d hd) hdef, ?_⟩
    obtain ⟨o', stored, ho', -, rfl⟩ := Heap.defineField_eq_ok hdef
    rw [hget] at ho'
    obtain rfl := Option.some.inj ho'
    -- the definition replaced this object alone, and put one more slot into it
    refine ⟨hstatics, fun h' hne => ?_, _, by rw [Heap.get_replace hget, if_pos rfl], ?_⟩
    · rw [Heap.get_replace hget, if_neg hne]
      exact hothers h' hne
    · intro e he
      rcases List.mem_append.mp he with he | he
      · exact Slots.isSome_slot?_put (Slots.isFor_new _ _ _) (hdone e he)
      · rw [List.mem_singleton.mp he, Slots.slot?_put_self (Slots.isFor_new _ _ _)]
        rfl
  · exact ⟨hs, rfl, fun _ _ => rfl, o.slots, ho, by simp⟩

/-- The definitions of the fields of classes: the heap stays sound, the objects stay as they are,
and every field is there. -/
theorem defineAll_defineStatic {heap heap' : Heap} {fields : List FieldDecl}
    (hfields : ∀ d ∈ fields, t.Declares d.field) (hs : t.Sound heap)
    (hall : t.defineAll Heap.defineStatic fields heap = (.ok (), heap')) :
    t.Sound heap' ∧ (∀ h, heap'.get h = heap.get h) ∧
      ∀ d ∈ fields, (heap'.statics.slot? d.field).isSome := by
  refine defineAll_induction (fun done now => t.Sound now ∧ (∀ h, now.get h = heap.get h) ∧
    ∀ d ∈ done, (now.statics.slot? d.field).isSome) fields [] heap heap' ?_ ?_ hall
  · rintro d hd done now next ⟨hsound, hget, hdone⟩ hdef
    refine ⟨hsound.defineStatic (hfields d hd) hdef, fun h => ?_, fun e he => ?_⟩
    · rw [Heap.get_defineStatic hdef, hget]
    · obtain ⟨stored, -, rfl⟩ := Heap.defineStatic_eq_ok hdef
      rcases List.mem_append.mp he with he | he
      · exact Slots.isSome_slot?_put (Slots.isFor_new _ _ _) (hdone e he)
      · rw [List.mem_singleton.mp he, Slots.slot?_put_self (Slots.isFor_new _ _ _)]
        rfl
  · exact ⟨hs, fun _ => rfl, by simp⟩

/-! ### Populated heaps are laid out -/

/-- A successful instantiation allocates an object of the class and defines its fields. -/
theorem instantiate_eq_ok {heap heap' : Heap} {name : ClassName} {h : Handle}
    (hinst : t.instantiate heap name = (.ok h, heap')) :
    ∃ type, t.objectType? name = some type ∧ h = (heap.allocate type).1 ∧
      t.defineAll (fun heap => heap.defineField h)
        ((t.lineageDecls type).flatMap (·.instanceFields)) (heap.allocate type).2
        = (.ok (), heap') := by
  unfold instantiate at hinst
  split at hinst
  · simp at hinst
  · next type htype =>
    simp only [Prod.mk.injEq] at hinst
    obtain ⟨houtcome, hheap⟩ := hinst
    cases hrun : t.defineAll (fun next => next.defineField (heap.allocate type).1)
        ((t.lineageDecls type).flatMap (·.instanceFields)) (heap.allocate type).2 with
    | mk outcome final =>
      rw [hrun] at houtcome hheap
      cases outcome with
      | error e => simp [Except.map] at houtcome
      | ok u =>
        obtain rfl : (heap.allocate type).1 = h := by simpa [Except.map] using houtcome
        exact ⟨type, htype, rfl, by rw [hrun, ← hheap]⟩

theorem LaidOut.installStatics {installed : Bool} {heap heap' : Heap}
    (hl : t.LaidOut installed heap)
    (hinst : t.installStatics heap = (.ok (), heap')) : t.LaidOut true heap' := by
  obtain ⟨hsound, hget, hfields⟩ :=
    defineAll_defineStatic (fun d hd => declares_of_mem_staticFields hd) hl.toSound hinst
  refine ⟨hsound, fun h o ho => ?_, fun _ d hd f hf => hfields f (List.mem_flatMap.mpr ⟨d, hd, hf⟩)⟩
  rw [hget] at ho
  exact hl.objects h o ho

theorem LaidOut.instantiate {installed : Bool} {heap heap' : Heap} (hl : t.LaidOut installed heap)
    {name : ClassName} {h : Handle} (hinst : t.instantiate heap name = (.ok h, heap')) :
    t.LaidOut installed heap' := by
  obtain ⟨type, htype, rfl, hall⟩ := instantiate_eq_ok hinst
  have hnew := hl.tidy.get_allocate type
  obtain ⟨hsound, hstatics, hothers, slots, hget, hfields⟩ :=
    defineAll_defineField (fun d hd => declares_of_mem_instanceFields hd)
      (hl.toSound.allocate htype) (by rw [hnew, if_pos rfl]) hall
  -- the new object has all that was defined for it, and the others are as they were
  refine ⟨hsound, fun h' o ho d hd f hf => ?_, fun hinst d hd f hf => ?_⟩
  · by_cases hh : h' = (heap.allocate type).1
    · subst hh
      rw [hget] at ho
      obtain rfl := Option.some.inj ho
      exact hfields f (mem_instanceFields.mpr ⟨d, hd, hf⟩)
    · rw [hothers h' hh, hnew, if_neg hh] at ho
      exact hl.objects h' o ho d hd f hf
  · rw [hstatics]
    exact hl.statics hinst d hd f hf

theorem LaidOut.setField {installed : Bool} {heap heap' : Heap} (hl : t.LaidOut installed heap)
    {h : Handle} {f : Field} {v : Value} (hset : heap.setField h f v = .ok heap') :
    t.LaidOut installed heap' := by
  refine ⟨hl.toSound.setField hset, fun h' o ho d hd e he => ?_, fun hinst d hd e he => ?_⟩
  · obtain ⟨o', slot, stored, ho', -, -, -, rfl⟩ := Heap.setField_eq_ok hset
    rw [Heap.get_replace ho'] at ho
    split at ho
    · obtain rfl := Option.some.inj ho
      rw [Slots.isSome_slot?_write]
      exact hl.objects h o' ho' d hd e he
    · exact hl.objects h' o ho d hd e he
  · obtain ⟨o', slot, stored, -, -, -, -, rfl⟩ := Heap.setField_eq_ok hset
    exact hl.statics hinst d hd e he

theorem LaidOut.setStatic {installed : Bool} {heap heap' : Heap} (hl : t.LaidOut installed heap)
    {f : Field} {v : Value} (hset : heap.setStatic f v = .ok heap') :
    t.LaidOut installed heap' := by
  refine ⟨hl.toSound.setStatic hset, fun h o ho => ?_, fun hinst d hd e he => ?_⟩
  · rw [Heap.get_setStatic hset] at ho
    exact hl.objects h o ho
  · obtain ⟨slot, stored, -, -, -, rfl⟩ := Heap.setStatic_eq_ok hset
    rw [Slots.isSome_slot?_write]
    exact hl.statics hinst d hd e he

/-- **A populated heap is laid out.** -/
theorem Populated.laidOut {installed : Bool} {heap : Heap} (h : t.Populated installed heap) :
    t.LaidOut installed heap := by
  induction h with
  | empty =>
    refine ⟨sound_empty t, fun h o ho => ?_, by simp⟩
    simp [Heap.get, Heap.empty] at ho
  | installStatics _ hinst ih => exact ih.installStatics hinst
  | instantiate _ hinst ih => exact ih.instantiate hinst
  | setField _ hset ih => exact ih.setField hset
  | setStatic _ hset ih => exact ih.setStatic hset

/-! ### Heaps in use -/

/-- The heaps that writing fields and freeing objects make out of populated ones. -/
inductive Used (t : ClassTable) : Heap → Prop where
  /-- The heap is populated. -/
  | populated {installed : Bool} {heap : Heap} : Populated t installed heap → Used t heap
  /-- A field of an object is written. -/
  | setField {heap heap' : Heap} {h : Handle} {f : Field} {v : Value} :
      Used t heap → heap.setField h f v = .ok heap' → Used t heap'
  /-- A field of a class is written. -/
  | setStatic {heap heap' : Heap} {f : Field} {v : Value} :
      Used t heap → heap.setStatic f v = .ok heap' → Used t heap'
  /-- An object is freed, or nothing if the handle is of none. -/
  | free {heap : Heap} (h : Handle) : Used t heap → Used t (heap.free h)

/-- **In a heap that is used, every slot holds a value of the form of its type.**  References to
freed objects may be left. -/
theorem Used.shaped {heap : Heap} (h : t.Used heap) :
    heap.EverySlot fun s => t.Gives s ∧ s.ty.Shapes s.value := by
  have hstored : ∀ {heap : Heap} {v : Value} s stored, t.Gives s ∧ s.ty.Shapes s.value →
      heap.fit s.ty v = some stored → t.Gives { s with value := stored } ∧ s.ty.Shapes stored :=
    fun s stored hs hfit => ⟨hs.1.withValue stored, (Heap.holds_of_fit hfit).shapes⟩
  induction h with
  | populated hpop => exact hpop.laidOut.slots.mono fun s hs => ⟨hs.1, hs.2.shapes⟩
  | setField _ hset ih => exact ih.setField hset hstored
  | setStatic _ hset ih => exact ih.setStatic hset hstored
  | free h _ ih => exact ih.free h

/-! ### Accesses to fields that the table finds -/

/-- A slot that the table gives, and that is for a declared field, is the one made for it. -/
theorem Gives.eq_new (ht : t.WellFormed) {s : Slot} {f : Field} (hs : t.Gives s)
    (hf : t.Declares f) (hfor : s.isFor f = true) : s = .new f (t.typeOf f.valueClass) s.value := by
  obtain ⟨g, hg, hsg⟩ := hs
  have hforg : s.isFor g = true := by
    rw [hsg]
    exact Slots.isFor_new _ _ _
  obtain ⟨hname, hdecl⟩ := Slots.isFor_iff.mp hfor
  obtain ⟨hname', hdecl'⟩ := Slots.isFor_iff.mp hforg
  have hgf : g = f := ht.eq_of_declares hg hf (hdecl'.symm.trans hdecl) (hname'.symm.trans hname)
  rw [← hgf]
  exact hsg

/-- An object that may stand for a class has each field of instances that the table finds for the
class, with the type of the field. -/
theorem LaidOut.exists_slot {installed : Bool} {heap : Heap} (ht : t.WellFormed)
    (hash : t.HashesApart) (hl : t.LaidOut installed heap) {n : ClassName} {upper : ObjectType}
    (hupper : t.objectType? n = some upper) {name : String} {f : Field}
    (hf : t.fieldOf upper name = some f) (hinst : f.isStatic = false) {h : Handle}
    {o : HeapObject} (ho : heap.get h = some o) (hacc : upper.accepts o.type = true) :
    ∃ s, o.slots.slot? f = some s ∧ s.ty = t.typeOf f.valueClass ∧ heap.Holds s.ty s.value := by
  obtain ⟨-, d, hd, fd, hfd, rfl⟩ := fieldOf_eq_some hf
  -- the object's own class has every declaration of the class it stands for
  have hlower := lineageDecls_subset hash hupper (hl.classes h o ho) hacc hd
  have hsome := hl.objects h o ho d hlower fd
    (List.mem_filter.mpr ⟨hfd, by simpa [Field.isStatic] using hinst⟩)
  obtain ⟨s, hs⟩ := Option.isSome_iff_exists.mp hsome
  obtain ⟨hmem, hfor⟩ := Slots.mem_of_slot?_eq_some hs
  obtain ⟨hgives, hholds⟩ := hl.slots.ofObject h o ho s hmem
  have hnew := hgives.eq_new ht (declares_of_fieldOf hf) hfor
  exact ⟨s, hs, by rw [hnew]; rfl, hholds⟩

/-- Once the fields of classes are installed, each of them that the table finds is there, with the
type of the field. -/
theorem LaidOut.exists_static {heap : Heap} (ht : t.WellFormed) (hl : t.LaidOut true heap)
    {upper : ObjectType} {name : String} {f : Field} (hf : t.fieldOf upper name = some f)
    (hstatic : f.isStatic = true) :
    ∃ s, heap.statics.slot? f = some s ∧ s.ty = t.typeOf f.valueClass ∧
      heap.Holds s.ty s.value := by
  obtain ⟨-, d, hd, fd, hfd, rfl⟩ := fieldOf_eq_some hf
  have hsome := hl.statics rfl d (mem_decls_of_mem_lineageDecls hd) fd
    (List.mem_filter.mpr ⟨hfd, hstatic⟩)
  obtain ⟨s, hs⟩ := Option.isSome_iff_exists.mp hsome
  obtain ⟨hmem, hfor⟩ := Slots.mem_of_slot?_eq_some hs
  obtain ⟨hgives, hholds⟩ := hl.slots.ofClass s hmem
  have hnew := hgives.eq_new ht (declares_of_fieldOf hf) hfor
  exact ⟨s, hs, by rw [hnew]; rfl, hholds⟩

/-- A value that is read from a field of an object has the form of the field's type. -/
theorem Used.shapes_getField {heap : Heap} (ht : t.WellFormed) (hu : t.Used heap) {h : Handle}
    {f : Field} (hf : t.Declares f) {v : Value} (hget : heap.getField h f = .ok v) :
    (t.typeOf f.valueClass).Shapes v := by
  unfold Heap.getField at hget
  split at hget
  · simp at hget
  · next o ho =>
    split at hget
    · simp at hget
    · next s hs =>
      obtain ⟨hmem, hfor⟩ := Slots.mem_of_slot?_eq_some hs
      obtain ⟨hgives, hshapes⟩ := hu.shaped.ofObject h o ho s hmem
      rw [hgives.eq_new ht hf hfor] at hshapes
      rw [← Except.ok.inj hget]
      exact hshapes

/-- A value that is read from a field of a class has the form of the field's type. -/
theorem Used.shapes_getStatic {heap : Heap} (ht : t.WellFormed) (hu : t.Used heap) {f : Field}
    (hf : t.Declares f) {v : Value} (hget : heap.getStatic f = .ok v) :
    (t.typeOf f.valueClass).Shapes v := by
  unfold Heap.getStatic at hget
  split at hget
  · simp at hget
  · next s hs =>
    obtain ⟨hmem, hfor⟩ := Slots.mem_of_slot?_eq_some hs
    obtain ⟨hgives, hshapes⟩ := hu.shaped.ofClass s hmem
    rw [hgives.eq_new ht hf hfor] at hshapes
    rw [← Except.ok.inj hget]
    exact hshapes

end ClassTable

end FieldPath
