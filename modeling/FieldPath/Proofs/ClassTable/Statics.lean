import FieldPath.Proofs.ClassTable.Instances

/-!
# The fields of classes

The fields of classes are installed class by class, in an order that nobody fixes.  Whether an
initial value is taken depends on its type and on the classes of the objects, and no installed field
changes those.  A field has its slot under its own name, whether its class shares a bucket or not,
and no two declared fields are the same.  So the order makes no difference: all fields are installed
exactly if each of their values is acceptable, and then each one has its slot and every other field
has the slot that it had.

## Main definitions

* `Registry.staticFields`, `Registry.initialValue` — the fields of classes, and their values.
* `Registry.Installed` — the fields are installed, and nothing else is changed.
* `Registry.installIn` — the fields are installed in an arena, step by step.
* `Heap.Alike` — two heaps give the same answers.

## Main results

* `ClassTable.defineAll_statics` — all definitions together, up to the first one that is refused.
* `ClassTable.slot?_layOut` — each field of a layout has its slot, wherever it stands in the list.
* `Registry.ending_installIn` — an arena is filled as the heap that it represents.
* `installed_statics` — **the order of the classes makes no difference.**
-/

namespace FieldPath

/-! ### Lists -/

/-- What repeats an element is left out. -/
theorem nodup_eraseDups {α : Type} [BEq α] [LawfulBEq α] (l : List α) : l.eraseDups.Nodup := by
  match l with
  | [] => exact List.nodup_nil
  | a :: rest =>
    rw [List.eraseDups_cons, List.nodup_cons, List.mem_eraseDups]
    exact ⟨by simp, nodup_eraseDups _⟩
  termination_by l.length
  decreasing_by exact Nat.lt_succ_of_le (List.length_filter_le _ _)

/-- Lists with the same elements have equally many different ones. -/
theorem length_eraseDups_congr {α : Type} [BEq α] [LawfulBEq α] {l l' : List α}
    (h : ∀ a, a ∈ l ↔ a ∈ l') : l.eraseDups.length = l'.eraseDups.length := by
  have hperm : l.eraseDups.Perm l'.eraseDups :=
    (List.perm_ext_iff_of_nodup (nodup_eraseDups l) (nodup_eraseDups l')).mpr fun a => by
      rw [List.mem_eraseDups, List.mem_eraseDups, h]
  exact hperm.length_eq

/-! ### Slots -/

/-- A slot that is there already is put to no effect. -/
theorem Slots.put_of_slot? {slots : Slots} {f : Field} {s : Slot} (h : slots.slot? f = some s) :
    slots.put f s = slots := by
  induction slots with
  | nil => simp at h
  | cons s' rest ih =>
    rw [slot?_cons] at h
    rw [put]
    split
    · next hs' =>
      rw [if_pos hs'] at h
      rw [Option.some.inj h]
    · next hs' =>
      rw [if_neg hs'] at h
      rw [ih h]

/-- A list with one slot more has the class of that slot, and the classes it had. -/
theorem Slots.mem_map_declaring_put {slots : Slots} {f : Field} {s : Slot}
    (hs : s.isFor f = true) (c : ClassName) :
    c ∈ (slots.put f s).map (·.declaring) ↔ c = f.declaring ∨ c ∈ slots.map (·.declaring) := by
  have hdecl : s.declaring = f.declaring := (isFor_iff.mp hs).2
  induction slots with
  | nil => simp [put, hdecl]
  | cons s' rest ih =>
    rw [put]
    split
    · next hs' =>
      have hdecl' : s'.declaring = f.declaring := (isFor_iff.mp hs').2
      simp [hdecl, hdecl']
    · next hs' =>
      simp only [List.map_cons, List.mem_cons, ih, or_left_comm]

/-- Fields that are the same have one key. -/
theorem FieldDecl.key_eq_of_sameAs {d e : FieldDecl} (h : d.field.sameAs e.field = true) :
    d.key = e.key := by
  have hfields : d.field.name = e.field.name ∧ d.field.declaring = e.field.declaring := by
    simpa [Field.sameAs] using h
  rw [key, key, hfields.1, hfields.2]

namespace ClassTable

variable {t : ClassTable} {heap : Heap} {fields : List FieldDecl} {slots : Slots}

/-! ### Layouts in any order -/

/-- A layout leaves the other fields alone. -/
theorem slot?_layOut_of_other {f : Field} (hother : ∀ d ∈ fields, d.field.sameAs f = false) :
    (t.layOut heap fields slots).slot? f = slots.slot? f := by
  induction fields generalizing slots with
  | nil => rfl
  | cons d rest ih =>
    rw [layOut]
    split
    · rfl
    · next s hs =>
      have hnot : ¬ s.isFor f = true := by
        rw [Slot.isFor_eq_sameAs (isFor_of_slotFor? hs), hother d List.mem_cons_self]
        exact Bool.false_ne_true
      rw [ih fun e he => hother e (List.mem_cons_of_mem d he),
        Slots.slot?_put (isFor_of_slotFor? hs), if_neg hnot]

/-- **Each field of a complete layout has its slot**, wherever it stands in the list. -/
theorem slot?_layOut (hfit : ∀ d ∈ fields, (t.slotFor? heap d).isSome = true)
    (hkeys : (fields.map FieldDecl.key).Nodup) {d : FieldDecl} (hd : d ∈ fields) :
    (t.layOut heap fields slots).slot? d.field = t.slotFor? heap d := by
  induction fields generalizing slots with
  | nil => simp at hd
  | cons e rest ih =>
    obtain ⟨s, hs⟩ := Option.isSome_iff_exists.mp (hfit e List.mem_cons_self)
    rw [List.map_cons, List.nodup_cons] at hkeys
    rw [layOut, hs]
    simp only
    rcases List.mem_cons.mp hd with rfl | hd
    · -- none of the fields behind is the same, so the slot stays
      have hother : ∀ e ∈ rest, e.field.sameAs d.field = false := by
        intro e he
        rw [Bool.eq_false_iff]
        intro hsame
        exact hkeys.1 (FieldDecl.key_eq_of_sameAs hsame ▸ List.mem_map_of_mem he)
      rw [slot?_layOut_of_other hother, Slots.slot?_put_self (isFor_of_slotFor? hs), hs]
    · exact ih (fun f hf => hfit f (List.mem_cons_of_mem e hf)) hkeys.2 hd

/-- A layout of fields that have their slots already changes nothing. -/
theorem layOut_of_laid
    (hlaid : ∀ d ∈ fields, ∃ s, t.slotFor? heap d = some s ∧ slots.slot? d.field = some s) :
    t.layOut heap fields slots = slots := by
  induction fields with
  | nil => rfl
  | cons d rest ih =>
    obtain ⟨s, hs, hslot⟩ := hlaid d List.mem_cons_self
    rw [layOut, hs]
    simp only
    rw [Slots.put_of_slot? hslot]
    exact ih fun e he => hlaid e (List.mem_cons_of_mem d he)

/-- A complete layout adds the classes of its fields. -/
theorem mem_map_declaring_layOut (hfit : ∀ d ∈ fields, (t.slotFor? heap d).isSome = true)
    (c : ClassName) :
    c ∈ (t.layOut heap fields slots).map (·.declaring) ↔
      c ∈ slots.map (·.declaring) ∨ ∃ d ∈ fields, d.field.declaring = c := by
  induction fields generalizing slots with
  | nil => simp [layOut]
  | cons d rest ih =>
    obtain ⟨s, hs⟩ := Option.isSome_iff_exists.mp (hfit d List.mem_cons_self)
    rw [layOut, hs]
    simp only
    rw [ih fun e he => hfit e (List.mem_cons_of_mem d he),
      Slots.mem_map_declaring_put (isFor_of_slotFor? hs)]
    simp only [List.mem_cons, exists_eq_or_imp, eq_comm (a := c), or_assoc, or_left_comm]

/-! ### Definitions of fields of classes -/

theorem defineStatic_of_slotFor? {d : FieldDecl} {s : Slot} (hs : t.slotFor? heap d = some s) :
    heap.defineStatic d.field (t.typeOf d.field.valueClass) (t.initialValue d) =
      .ok { heap with statics := heap.statics.put d.field s } := by
  obtain ⟨stored, hfit, rfl⟩ := slotFor?_eq_some hs
  simp [Heap.defineStatic, Heap.convert, hfit, bind, Except.bind]

theorem defineStatic_of_slotFor?_none {d : FieldDecl} (hs : t.slotFor? heap d = none) :
    heap.defineStatic d.field (t.typeOf d.field.valueClass) (t.initialValue d) =
      .error (.invalidArgument d.field.text (t.typeOf d.field.valueClass).text
        (heap.describe (t.initialValue d))) := by
  have hfit := Option.map_eq_none_iff.mp hs
  simp [Heap.defineStatic, Heap.convert, hfit, bind, Except.bind]

/-- **All definitions together lay the fields out**, up to the first one that is refused. -/
theorem defineAll_statics (t : ClassTable) (fields : List FieldDecl) (heap : Heap) :
    t.defineAll Heap.defineStatic fields heap =
      ((match t.refusal? heap fields with
        | none => .ok ()
        | some e => .error e),
        { heap with statics := t.layOut heap fields heap.statics }) := by
  induction fields generalizing heap with
  | nil => rfl
  | cons d rest ih =>
    cases hs : t.slotFor? heap d with
    | none => simp [defineAll, defineStatic_of_slotFor?_none hs, refusal?, layOut, hs]
    | some s =>
      -- the objects stay, so the rest is laid out as in the heap before
      have hclass : ∀ h, ({ heap with statics := heap.statics.put d.field s } : Heap).classOf h =
          heap.classOf h := fun _ => rfl
      have hrefusal : t.refusal? heap (d :: rest) = t.refusal? heap rest := by
        simp [refusal?, hs]
      simp only [defineAll, defineStatic_of_slotFor? hs]
      rw [ih, refusal?_of_classOf hclass, layOut_of_classOf hclass, hrefusal, layOut, hs]

theorem refusal?_eq_none_iff {t : ClassTable} {heap : Heap} {fields : List FieldDecl} :
    t.refusal? heap fields = none ↔ ∀ d ∈ fields,
      heap.Acceptable (t.typeOf d.field.valueClass) (t.initialValue d) := by
  have hfits : ∀ d, (t.slotFor? heap d).isSome = true ↔
      heap.Acceptable (t.typeOf d.field.valueClass) (t.initialValue d) := by
    intro d
    rw [slotFor?, Option.isSome_map, Heap.isSome_fit]
  simp only [← hfits]
  refine ⟨refusal?_eq_none, fun h => ?_⟩
  rw [refusal?, Option.map_eq_none_iff, List.find?_eq_none]
  intro d hd
  simp [Option.isNone_eq_false_iff.mpr (h d hd)]

/-- **The fields of all classes are all different.** -/
theorem nodup_key_staticFields (hwf : t.WellFormed) :
    ((t.decls.flatMap (·.staticFields)).map FieldDecl.key).Nodup := by
  rw [List.map_flatMap, List.nodup_flatMap]
  have hnames : t.decls.Pairwise fun d e => d.name ≠ e.name :=
    List.pairwise_map.mp hwf.names_nodup
  refine ⟨fun d hd => ?_, hnames.imp_of_mem fun {d e} hd he hne => ?_⟩
  · have hkeys : (d.fields.map FieldDecl.key).Nodup := by
      refine List.Nodup.of_map Prod.snd ?_
      rw [List.map_map]
      exact hwf.fields_nodup d hd
    exact hkeys.sublist (List.filter_sublist.map _)
  · intro key hd' he'
    obtain ⟨f, hf, rfl⟩ := List.mem_map.mp hd'
    obtain ⟨g, hg, hkey⟩ := List.mem_map.mp he'
    have hdecl := hwf.declaring_eq d hd f (List.mem_of_mem_filter hf)
    have hdecl' := hwf.declaring_eq e he g (List.mem_of_mem_filter hg)
    exact hne (by rw [← hdecl, ← hdecl', (Prod.mk.inj hkey).1])

end ClassTable

/-! ### Arenas -/

/-- What an operation on an arena answers, and the arena as it is left. -/
def Arena.ending {ε : Type} : EStateM.Result ε Arena Unit → Except ε Unit × Arena
  | .ok _ a => (.ok (), a)
  | .error e a => (.error e, a)

namespace Registry

/-- The declared fields of all classes, in the order of registration. -/
def staticFields (r : Registry) : List FieldDecl := r.table.decls.flatMap (·.staticFields)

/-- The value that a declared field starts with: the declared one, or the zero of its type. -/
def initialValue (r : Registry) (d : FieldDecl) : Value :=
  d.initial.getD (.zero (r.typeOf d.field.valueClass))

/-- The listed fields of classes are defined in an arena, one after the other, up to the first
refusal. -/
def installIn (r : Registry) : List FieldDecl → EStateM RegistrationError Arena Unit
  | [] => return ()
  | d :: rest => do
      EStateM.adaptExcept (.invalidInitialValue d.field)
        (Arena.defineStatic d.field (r.typeOf d.field.valueClass) (r.initialValue d))
      r.installIn rest

/-- **An arena is filled as the heap that it represents**, also if a field is refused. -/
theorem ending_installIn (r : Registry) (fields : List FieldDecl) {a : Arena} {heap : Heap}
    (hrep : a.Represents heap) :
    (Arena.ending ((r.installIn fields).run a)).1 =
        (r.defineAll Heap.defineStatic fields heap).1 ∧
      (Arena.ending ((r.installIn fields).run a)).2.Represents
        (r.defineAll Heap.defineStatic fields heap).2 := by
  induction fields generalizing a heap with
  | nil => exact ⟨rfl, hrep⟩
  | cons d rest ih =>
    have hstep := Arena.run_defineStatic a d.field (r.typeOf d.field.valueClass) (r.initialValue d)
    rw [Heap.fit_congr hrep.objects, Heap.describe_congr hrep.objects] at hstep
    have hvalue : d.initial.getD (.zero (r.typeOf d.field.valueClass)) = r.initialValue d := rfl
    rw [installIn, EStateM.run_bind, EStateM.run_adaptExcept, hstep]
    simp only [defineAll, Heap.defineStatic, Heap.convert, hvalue]
    cases heap.fit (r.typeOf d.field.valueClass) (r.initialValue d) with
    | none => exact ⟨rfl, hrep⟩
    | some stored => exact ih (hrep.changeBucket (Slots.isFor_new _ _ stored))

/-! ### Installed fields -/

/-- The fields of classes are installed, and nothing else is changed. -/
structure Installed (r : Registry) (heap next : Heap) : Prop where
  /-- The objects are as they were. -/
  places : next.places = heap.places
  /-- The same places are vacant. -/
  vacant : next.vacant = heap.vacant
  /-- Each declared field of a class has a slot of its type and reads back as its initial value,
  converted to the type. -/
  declared : ∀ d ∈ r.staticFields, ∃ stored,
    heap.fit (r.typeOf d.field.valueClass) (r.initialValue d) = some stored ∧
    next.slotAt none d.field = some (.new d.field (r.typeOf d.field.valueClass) stored) ∧
    next.getStatic d.field = .ok stored
  /-- Every other field has the slot that it had. -/
  other : ∀ owner f, (owner = none → ∀ d ∈ r.staticFields, d.field.sameAs f = false) →
    next.slotAt owner f = heap.slotAt owner f
  /-- There are fields of the classes that had some, and of those that declare some. -/
  classes : ∀ c, c ∈ next.statics.map (·.declaring) ↔
    c ∈ heap.statics.map (·.declaring) ∨ ∃ d ∈ r.staticFields, d.field.declaring = c

end Registry

/-- The heaps have the same objects, the same fields, and the same counts. -/
structure Heap.Alike (heap heap' : Heap) : Prop where
  /-- The objects are the same. -/
  places : heap.places = heap'.places
  /-- The same places are vacant. -/
  vacant : heap.vacant = heap'.vacant
  /-- Each field of each object and each class has the same slot. -/
  slotAt : ∀ owner f, heap.slotAt owner f = heap'.slotAt owner f
  /-- The counts are the same. -/
  summary : heap.summary = heap'.summary

namespace Registry

/-- The order lists each declared class once. -/
def Enumerates (r : Registry) (order : List ClassDecl → List ClassDecl) : Prop :=
  (order r.table.decls).Perm r.table.decls

variable {r : Registry} {heap next next' : Heap} {order : List ClassDecl → List ClassDecl}

/-- In any order, the fields are the declared fields of all classes. -/
theorem Enumerates.perm (ho : r.Enumerates order) :
    (r.table.staticsIn order).Perm r.staticFields :=
  List.Perm.flatMap_right _ ho

theorem Consistent.initialValue (hr : r.Consistent) (d : FieldDecl) :
    r.initialValue d = r.table.initialValue d := by
  rw [Registry.initialValue, hr.typeOf]
  rfl

/-- A request to install the fields lays them out, up to the first one that is refused. -/
theorem Consistent.installStatics (hr : r.Consistent) (order : List ClassDecl → List ClassDecl)
    (heap : Heap) :
    r.installStatics order heap =
      ((match r.table.refusal? heap (r.table.staticsIn order) with
        | none => .ok ()
        | some e => .error e),
        { heap with
          statics := r.table.layOut heap (r.table.staticsIn order) heap.statics }) := by
  rw [Registry.installStatics, hr.defineAll, ClassTable.defineAll_statics]

/-- **The fields are installed exactly if their values are acceptable**, in any order. -/
theorem Consistent.installStatics_eq_ok_iff (hr : r.Consistent) (ho : r.Enumerates order) :
    (r.installStatics order heap).1 = .ok () ↔ ∀ d ∈ r.staticFields,
      heap.Acceptable (r.typeOf d.field.valueClass) (r.initialValue d) := by
  have hnone : (r.installStatics order heap).1 = .ok () ↔
      r.table.refusal? heap (r.table.staticsIn order) = none := by
    rw [hr.installStatics]
    cases r.table.refusal? heap (r.table.staticsIn order) <;> simp
  rw [hnone, ClassTable.refusal?_eq_none_iff]
  simp only [ho.perm.mem_iff, hr.typeOf, hr.initialValue]

/-- A refusal names a field whose value is not acceptable. -/
theorem Consistent.installStatics_eq_error (hr : r.Consistent) (ho : r.Enumerates order)
    {e : RegistrationError} (h : (r.installStatics order heap).1 = .error e) :
    ∃ d ∈ r.staticFields,
      ¬ heap.Acceptable (r.typeOf d.field.valueClass) (r.initialValue d) ∧
      e = .invalidInitialValue d.field (.invalidArgument d.field.text
        (r.typeOf d.field.valueClass).text (heap.describe (r.initialValue d))) := by
  rw [hr.installStatics] at h
  have he : r.table.refusal? heap (r.table.staticsIn order) = some e := by
    split at h
    · simp at h
    · next e' he => rw [he, Except.error.inj h]
  obtain ⟨done, d, rest, hsplit, -, hd, heq⟩ := ClassTable.refusal?_eq_some he
  have hmem : d ∈ r.table.staticsIn order := by rw [hsplit]; simp
  refine ⟨d, ho.perm.mem_iff.mp hmem, fun hacc => ?_, ?_⟩
  · rw [hr.typeOf, hr.initialValue, ← Heap.isSome_fit] at hacc
    rw [ClassTable.slotFor?, Option.map_eq_none_iff] at hd
    simp [hd] at hacc
  · rw [heq, hr.typeOf, hr.initialValue]

section Complete

variable (hr : r.Consistent) (hwf : r.table.WellFormed) (ho : r.Enumerates order)
  (hnext : r.installStatics order heap = (.ok (), next))
include hr hwf ho hnext

/-- What a complete layout does. -/
theorem Consistent.layOut_of_installStatics :
    (∀ d ∈ r.table.staticsIn order, (r.table.slotFor? heap d).isSome = true) ∧
      ((r.table.staticsIn order).map FieldDecl.key).Nodup ∧
      next = { heap with
        statics := r.table.layOut heap (r.table.staticsIn order) heap.statics } := by
  rw [hr.installStatics, Prod.mk.injEq] at hnext
  obtain ⟨hok, rfl⟩ := hnext
  have hnone : r.table.refusal? heap (r.table.staticsIn order) = none := by
    split at hok
    · next hnone => exact hnone
    · simp at hok
  refine ⟨ClassTable.refusal?_eq_none hnone, ?_, rfl⟩
  exact (ho.perm.map _).nodup_iff.mpr (ClassTable.nodup_key_staticFields hwf)

/-- **Every field is installed, and nothing else is changed.** -/
theorem Consistent.installed : r.Installed heap next := by
  obtain ⟨hfit, hkeys, rfl⟩ := hr.layOut_of_installStatics hwf ho hnext
  refine ⟨rfl, rfl, fun d hd => ?_, fun owner f hother => ?_, fun c => ?_⟩
  · have hd' := ho.perm.mem_iff.mpr hd
    obtain ⟨s, hs⟩ := Option.isSome_iff_exists.mp (hfit d hd')
    have hslot : (r.table.layOut heap (r.table.staticsIn order) heap.statics).slot? d.field =
        r.table.slotFor? heap d := ClassTable.slot?_layOut hfit hkeys hd'
    obtain ⟨stored, hstored, rfl⟩ := ClassTable.slotFor?_eq_some hs
    rw [hs] at hslot
    rw [hr.typeOf, hr.initialValue]
    exact ⟨stored, hstored, hslot, by rw [Heap.getStatic, hslot]; rfl⟩
  · cases owner with
    | some h => rfl
    | none =>
      exact ClassTable.slot?_layOut_of_other fun d hd =>
        hother rfl d (ho.perm.mem_iff.mp hd)
  · rw [ClassTable.mem_map_declaring_layOut hfit]
    simp only [ho.perm.mem_iff]

/-- Fields that are installed are installed again to no effect, in any order. -/
theorem Consistent.installStatics_again {order' : List ClassDecl → List ClassDecl}
    (ho' : r.Enumerates order') : r.installStatics order' next = (.ok (), next) := by
  obtain ⟨hfit, hkeys, rfl⟩ := hr.layOut_of_installStatics hwf ho hnext
  have hclass : ∀ h, ({ heap with
      statics := r.table.layOut heap (r.table.staticsIn order) heap.statics } : Heap).classOf h =
        heap.classOf h := fun _ => rfl
  have hmem : ∀ d, d ∈ r.table.staticsIn order' ↔ d ∈ r.table.staticsIn order := fun d => by
    rw [ho'.perm.mem_iff, ho.perm.mem_iff]
  have hnone : r.table.refusal? heap (r.table.staticsIn order') = none := by
    rw [ClassTable.refusal?_eq_none_iff]
    intro d hd
    rw [← Heap.isSome_fit]
    simpa [ClassTable.slotFor?] using hfit d ((hmem d).mp hd)
  have hlaid : r.table.layOut heap (r.table.staticsIn order')
      (r.table.layOut heap (r.table.staticsIn order) heap.statics) =
        r.table.layOut heap (r.table.staticsIn order) heap.statics := by
    refine ClassTable.layOut_of_laid fun d hd => ?_
    obtain ⟨s, hs⟩ := Option.isSome_iff_exists.mp (hfit d ((hmem d).mp hd))
    exact ⟨s, hs, by rw [ClassTable.slot?_layOut hfit hkeys ((hmem d).mp hd), hs]⟩
  rw [hr.installStatics, ClassTable.refusal?_of_classOf hclass,
    ClassTable.layOut_of_classOf hclass, hnone, hlaid]

end Complete

/-- Heaps in which the same fields are installed are alike. -/
theorem Installed.alike (h : r.Installed heap next) (h' : r.Installed heap next') :
    next.Alike next' := by
  have hslot : ∀ owner f, next.slotAt owner f = next'.slotAt owner f := by
    intro owner f
    by_cases hother : owner = none → ∀ d ∈ r.staticFields, d.field.sameAs f = false
    · rw [h.other owner f hother, h'.other owner f hother]
    · push Not at hother
      obtain ⟨rfl, d, hd, hsame⟩ := hother
      have hsame : d.field.sameAs f = true := by simpa using hsame
      obtain ⟨stored, hfit, hat, -⟩ := h.declared d hd
      obtain ⟨stored', hfit', hat', -⟩ := h'.declared d hd
      obtain rfl := Option.some.inj (hfit.symm.trans hfit')
      rw [← Heap.slotAt_congr hsame, hat, ← Heap.slotAt_congr hsame, hat']
  have hplaces : next.places = next'.places := h.places.trans h'.places.symm
  have hvacant : next.vacant = next'.vacant := h.vacant.trans h'.vacant.symm
  have hcount : next.staticClassCount = next'.staticClassCount := by
    have hdigests : ∀ heap : Heap, heap.staticClassCount =
        ((heap.statics.map (·.declaring)).map ClassName.hash).eraseDups.length := fun heap => by
      rw [List.map_map]
      rfl
    rw [hdigests, hdigests]
    exact length_eraseDups_congr fun digest => by simp only [List.mem_map (l := next.statics.map _),
      List.mem_map (l := next'.statics.map _), h.classes, h'.classes]
  refine ⟨hplaces, hvacant, hslot, ?_⟩
  unfold Heap.summary
  rw [hplaces, hvacant, hcount]

end Registry

/-- **The order in which the classes are taken makes no difference to their fields.**  The
declarations need not be built, as long as each lists the fields of its own class.  Installing
the fields of all classes succeeds in one order exactly if it succeeds in every order, which is
exactly if all initial values are acceptable; otherwise it is refused for a value that is not.  If
it succeeds, every declared field reads back as its value in its type, and all other fields and all
objects are as they were; every other order leaves a heap that is alike, and to install the fields
again changes nothing.  An arena, in which classes of one digest share a bucket, is filled just as
the heap that it represents. -/
theorem installed_statics (paths : PathSearch) (rules : NameRules) {history : List ClassDecl}
    (hown : ∀ d ∈ history, d.ListsOwn) (heap : Heap) :
    let r := Registry.after paths rules history
    ∀ order, r.Enumerates order →
      ((r.installStatics order heap).1 = .ok () ↔ ∀ d ∈ r.staticFields,
        heap.Acceptable (r.typeOf d.field.valueClass) (r.initialValue d)) ∧
      (∀ e, (r.installStatics order heap).1 = .error e → ∃ d ∈ r.staticFields,
        ¬ heap.Acceptable (r.typeOf d.field.valueClass) (r.initialValue d) ∧
        e = .invalidInitialValue d.field (.invalidArgument d.field.text
          (r.typeOf d.field.valueClass).text (heap.describe (r.initialValue d)))) ∧
      (∀ next, r.installStatics order heap = (.ok (), next) →
        r.Installed heap next ∧ ∀ order', r.Enumerates order' →
          r.installStatics order' next = (.ok (), next) ∧
          ∃ next', r.installStatics order' heap = (.ok (), next') ∧ next.Alike next') ∧
      ∀ a : Arena, a.Represents heap →
        (Arena.ending ((r.installIn (r.table.staticsIn order)).run a)).1 =
            (r.installStatics order heap).1 ∧
          (Arena.ending ((r.installIn (r.table.staticsIn order)).run a)).2.Represents
            (r.installStatics order heap).2 := by
  intro r order ho
  obtain ⟨hr, htable⟩ := Registry.after_spec paths rules history
  have hwf : r.table.WellFormed := by
    rw [htable]
    exact ClassTable.wellFormed_after rules hown
  refine ⟨hr.installStatics_eq_ok_iff ho, fun e => hr.installStatics_eq_error ho,
    fun next hnext => ?_, fun a hrep => r.ending_installIn _ hrep⟩
  have hinstalled := hr.installed hwf ho hnext
  refine ⟨hinstalled, fun order' ho' => ⟨hr.installStatics_again hwf ho hnext ho', ?_⟩⟩
  -- both orders are granted for the same reason
  have hok : (r.installStatics order' heap).1 = .ok () := by
    rw [hr.installStatics_eq_ok_iff ho', ← hr.installStatics_eq_ok_iff ho, hnext]
  have hnext' : r.installStatics order' heap = (.ok (), (r.installStatics order' heap).2) :=
    Prod.ext hok rfl
  exact ⟨_, hnext', hinstalled.alike (hr.installed hwf ho' hnext')⟩

namespace Tariff

/-- A class with a rate of its own, given as an `int`, and with a tariff that is not given. -/
def tariff : ClassDecl :=
  (({ name := ⟨"b.Tariff"⟩ } : ClassDecl).withStaticField "rate" (.primitive .long)
    (.int 4)).withField (.staticField ⟨"b.Tariff"⟩ "default" (.named ⟨"b.Tariff"⟩)) none

/-- The number of meters that were made. -/
def made : Field := .staticField Gauge.meter.name "made" (.primitive .int)

/-- The rate. -/
def rate : Field := .staticField tariff.name "rate" (.primitive .long)

/-- A heap with an object, in which seven meters were made. -/
def heap : Heap :=
  Heap.empty.run [.allocate ⟨⟨"a.Pump"⟩, []⟩, .defineStatic made (.primitive .int) (.int 7)]

end Tariff

open Tariff in
/-- The class that was registered last is taken first.  The rate is a `long` then, the count of
meters starts anew, and the other order changes nothing about it. -/
theorem installed_statics_tariff :
    let r := Registry.after .byLineage {} [Gauge.meter, tariff]
    r.Enumerates List.reverse ∧ ∃ next, r.installStatics List.reverse heap = (.ok (), next) ∧
      next.getStatic made = .ok (.int 0) ∧ next.getStatic rate = .ok (.long 4) ∧
      r.installStatics id next = (.ok (), next) := by
  intro r
  have hreverse : r.Enumerates List.reverse := List.reverse_perm _
  obtain ⟨hiff, -, hdone, -⟩ :=
    installed_statics .byLineage {} (by decide) heap List.reverse hreverse
  have hok : (r.installStatics List.reverse heap).1 = .ok () := by decide +kernel
  obtain ⟨next, hnext⟩ : ∃ next, r.installStatics List.reverse heap = (.ok (), next) :=
    ⟨_, Prod.ext hok rfl⟩
  obtain ⟨hinstalled, hagain⟩ := hdone next hnext
  have hreads : ∀ d ∈ r.staticFields, ∀ v,
      heap.fit (r.typeOf d.field.valueClass) (r.initialValue d) = some v →
      next.getStatic d.field = .ok v := by
    intro d hd v hv
    obtain ⟨stored, hstored, -, hread⟩ := hinstalled.declared d hd
    rw [hread, Option.some.inj (hstored.symm.trans hv)]
  refine ⟨hreverse, next, hnext, ?_, ?_, (hagain id (.refl _)).1⟩
  · exact hreads ⟨made, some (.int 0)⟩ (by decide +kernel) _ (by decide +kernel)
  · exact hreads ⟨rate, some (.int 4)⟩ (by decide +kernel) _ (by decide +kernel)

end FieldPath
