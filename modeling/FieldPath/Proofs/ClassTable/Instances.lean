import FieldPath.Proofs.ClassTable.Layout

/-!
# Instances of declared classes

What a registry with any history does when it is asked for an instance, in a heap with any history.
If the instance is made, its handle is new, and the object has one slot for each field of instances
of its lineage, with the initial value in the type of the field.  So every field that is found for a
class that it may stand for can be read, and the first slot of a name is that of the field that is
found for its own class.

If an initial value does not fit, the request is refused after the object was allocated.  The
object stays in the heap with the fields before that one, and nobody is told its handle.

## Main results

* `ClassTable.exists_made_of_instantiate` — an instance that is made has a complete layout.
* `ClassTable.exists_slot`, `ClassTable.valueOf?_of_fieldOf` — what is read from such a layout.
* `instance_layout` — **an instance has all its fields, and nothing else changes.**
* `refused_instance` — **what a refused request says and leaves behind.**
-/

namespace FieldPath

namespace ClassTable

variable {t : ClassTable} {heap : Heap}

/-! ### Tables with a history -/

theorem WellFormed.foldl_attempt {history : List ClassDecl} (ht : t.WellFormed)
    (hown : ∀ d ∈ history, d.ListsOwn) : (history.foldl attempt t).WellFormed := by
  induction history generalizing t with
  | nil => exact ht
  | cons d rest ih =>
    refine ih ?_ fun e he => hown e (List.mem_cons_of_mem _ he)
    unfold attempt
    split
    · next next hreg => exact ht.register (hown d List.mem_cons_self) hreg
    · exact ht

/-- A history of declarations that list their own fields makes a well-formed table. -/
theorem wellFormed_after (rules : NameRules) {history : List ClassDecl}
    (hown : ∀ d ∈ history, d.ListsOwn) : (after rules history).WellFormed :=
  WellFormed.foldl_attempt ⟨by simp, by simp, by simp⟩ hown

/-! ### Complete layouts -/

/-- **A request that is granted makes an instance with a complete layout.** -/
theorem exists_made_of_instantiate (ht : heap.Tidy) (hwf : t.WellFormed) {name : ClassName}
    {h : Handle} {next : Heap} (hdone : t.instantiate heap name = (.ok h, next)) :
    ∃ o slots, t.objectType? name = some o ∧ h = (heap.allocate o).1 ∧ Made heap o h slots next ∧
      List.Forall₂ (fun d s => t.slotFor? next d = some s)
        ((t.lineageDecls o).flatMap (·.instanceFields)) slots ∧ slots.Apart := by
  obtain ⟨-, hunknown, -⟩ | ⟨o, ho, hmade, houtcome⟩ := instantiate_cases ht hdone
  · simp at hunknown
  obtain ⟨rfl, hfits⟩ : h = (heap.allocate o).1 ∧
      t.refusal? next ((t.lineageDecls o).flatMap (·.instanceFields)) = none := by
    split at houtcome
    · next hnone => exact ⟨Except.ok.inj houtcome, hnone⟩
    · simp at houtcome
  have hkeys := nodup_key_instanceFields hwf ho
  have hempty : (([] : Slots).map Slot.key ++
      ((t.lineageDecls o).flatMap (·.instanceFields)).map FieldDecl.key).Nodup := hkeys
  obtain ⟨slots, hslots, hlaid⟩ := exists_made_layOut (refusal?_eq_none hfits) hempty
  rw [hlaid, List.nil_append] at hmade
  refine ⟨o, slots, ho, rfl, hmade, hslots, ?_⟩
  rw [Slots.Apart, ← map_key_of_forall₂ hslots]
  exact hkeys

section Complete

variable {o : ObjectType} {slots : Slots}
  (hslots : List.Forall₂ (fun d s => t.slotFor? heap d = some s)
    ((t.lineageDecls o).flatMap (·.instanceFields)) slots)
include hslots

/-- **Every field of instances has a slot.** -/
theorem exists_slot {fd : FieldDecl} (hfd : fd ∈ (t.lineageDecls o).flatMap (·.instanceFields)) :
    ∃ s, slots.slot? fd.field = some s := by
  have hsame : ∀ d s, t.slotFor? heap d = some s → d.field.sameAs fd.field = s.isFor fd.field :=
    fun d s hs => (Slot.isFor_eq_sameAs (isFor_of_slotFor? hs) fd.field).symm
  obtain ⟨d, hd⟩ : ∃ d, ((t.lineageDecls o).flatMap (·.instanceFields)).find?
      (·.field.sameAs fd.field) = some d :=
    Option.isSome_iff_exists.mp (List.find?_isSome.mpr ⟨fd, hfd, by simp [Field.sameAs]⟩)
  obtain ⟨s, hs, -⟩ := forall₂_find? hsame hslots hd
  exact ⟨s, hs⟩

/-- **The first slot of a name is that of the field that is found.** -/
theorem valueOf?_of_fieldOf {field : String} {f : Field} (hf : t.fieldOf o field = some f)
    (hinst : f.isStatic = false) :
    ∃ s, slots.slot? f = some s ∧ (⟨o, slots⟩ : HeapObject).valueOf? field = some s.value := by
  obtain ⟨hname, -⟩ := fieldOf_eq_some hf
  obtain ⟨fd, hfd, rfl⟩ := find?_instanceFields hinst hf
  have hnames : ∀ d s, t.slotFor? heap d = some s →
      (d.field.name == field) = (s.name == field) := fun d s hs => by
    rw [(Slots.isFor_iff.mp (isFor_of_slotFor? hs)).1]
  obtain ⟨s, hs, hfor⟩ := forall₂_find? hnames hslots hfd
  have hslot : slots.slot? fd.field = some s :=
    find?_of_imp hs (isFor_of_slotFor? hfor) fun s' hs' => by
      rw [(Slots.isFor_iff.mp hs').1, hname, beq_self_eq_true]
  exact ⟨s, hslot, by rw [HeapObject.valueOf?, hs]; rfl⟩

end Complete

/-- A field with a slot is read. -/
theorem Made.getField {o : ObjectType} {h : Handle} {slots : Slots} {next : Heap}
    (hmade : Made heap o h slots next) {f : Field} {s : Slot} (hs : slots.slot? f = some s) :
    next.getField h f = .ok s.value := by
  simp only [Heap.getField, hmade.get, hs]

end ClassTable

/-! ### Instances that are made -/

/-- **An instance has all its fields, and nothing else changes.**  The declarations of the history
need not be built; it is enough that each lists the fields of its own class.  The handle is new: no
earlier object had it, unless its place has been freed as often as there are generations.  The slots
are those of the fields of instances of the lineage, one each, with the declared initial value as it
is converted to the type of the field, or with the zero of the type.  Every field of instances that
is found for a class that the object may stand for can be read, if the digests tell the two classes
apart; and the value of the first slot of a name is the value of the field that is found for the
class of the object. -/
theorem instance_layout (paths : PathSearch) (rules : NameRules) {history : List ClassDecl}
    (hown : ∀ d ∈ history, d.ListsOwn) (ops : List HeapOp) {name : ClassName} {h : Handle}
    {next : Heap}
    (hdone : (Registry.after paths rules history).instantiate (Heap.empty.run ops) name =
      (.ok h, next)) :
    let r := Registry.after paths rules history
    ∃ o slots, r.objectType? name = some o ∧
      ClassTable.Made (Heap.empty.run ops) o h slots next ∧
      (∀ before type later, ops = before ++ .allocate type :: later →
        ((Heap.empty.run before).allocate type).1 = h →
        UInt32.size ≤ ((Heap.empty.run before).allocate type).2.frees h.index later) ∧
      List.Forall₂ (fun d s => r.table.slotFor? next d = some s ∧
          (d.initial = none → s.value = .zero (r.typeOf d.field.valueClass)))
        ((o.lineage.filterMap r.table.find?).flatMap (·.instanceFields)) slots ∧
      slots.Apart ∧
      (∀ n upper, r.objectType? n = some upper → (n.hash = name.hash → n = name) →
        upper.accepts o = true → ∀ field f, r.fieldOf upper field = some f → f.isStatic = false →
          ∃ v, next.getField h f = .ok v) ∧
      ∀ field f, r.fieldOf o field = some f → f.isStatic = false →
        ∃ v, (⟨o, slots⟩ : HeapObject).valueOf? field = some v ∧ next.getField h f = .ok v := by
  intro r
  obtain ⟨hconsistent, htable⟩ := Registry.after_spec paths rules history
  have hwf : r.table.WellFormed := by
    rw [htable]
    exact ClassTable.wellFormed_after rules hown
  have htidy := Heap.tidy_empty.run ops
  rw [hconsistent.instantiate] at hdone
  obtain ⟨o, slots, ho, rfl, hmade, hslots, hslotsApart⟩ :=
    ClassTable.exists_made_of_instantiate htidy hwf hdone
  have hobject : r.objectType? name = some o := by rw [hconsistent.objectType?, ho]
  refine ⟨o, slots, hobject, hmade, fun before type later hops hsame => ?_, ?_, hslotsApart,
    fun n upper hupper hapart hacc field f hf hinst => ?_, fun field f hf hinst => ?_⟩
  · have hrun : ((((Heap.empty.run before).allocate type).2.run later).allocate o).1 =
        ((Heap.empty.run before).allocate type).1 := by
      rw [hsame, hops, Heap.run_append]
      rfl
    rw [← hsame]
    exact (Heap.tidy_empty.run before).size_le_frees_of_reissued hrun
  · refine hslots.imp fun d s hs => ⟨hs, fun hinitial => ?_⟩
    rw [hconsistent.typeOf]
    exact ClassTable.value_of_slotFor? hs hinitial
  · rw [hconsistent.objectType?] at hupper
    have hmem := ClassTable.mem_lineage_of_accepts_apart hapart hupper ho hacc
    obtain ⟨-, d, hd, fd, hfd, rfl⟩ := ClassTable.fieldOf_eq_some (t := r.table) hf
    have hlisted : fd ∈ (r.table.lineageDecls o).flatMap (·.instanceFields) :=
      List.mem_flatMap.mpr ⟨d, ClassTable.lineageDecls_subset_of_mem hupper ho hmem hd,
        List.mem_filter.mpr ⟨hfd, by simpa using hinst⟩⟩
    obtain ⟨s, hs⟩ := ClassTable.exists_slot hslots hlisted
    exact ⟨s.value, hmade.getField hs⟩
  · obtain ⟨s, hs, hvalue⟩ := ClassTable.valueOf?_of_fieldOf hslots (f := f) hf hinst
    exact ⟨s.value, hvalue, hmade.getField hs⟩

namespace Gauge

/-- A class with a count that starts at five, and a count of its own. -/
def meter : ClassDecl :=
  (({ name := ⟨"a.Meter"⟩ } : ClassDecl).withField
    (.instanceField ⟨"a.Meter"⟩ "count" (.primitive .long)) (some (.int 5))).withStaticField
      "made" (.primitive .int) (.int 0)

/-- A class below it, which hides the count. -/
def gauge : ClassDecl :=
  (({ name := ⟨"a.Gauge"⟩ } : ClassDecl).extending meter.name).withInstanceField "count"
    (.primitive .double)

/-- A class whose second field cannot start with its initial value. -/
def broken : ClassDecl :=
  (({ name := ⟨"a.Broken"⟩ } : ClassDecl).withInstanceField "unit" (.primitive .int)).withField
    (.instanceField ⟨"a.Broken"⟩ "count" (.primitive .long)) (some .null)

end Gauge

open Gauge in
/-- A second object is made, of the lower class.  Its count is the one of its own class, and the
hidden one can be read too. -/
theorem instance_layout_gauge :
    let r := Registry.after .byLineage {} [meter, gauge]
    let heap := Heap.empty.run [.allocate ⟨⟨"a.Pump"⟩, []⟩]
    ∃ next o, r.instantiate heap gauge.name = (.ok ⟨1, 0⟩, next) ∧ next.get ⟨1, 0⟩ = some o ∧
      next.size = heap.size + 1 ∧ o.slots.length = 2 ∧
      (∃ v, o.valueOf? "count" = some v ∧
        next.getField ⟨1, 0⟩ (.instanceField gauge.name "count" (.primitive .double)) = .ok v) ∧
      ∃ v, next.getField ⟨1, 0⟩ (.instanceField meter.name "count" (.primitive .long)) = .ok v := by
  intro r heap
  have hok : (r.instantiate heap gauge.name).1 = .ok ⟨1, 0⟩ := rfl
  have hdone : r.instantiate heap gauge.name = (.ok ⟨1, 0⟩, (r.instantiate heap gauge.name).2) :=
    Prod.ext hok rfl
  obtain ⟨o, slots, ho, hmade, -, hslots, -, hupper, hown⟩ :=
    instance_layout .byLineage {} (by decide) [.allocate ⟨⟨"a.Pump"⟩, []⟩] hdone
  have ho' : r.objectType? gauge.name = some ⟨gauge.name, [meter.name]⟩ := by decide
  obtain rfl := Option.some.inj (ho.symm.trans ho')
  exact ⟨_, _, hdone, hmade.get, hmade.size, hslots.length_eq.symm.trans (by decide),
    hown "count" _ rfl rfl, hupper meter.name ⟨meter.name, []⟩ (by decide) (by decide +kernel)
      (by decide +kernel) "count" _ rfl rfl⟩

/-! ### Instances that are refused -/

/-- **What a refused request says and leaves behind.**  If the class is not declared, the heap is as
it was.  Otherwise there is a first field of the lineage whose initial value does not fit, which the
error names.  The heap has one more object, of the class that was asked for, with the slots of the
fields before that one; the other objects and the fields of classes are as they were. -/
theorem refused_instance (paths : PathSearch) (rules : NameRules) (history : List ClassDecl)
    (ops : List HeapOp) {name : ClassName} {e : RegistrationError} {next : Heap}
    (hrefused : (Registry.after paths rules history).instantiate (Heap.empty.run ops) name =
      (.error e, next)) :
    let r := Registry.after paths rules history
    (r.objectType? name = none ∧ e = .unknownType name ∧ next = Heap.empty.run ops) ∨
    ∃ o slots done d rest, r.objectType? name = some o ∧
      ClassTable.Made (Heap.empty.run ops) o ((Heap.empty.run ops).allocate o).1 slots next ∧
      (o.lineage.filterMap r.table.find?).flatMap (·.instanceFields) = done ++ d :: rest ∧
      (∀ f ∈ done, (slots.slot? f.field).isSome = true) ∧
      (∀ s ∈ slots, ∃ f ∈ done, r.table.slotFor? next f = some s) ∧
      r.table.slotFor? next d = none ∧
      e = .invalidInitialValue d.field (.invalidArgument d.field.text
        (r.typeOf d.field.valueClass).text (next.describe (r.table.initialValue d))) := by
  intro r
  have hconsistent := (Registry.after_spec paths rules history).1
  rw [hconsistent.instantiate] at hrefused
  obtain ⟨hnone, hunknown, hsame⟩ | ⟨o, ho, hmade, houtcome⟩ :=
    ClassTable.instantiate_cases (Heap.tidy_empty.run ops) hrefused
  · exact .inl ⟨by rw [hconsistent.objectType?, hnone], Except.error.inj hunknown, hsame⟩
  have he : r.table.refusal? next ((r.table.lineageDecls o).flatMap (·.instanceFields)) =
      some e := by
    split at houtcome
    · simp at houtcome
    · next e' he => rw [he, Except.error.inj houtcome]
  obtain ⟨done, d, rest, hsplit, hdone, hd, heq⟩ := ClassTable.refusal?_eq_some he
  rw [hsplit, ClassTable.layOut_append_refused hdone hd] at hmade
  refine .inr ⟨o, _, done, d, rest, by rw [hconsistent.objectType?, ho], hmade, hsplit,
    fun f hf => ?_, fun s hs => ?_, hd, by rw [heq, hconsistent.typeOf]⟩
  · exact ClassTable.isSome_slot?_layOut hdone (.inr ⟨f, hf, rfl⟩)
  · exact (ClassTable.mem_layOut hs).resolve_left (by simp)

open Gauge in
/-- The second field of the class does not take null, so the request is refused, and there is one
more object. -/
theorem refused_instance_broken :
    let r := Registry.after .byLineage {} [broken]
    ∃ e next, r.instantiate (Heap.empty.run []) broken.name = (.error e, next) ∧
      next.size = (Heap.empty.run []).size + 1 := by
  intro r
  obtain ⟨e, he⟩ : ∃ e, (r.instantiate (Heap.empty.run []) broken.name).1 = .error e := ⟨_, rfl⟩
  obtain ⟨hnone, -, -⟩ | ⟨o, slots, done, d, rest, -, hmade, -⟩ :=
    refused_instance .byLineage {} [broken] [] (Prod.ext he rfl)
  · exact absurd hnone (by decide)
  · exact ⟨e, _, Prod.ext he rfl, hmade.size⟩

open Gauge in
/-- In the empty heap, the refused request leaves an object with the field before the one that is
refused. -/
theorem broken_left_behind :
    let r := Registry.after .byLineage {} [broken]
    ∃ e next, r.instantiate Heap.empty broken.name = (.error e, next) ∧
      Heap.empty.size = 0 ∧ Heap.empty.get ⟨0, 0⟩ = none ∧ next.size = 1 ∧
      next.getField ⟨0, 0⟩ (.instanceField broken.name "unit" (.primitive .int)) =
        .ok (.int 0) := by
  intro r
  exact ⟨_, _, rfl, rfl, rfl, rfl, rfl⟩

end FieldPath
