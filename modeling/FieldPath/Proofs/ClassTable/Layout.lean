import FieldPath.Proofs.ClassTable.BreadthFirst
import FieldPath.Proofs.Store.Acceptance
import FieldPath.Proofs.Store.Generations
import Mathlib.Data.List.Forall2

/-!
# The layout of an instance

An instance is made in one place of the heap: the place is allocated, and then the fields of its
class and of the classes above it are put into it one after the other.  No field that is put in
changes what fits a type, since objects keep their classes.  So the whole layout can be read off the
heap with the empty object: it goes on up to the first field whose initial value does not fit, and
that field is the reason for a refusal.

The fields of a lineage are all different, since each class of it is listed once and declares every
name once.  A complete layout is then one slot for each of them, in their order, and the slot that
is first found for a name is that of the field that the table finds.

## Main definitions

* `ClassTable.slotFor?` — the slot that is made for a declared field.
* `ClassTable.layOut`, `ClassTable.refusal?` — the slots that are laid out, and what ended it.
* `ClassTable.Made` — a heap has one more object than another, and no other difference.

## Main results

* `ClassTable.defineAll_eq` — **all definitions of an object are one change of it.**
* `ClassTable.instantiate_cases` — what a request for an instance does, whatever its outcome.
* `ClassTable.exists_made_layOut` — a complete layout has one slot for each field.
* `ClassTable.find?_instanceFields` — the field that the table finds is the first of its name.
-/

namespace FieldPath

/-! ### Lists -/

section Lists

variable {α β : Type}

/-- A narrower test that the first find passes has the same first find. -/
theorem find?_of_imp {p q : α → Bool} {l : List α} {a : α} (h : l.find? p = some a)
    (hq : q a = true) (himp : ∀ x, q x = true → p x = true) : l.find? q = some a := by
  obtain ⟨-, before, after, hsplit, hnone⟩ := List.find?_eq_some_iff_append.mp h
  refine List.find?_eq_some_iff_append.mpr ⟨hq, before, after, hsplit, fun x hx => ?_⟩
  have hpx := hnone x hx
  cases hqx : q x with
  | false => rfl
  | true => simp [himp x hqx] at hpx

/-- Related lists have related first finds. -/
theorem forall₂_find? {R : α → β → Prop} {p : α → Bool} {q : β → Bool}
    (hpq : ∀ a b, R a b → p a = q b) {l : List α} {l' : List β} (h : List.Forall₂ R l l') {a : α}
    (ha : l.find? p = some a) : ∃ b, l'.find? q = some b ∧ R a b := by
  induction h with
  | nil => simp at ha
  | @cons x y xs ys hxy hrest ih =>
    rw [List.find?_cons, hpq x y hxy] at ha
    rw [List.find?_cons]
    cases hy : q y with
    | true =>
      rw [hy] at ha
      exact ⟨y, rfl, Option.some.inj ha ▸ hxy⟩
    | false =>
      rw [hy] at ha
      exact ih ha

end Lists

/-! ### Heaps -/

namespace Heap

variable {heap heap' : Heap}

/-- What fits a type depends on the classes of objects alone. -/
theorem fit_of_classOf (h : ∀ hd, heap'.classOf hd = heap.classOf hd) (t : Ty) (v : Value) :
    heap'.fit t v = heap.fit t v := by
  unfold fit
  simp only [h]

theorem describe_of_classOf (h : ∀ hd, heap'.classOf hd = heap.classOf hd) (v : Value) :
    heap'.describe v = heap.describe v := by
  unfold describe
  simp only [h]

/-- The zero of a type is stored as it is. -/
theorem fit_zero {t : Ty} {stored : Value} (h : heap.fit t (.zero t) = some stored) :
    stored = .zero t := by
  cases hd : t.deref with
  | primitive k =>
    rw [fit_primitive hd, Value.zero, Ty.kind?, hd,
      Value.widenTo_of_kind?_eq (Value.kind?_zeroOf k)] at h
    rw [Value.zero, Ty.kind?, hd]
    exact (Option.some.inj h).symm
  | object o =>
    rw [fit_object hd, Value.zero, Ty.kind?, hd] at h
    rw [Value.zero, Ty.kind?, hd]
    exact (Option.some.inj h).symm
  | undefined =>
    rw [fit_undefined hd, Value.zero, Ty.kind?, hd] at h
    rw [Value.zero, Ty.kind?, hd]
    exact (Option.some.inj h).symm
  | void => simp [fit_void hd] at h
  | synonym name u => exact absurd hd (Ty.deref_ne_synonym t name u)

/-- An object that is replaced by itself makes no difference. -/
theorem replace_self {h : Handle} {o : HeapObject} (ho : heap.get h = some o) :
    heap.replace h o = heap := by
  have hplaces : heap.places.setIfInBounds h.index ⟨h.generation, some o⟩ = heap.places := by
    apply Array.ext_getElem?
    intro i
    rw [getElem?_setIfInBounds_of_some (get_eq_some.mp ho)]
    split
    · next hi => rw [hi, get_eq_some.mp ho]
    · rfl
  rw [replace, hplaces]

/-- Only the last replacement of an object counts. -/
theorem replace_replace (heap : Heap) (h : Handle) (o o' : HeapObject) :
    (heap.replace h o).replace h o' = heap.replace h o' := by
  simp [replace]

theorem size_replace (heap : Heap) (h : Handle) (o : HeapObject) :
    (heap.replace h o).size = heap.size := by
  simp [size, replace]

theorem size_setPlace (heap : Heap) (i : Nat) (place : Place) :
    (heap.setPlace i place).size =
      if i < heap.places.size then heap.places.size else heap.places.size + 1 := by
  unfold setPlace
  split <;> simp

/-- A new object is one more. -/
theorem Tidy.size_allocate (ht : heap.Tidy) (type : ObjectType) :
    (heap.allocate type).2.size = heap.size + 1 := by
  have hle := ht.accounted.length_le
  show (heap.setPlace heap.nextPlace _).size - heap.vacant.tail.length =
    heap.places.size - heap.vacant.length + 1
  rw [size_setPlace, nextPlace]
  rcases hv : heap.vacant with - | ⟨i, rest⟩
  · simp
  · obtain ⟨g, hg⟩ := (ht.mem_vacant i).mp (by rw [hv]; exact List.mem_cons_self)
    obtain ⟨hlt, -⟩ := Array.getElem?_eq_some_iff.mp hg
    rw [hv, List.length_cons] at hle
    rw [List.headD_cons, if_pos hlt, List.tail_cons, List.length_cons]
    omega

end Heap

/-- A field that has no slot gets one at the end. -/
theorem Slots.put_eq_append {f : Field} {slot : Slot} {slots : Slots}
    (h : ∀ s ∈ slots, s.isFor f = false) : slots.put f slot = slots ++ [slot] := by
  induction slots with
  | nil => rfl
  | cons s rest ih =>
    have hs := h s List.mem_cons_self
    have hrest := ih fun s' hs' => h s' (List.mem_cons_of_mem _ hs')
    rw [Slots.put, hs, if_neg Bool.false_ne_true, hrest]
    rfl

/-- What tells declared fields apart. -/
def FieldDecl.key (d : FieldDecl) : ClassName × String := (d.field.declaring, d.field.name)

namespace ClassTable

variable {t : ClassTable} {heap heap' : Heap}

/-! ### Slots of declared fields -/

/-- The slot that is made for a declared field, if its initial value fits its type. -/
def slotFor? (t : ClassTable) (heap : Heap) (d : FieldDecl) : Option Slot :=
  (heap.fit (t.typeOf d.field.valueClass) (t.initialValue d)).map
    (.new d.field (t.typeOf d.field.valueClass))

/-- The slots with those of the listed fields, up to the first one whose initial value does not
fit. -/
def layOut (t : ClassTable) (heap : Heap) : List FieldDecl → Slots → Slots
  | [], slots => slots
  | d :: rest, slots =>
      match t.slotFor? heap d with
      | none => slots
      | some slot => t.layOut heap rest (slots.put d.field slot)

/-- The error of the first of the listed fields whose initial value does not fit. -/
def refusal? (t : ClassTable) (heap : Heap) (fields : List FieldDecl) : Option RegistrationError :=
  (fields.find? fun d => (t.slotFor? heap d).isNone).map fun d =>
    .invalidInitialValue d.field (.invalidArgument d.field.text
      (t.typeOf d.field.valueClass).text (heap.describe (t.initialValue d)))

theorem slotFor?_eq_some {d : FieldDecl} {s : Slot} (h : t.slotFor? heap d = some s) :
    ∃ stored, heap.fit (t.typeOf d.field.valueClass) (t.initialValue d) = some stored ∧
      s = .new d.field (t.typeOf d.field.valueClass) stored := by
  obtain ⟨stored, hfit, rfl⟩ := Option.map_eq_some_iff.mp h
  exact ⟨stored, hfit, rfl⟩

theorem isFor_of_slotFor? {d : FieldDecl} {s : Slot} (h : t.slotFor? heap d = some s) :
    s.isFor d.field = true := by
  obtain ⟨stored, -, rfl⟩ := slotFor?_eq_some h
  exact Slots.isFor_new _ _ _

theorem key_of_slotFor? {d : FieldDecl} {s : Slot} (h : t.slotFor? heap d = some s) :
    s.key = d.key := by
  obtain ⟨stored, -, rfl⟩ := slotFor?_eq_some h
  rfl

/-- A field without an initial value starts with the zero of its type. -/
theorem value_of_slotFor? {d : FieldDecl} {s : Slot} (h : t.slotFor? heap d = some s)
    (hd : d.initial = none) : s.value = .zero (t.typeOf d.field.valueClass) := by
  obtain ⟨stored, hfit, rfl⟩ := slotFor?_eq_some h
  rw [initialValue, hd, Option.getD_none] at hfit
  exact Heap.fit_zero hfit

section Classes

variable (hclass : ∀ hd, heap'.classOf hd = heap.classOf hd)
include hclass

/-! The slots depend on the classes of objects alone. -/

theorem slotFor?_of_classOf (d : FieldDecl) : t.slotFor? heap' d = t.slotFor? heap d := by
  rw [slotFor?, slotFor?, Heap.fit_of_classOf hclass]

theorem layOut_of_classOf (fields : List FieldDecl) (slots : Slots) :
    t.layOut heap' fields slots = t.layOut heap fields slots := by
  induction fields generalizing slots with
  | nil => rfl
  | cons d rest ih =>
    simp only [layOut, slotFor?_of_classOf hclass]
    cases t.slotFor? heap d with
    | none => rfl
    | some slot => exact ih _

theorem refusal?_of_classOf (fields : List FieldDecl) :
    t.refusal? heap' fields = t.refusal? heap fields := by
  simp only [refusal?, slotFor?_of_classOf hclass, Heap.describe_of_classOf hclass]

end Classes

/-! ### Definitions of an object -/

/-- The definition of a field whose initial value fits puts its slot into the object. -/
theorem defineField_of_slotFor? {h : Handle} {o : HeapObject} (ho : heap.get h = some o)
    {d : FieldDecl} {s : Slot} (hs : t.slotFor? heap d = some s) :
    heap.defineField h d.field (t.typeOf d.field.valueClass) (t.initialValue d) =
      .ok (heap.replace h { o with slots := o.slots.put d.field s }) := by
  obtain ⟨stored, hfit, rfl⟩ := slotFor?_eq_some hs
  simp [Heap.defineField, Heap.convert, hfit, ho, bind, Except.bind]

theorem defineField_of_slotFor?_none {d : FieldDecl} (h : Handle)
    (hs : t.slotFor? heap d = none) :
    heap.defineField h d.field (t.typeOf d.field.valueClass) (t.initialValue d) =
      .error (.invalidArgument d.field.text (t.typeOf d.field.valueClass).text
        (heap.describe (t.initialValue d))) := by
  have hfit := Option.map_eq_none_iff.mp hs
  simp [Heap.defineField, Heap.convert, hfit, bind, Except.bind]

/-- **All definitions of an object are one change of it**, up to the first one that is refused. -/
theorem defineAll_eq {h : Handle} (fields : List FieldDecl) {heap : Heap} {o : HeapObject}
    (ho : heap.get h = some o) :
    t.defineAll (fun heap => heap.defineField h) fields heap =
      ((match t.refusal? heap fields with
        | none => .ok ()
        | some e => .error e),
        heap.replace h { o with slots := t.layOut heap fields o.slots }) := by
  induction fields generalizing heap o with
  | nil => simp [defineAll, refusal?, layOut, Heap.replace_self ho]
  | cons d rest ih =>
    cases hs : t.slotFor? heap d with
    | none =>
      simp [defineAll, defineField_of_slotFor?_none h hs, refusal?, layOut, hs,
        Heap.replace_self ho]
    | some s =>
      -- the object keeps its class, so the rest is laid out as in the heap before
      have hclass := Heap.classOf_replace (o := { o with slots := o.slots.put d.field s }) ho rfl
      have hget : (heap.replace h { o with slots := o.slots.put d.field s }).get h =
          some { o with slots := o.slots.put d.field s } := by
        rw [Heap.get_replace ho, if_pos rfl]
      have hrefusal : t.refusal? heap (d :: rest) = t.refusal? heap rest := by
        simp [refusal?, hs]
      simp only [defineAll, defineField_of_slotFor? ho hs]
      rw [ih hget, refusal?_of_classOf hclass, layOut_of_classOf hclass, Heap.replace_replace,
        hrefusal, layOut, hs]

/-! ### Instances -/

/-- The heap `next` is `heap` with one more object: `h` named none before, and names one of class
`o` with these slots. -/
structure Made (heap : Heap) (o : ObjectType) (h : Handle) (slots : Slots) (next : Heap) :
    Prop where
  /-- The handle named no object. -/
  fresh : heap.get h = none
  /-- It names the new object. -/
  get : next.get h = some ⟨o, slots⟩
  /-- The other objects are as they were. -/
  others : ∀ h', h' ≠ h → next.get h' = heap.get h'
  /-- The fields of classes are as they were. -/
  statics : next.statics = heap.statics
  /-- There is one object more. -/
  size : next.size = heap.size + 1

/-- An allocation and a change of the new object make one more object. -/
theorem made_allocate (ht : heap.Tidy) (o : ObjectType) (slots : Slots) :
    Made heap o (heap.allocate o).1 slots
      ((heap.allocate o).2.replace (heap.allocate o).1 ⟨o, slots⟩) := by
  have hnew : (heap.allocate o).2.get (heap.allocate o).1 = some ⟨o, []⟩ := by
    rw [ht.get_allocate, if_pos rfl]
  refine ⟨ht.get_nextPlace rfl, ?_, fun h' hne => ?_, rfl, ?_⟩
  · rw [Heap.get_replace hnew, if_pos rfl]
  · rw [Heap.get_replace hnew, if_neg hne, ht.get_allocate, if_neg hne]
  · rw [Heap.size_replace, ht.size_allocate]

/-- **What a request for an instance does.**  A class that is not declared is refused, and the heap
is as it was.  For any other class there is one more object afterwards, with the fields up to the
first one that is refused. -/
theorem instantiate_cases (ht : heap.Tidy) {name : ClassName}
    {outcome : Except RegistrationError Handle} {next : Heap}
    (h : t.instantiate heap name = (outcome, next)) :
    (t.objectType? name = none ∧ outcome = .error (.unknownType name) ∧ next = heap) ∨
    ∃ o, t.objectType? name = some o ∧
      Made heap o (heap.allocate o).1
        (t.layOut next ((t.lineageDecls o).flatMap (·.instanceFields)) []) next ∧
      outcome = match t.refusal? next ((t.lineageDecls o).flatMap (·.instanceFields)) with
        | none => .ok (heap.allocate o).1
        | some e => .error e := by
  unfold instantiate at h
  cases ho : t.objectType? name with
  | none =>
    rw [ho, Prod.mk.injEq] at h
    exact .inl ⟨rfl, h.1.symm, h.2.symm⟩
  | some o =>
    have hnew : (heap.allocate o).2.get (heap.allocate o).1 = some ⟨o, []⟩ := by
      rw [ht.get_allocate, if_pos rfl]
    simp only [ho, defineAll_eq _ hnew, Prod.mk.injEq] at h
    obtain ⟨rfl, rfl⟩ := h
    have hclass := Heap.classOf_replace (o := (⟨o, t.layOut (heap.allocate o).2
      ((t.lineageDecls o).flatMap (·.instanceFields)) []⟩ : HeapObject)) hnew rfl
    refine .inr ⟨o, rfl, ?_, ?_⟩
    · rw [layOut_of_classOf hclass]
      exact made_allocate ht o _
    · rw [refusal?_of_classOf hclass]
      cases t.refusal? (heap.allocate o).2 ((t.lineageDecls o).flatMap (·.instanceFields)) <;> rfl

/-! ### Layouts up to a refusal -/

/-- The first refusal splits the fields: those before it fit, and it does not. -/
theorem refusal?_eq_some {fields : List FieldDecl} {e : RegistrationError}
    (h : t.refusal? heap fields = some e) :
    ∃ done d rest, fields = done ++ d :: rest ∧ (∀ f ∈ done, (t.slotFor? heap f).isSome = true) ∧
      t.slotFor? heap d = none ∧
      e = .invalidInitialValue d.field (.invalidArgument d.field.text
        (t.typeOf d.field.valueClass).text (heap.describe (t.initialValue d))) := by
  obtain ⟨d, hd, rfl⟩ := Option.map_eq_some_iff.mp h
  obtain ⟨hnone, done, rest, hsplit, hdone⟩ := List.find?_eq_some_iff_append.mp hd
  refine ⟨done, d, rest, hsplit, fun f hf => ?_, by simpa using hnone, rfl⟩
  have hsome := hdone f hf
  simpa [Option.isSome_iff_ne_none] using hsome

theorem refusal?_eq_none {fields : List FieldDecl} (h : t.refusal? heap fields = none) :
    ∀ f ∈ fields, (t.slotFor? heap f).isSome = true := by
  intro f hf
  have hnone := List.find?_eq_none.mp (Option.map_eq_none_iff.mp h) f hf
  simpa [Option.isSome_iff_ne_none] using hnone

/-- A layout ends at a field that does not fit. -/
theorem layOut_append_refused {done rest : List FieldDecl} {d : FieldDecl} {slots : Slots}
    (hdone : ∀ f ∈ done, (t.slotFor? heap f).isSome = true) (hd : t.slotFor? heap d = none) :
    t.layOut heap (done ++ d :: rest) slots = t.layOut heap done slots := by
  induction done generalizing slots with
  | nil => simp [layOut, hd]
  | cons f done ih =>
    obtain ⟨s, hs⟩ := Option.isSome_iff_exists.mp (hdone f List.mem_cons_self)
    simp only [List.cons_append, layOut, hs]
    exact ih fun f' hf' => hdone f' (List.mem_cons_of_mem _ hf')

/-- The slots of a layout are the ones before it and those of the fields. -/
theorem mem_layOut {fields : List FieldDecl} {slots : Slots} {s : Slot}
    (h : s ∈ t.layOut heap fields slots) :
    s ∈ slots ∨ ∃ f ∈ fields, t.slotFor? heap f = some s := by
  induction fields generalizing slots with
  | nil => exact .inl h
  | cons d rest ih =>
    simp only [layOut] at h
    split at h
    · exact .inl h
    · next slot hslot =>
      rcases ih h with h | ⟨f, hf, hs⟩
      · rcases Slots.mem_put h with rfl | h
        · exact .inr ⟨d, List.mem_cons_self, hslot⟩
        · exact .inl h
      · exact .inr ⟨f, List.mem_cons_of_mem _ hf, hs⟩

/-- A layout keeps the slots that were there, and adds those of fields that fit. -/
theorem isSome_slot?_layOut {fields : List FieldDecl} {slots : Slots}
    (hfit : ∀ f ∈ fields, (t.slotFor? heap f).isSome = true) {g : Field}
    (hg : (slots.slot? g).isSome = true ∨ ∃ f ∈ fields, f.field = g) :
    ((t.layOut heap fields slots).slot? g).isSome = true := by
  induction fields generalizing slots with
  | nil => simpa [layOut] using hg
  | cons d rest ih =>
    obtain ⟨s, hs⟩ := Option.isSome_iff_exists.mp (hfit d List.mem_cons_self)
    simp only [layOut, hs]
    refine ih (fun f hf => hfit f (List.mem_cons_of_mem _ hf)) ?_
    have hfor := isFor_of_slotFor? hs
    rcases hg with hg | ⟨f, hf, rfl⟩
    · exact .inl (Slots.isSome_slot?_put hfor hg)
    · rcases List.mem_cons.mp hf with rfl | hf
      · exact .inl (by rw [Slots.slot?_put_self hfor]; rfl)
      · exact .inr ⟨f, hf, rfl⟩

/-! ### Complete layouts -/

/-- **A complete layout has one slot for each field**, after those that were there, if the fields
are all different. -/
theorem exists_made_layOut {fields : List FieldDecl} {slots : Slots}
    (hfit : ∀ f ∈ fields, (t.slotFor? heap f).isSome = true)
    (hkeys : (slots.map Slot.key ++ fields.map FieldDecl.key).Nodup) :
    ∃ made, List.Forall₂ (fun d s => t.slotFor? heap d = some s) fields made ∧
      t.layOut heap fields slots = slots ++ made := by
  induction fields generalizing slots with
  | nil => exact ⟨[], .nil, by simp [layOut]⟩
  | cons d rest ih =>
    obtain ⟨s, hs⟩ := Option.isSome_iff_exists.mp (hfit d List.mem_cons_self)
    have hnew : ∀ s' ∈ slots, s'.isFor d.field = false := by
      intro s' hs'
      rw [Bool.eq_false_iff]
      intro hfor
      have hkey : s'.key = d.key :=
        (Slots.key_eq_of_isFor hfor (isFor_of_slotFor? hs)).trans (key_of_slotFor? hs)
      exact (List.nodup_append.mp hkeys).2.2 s'.key (List.mem_map_of_mem hs') d.key
        (by simp) hkey
    have hput : slots.put d.field s = slots ++ [s] := Slots.put_eq_append hnew
    have hkeys' : ((slots ++ [s]).map Slot.key ++ rest.map FieldDecl.key).Nodup := by
      rw [List.map_append, List.map_singleton, key_of_slotFor? hs, List.append_assoc]
      exact hkeys
    obtain ⟨made, hmade, heq⟩ := ih (fun f hf => hfit f (List.mem_cons_of_mem _ hf)) hkeys'
    refine ⟨s :: made, .cons hs hmade, ?_⟩
    rw [layOut, hs]
    simp only
    rw [hput, heq, List.append_assoc]
    rfl

/-- The slots of a complete layout are told apart as the fields are. -/
theorem map_key_of_forall₂ {fields : List FieldDecl} {slots : Slots}
    (h : List.Forall₂ (fun d s => t.slotFor? heap d = some s) fields slots) :
    fields.map FieldDecl.key = slots.map Slot.key := by
  induction h with
  | nil => rfl
  | cons hs _ ih => rw [List.map_cons, List.map_cons, key_of_slotFor? hs, ih]

/-! ### The fields of a lineage -/

theorem nodup_lineage (decls : List ClassDecl) (c : ClassName) :
    (c :: ancestorsIn decls c).Nodup := by
  rw [ancestorsIn_eq_discover]
  refine List.nodup_cons.mpr ⟨fun hc => ?_, nodup_discover _ _⟩
  exact not_mem_of_mem_discover hc List.mem_cons_self

/-- No class of a lineage is listed with two declarations. -/
theorem pairwise_lineageDecls {name : ClassName} {o : ObjectType}
    (ho : t.objectType? name = some o) :
    (t.lineageDecls o).Pairwise fun d e => d.name ≠ e.name := by
  obtain ⟨-, rfl⟩ := objectType?_eq_some ho
  refine List.pairwise_filterMap.mpr ((nodup_lineage t.decls name).imp ?_)
  intro n m hne d hd e he
  rw [(mem_of_find? hd).2, (mem_of_find? he).2]
  exact hne

/-- **The fields of a lineage are all different.** -/
theorem nodup_key_instanceFields (hwf : t.WellFormed) {name : ClassName} {o : ObjectType}
    (ho : t.objectType? name = some o) :
    (((t.lineageDecls o).flatMap (·.instanceFields)).map FieldDecl.key).Nodup := by
  rw [List.map_flatMap, List.nodup_flatMap]
  refine ⟨fun d hd => ?_, (pairwise_lineageDecls ho).imp_of_mem fun {d e} hd he hne => ?_⟩
  · -- the fields of one class have different names
    have hnames := hwf.fields_nodup d (mem_decls_of_mem_lineageDecls hd)
    have hkeys : (d.fields.map FieldDecl.key).Nodup := by
      refine List.Nodup.of_map Prod.snd ?_
      rwa [List.map_map]
    exact hkeys.sublist (List.filter_sublist.map _)
  · intro key hd' he'
    obtain ⟨f, hf, rfl⟩ := List.mem_map.mp hd'
    obtain ⟨g, hg, hkey⟩ := List.mem_map.mp he'
    have hdecl := hwf.declaring_eq d (mem_decls_of_mem_lineageDecls hd) f
      (List.mem_of_mem_filter hf)
    have hdecl' := hwf.declaring_eq e (mem_decls_of_mem_lineageDecls he) g
      (List.mem_of_mem_filter hg)
    exact hne (by rw [← hdecl, ← hdecl', (Prod.mk.inj hkey).1])

/-- The first field of a name among those of instances is the first of all, if that is one of
instances. -/
theorem find?_instanceFields {name : String} {f : Field} (hinst : f.isStatic = false) :
    ∀ {decls : List ClassDecl},
      decls.findSome? (fun d => (d.field? name).map (·.field)) = some f →
      ∃ fd, (decls.flatMap (·.instanceFields)).find? (·.field.name == name) = some fd ∧
        fd.field = f := by
  intro decls
  induction decls with
  | nil => intro h; simp at h
  | cons d rest ih =>
    intro h
    rw [List.flatMap_cons, List.find?_append]
    rw [List.findSome?_cons] at h
    cases hd : d.field? name with
    | none =>
      have hnone : d.instanceFields.find? (·.field.name == name) = none :=
        List.find?_eq_none.mpr fun fd hfd =>
          List.find?_eq_none.mp hd fd (List.mem_of_mem_filter hfd)
      rw [hd, Option.map_none] at h
      rw [hnone, Option.none_or]
      exact ih h
    | some fd =>
      rw [hd, Option.map_some, Option.some.injEq] at h
      have hname : fd.field.name = name := by simpa using List.find?_some hd
      have hfirst : d.instanceFields.find? (·.field.name == name) = some fd := by
        rw [ClassDecl.instanceFields, List.find?_filter]
        exact find?_of_imp hd (by simp [h, hinst, ← hname]) (by simp)
      rw [hfirst, Option.some_or]
      exact ⟨fd, rfl, h⟩

end ClassTable

end FieldPath
