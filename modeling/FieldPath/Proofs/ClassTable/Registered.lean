import FieldPath.ClassTable.Basic
import FieldPath.Proofs.ClassTable.Closure
import Mathlib.Data.List.Nodup

/-!
# Registered class tables

A class table is filled by registrations of declarations that the building functions made.  Every
such table is well formed: no class is declared twice, no class repeats a field, and every field
belongs to the class whose declaration lists it.  So a field is known by its declaring class and
its name alone, and a look-up answers a field of a declared class of the lineage.

## Main definitions

* `ClassDecl.Built`, `ClassTable.Registered` — the declarations and tables that can be made.
* `ClassDecl.ListsOwn` — a declaration lists fields of its own class.
* `ClassTable.WellFormed` — the invariant of registrations.
* `ClassTable.Declares` — the table declares a field.
* `ClassTable.HashesApart` — the digests of declared classes tell them apart.

## Main results

* `Registered.wellFormed` — a registered table is well formed.
* `WellFormed.eq_of_declares` — **declaring class and name determine a field.**
* `lineageDecls_subset` — a class has every declaration of the classes it may stand for.
-/

namespace FieldPath

/-! ### Declarations and registrations -/

/-- The declarations that the building functions make. -/
inductive ClassDecl.Built : ClassDecl → Prop where
  /-- A declaration with nothing but a name. -/
  | ofName (name : ClassName) : Built { name := name }
  /-- With a superclass. -/
  | extending {d : ClassDecl} (superclass : ClassName) : Built d → Built (d.extending superclass)
  /-- With one more interface. -/
  | implementing {d : ClassDecl} (iface : ClassName) : Built d → Built (d.implementing iface)
  /-- With one more field. -/
  | withField {d : ClassDecl} (field : Field) (initial : Option Value) :
      Built d → Built (d.withField field initial)
  /-- With further flags on the last field. -/
  | flagged {d : ClassDecl} (flags : FieldFlags) : Built d → Built (d.flagged flags)

/-- The declaration lists fields of its own class.  The building functions see to it; a declaration
that is put together by hand may list a field of another class. -/
def ClassDecl.ListsOwn (d : ClassDecl) : Prop := ∀ f ∈ d.fields, f.field.declaring = d.name

instance (d : ClassDecl) : Decidable d.ListsOwn :=
  inferInstanceAs (Decidable (∀ f ∈ d.fields, f.field.declaring = d.name))

/-- A built declaration lists its own fields. -/
theorem ClassDecl.Built.listsOwn {d : ClassDecl} (h : d.Built) : d.ListsOwn := by
  induction h with
  | ofName name => intro f hf; simp at hf
  | extending superclass _ ih => exact ih
  | implementing iface _ ih => exact ih
  | withField field initial _ ih =>
    intro f hf
    rcases List.mem_append.mp hf with hf | hf
    · exact ih f hf
    · rw [List.mem_singleton.mp hf]
      rfl
  | @flagged d flags _ ih =>
    intro f hf
    simp only [ClassDecl.flagged] at hf
    split at hf
    · simp at hf
    · next last hlast =>
      rcases List.mem_append.mp hf with hf | hf
      · exact ih f (List.dropLast_subset _ hf)
      · rw [List.mem_singleton.mp hf]
        exact ih last (List.mem_of_getLast? hlast)

/-- The class tables that registrations make. -/
inductive ClassTable.Registered : ClassTable → Prop where
  /-- No class is registered. -/
  | empty (rules : NameRules) : Registered { rules := rules }
  /-- One more class is registered. -/
  | register {t t' : ClassTable} {d : ClassDecl} :
      Registered t → d.Built → t.register d = .ok t' → Registered t'

namespace ClassTable

/-- What every registration keeps. -/
structure WellFormed (t : ClassTable) : Prop where
  /-- No class is declared twice. -/
  names_nodup : (t.decls.map (·.name)).Nodup
  /-- No class declares two fields of one name. -/
  fields_nodup : ∀ d ∈ t.decls, (d.fields.map (·.field.name)).Nodup
  /-- Every field is declared by the class that lists it. -/
  declaring_eq : ∀ d ∈ t.decls, ∀ f ∈ d.fields, f.field.declaring = d.name

/-- The table declares a field. -/
def Declares (t : ClassTable) (f : Field) : Prop := ∃ d ∈ t.decls, ∃ fd ∈ d.fields, fd.field = f

/-- Two declared classes with one digest are the same class. -/
def HashesApart (t : ClassTable) : Prop :=
  ∀ a b, t.contains a = true → t.contains b = true → a.hash = b.hash → a = b

/-! ### Registration keeps tables well formed -/

/-- Names without a repetition that are not among those seen. -/
theorem nodup_of_repeatedField?_go : ∀ (names seen : List String),
    ClassDecl.repeatedField?.go seen names = none → names.Nodup ∧ ∀ n ∈ names, n ∉ seen := by
  intro names
  induction names with
  | nil => intro seen _; simp
  | cons n rest ih =>
    intro seen h
    simp only [ClassDecl.repeatedField?.go] at h
    split at h
    · simp at h
    · next hn =>
      obtain ⟨hrest, hnew⟩ := ih _ h
      -- a name is seen from its own place on, so it cannot stand among the rest
      refine ⟨List.nodup_cons.mpr ⟨fun hmem => ?_, hrest⟩, ?_⟩
      · exact hnew n hmem List.mem_cons_self
      · intro m hm
        rcases List.mem_cons.mp hm with rfl | hm
        · simpa using hn
        · exact fun hs => hnew m hm (List.mem_cons_of_mem _ hs)

theorem contains_iff {t : ClassTable} {n : ClassName} :
    t.contains n = true ↔ ∃ d ∈ t.decls, d.name = n := by
  simp [contains, find?]

theorem find?_eq_none_of_contains {t : ClassTable} {n : ClassName} (h : t.contains n = false) :
    t.decls.find? (·.name == n) = none := by
  rw [contains, Option.isSome_eq_false_iff, Option.isNone_iff_eq_none] at h
  exact h

/-- What a successful registration checks and does. -/
theorem register_eq_ok {t t' : ClassTable} {d : ClassDecl} (h : t.register d = .ok t') :
    t.contains d.name = false ∧ d.repeatedField? = none ∧
      t' = { t with decls := t.decls ++ [d] } := by
  unfold register at h
  split at h
  · simp at h
  · next hnew =>
    split at h
    · simp at h
    · next hfields =>
      split at h
      · simp at h
      · exact ⟨by simpa using hnew, hfields, by simpa using h.symm⟩

/-- Why a registration can be refused. -/
theorem register_eq_error {t : ClassTable} {d : ClassDecl} {e : RegistrationError}
    (h : t.register d = .error e) :
    e = .duplicateType d.name ∨ (∃ field, e = .duplicateField d.name field) ∨
      ∃ s, e = .circularInheritance d.name s := by
  unfold register at h
  split at h
  · exact Or.inl (Except.error.inj h).symm
  · split at h
    · next field _ => exact Or.inr (Or.inl ⟨field, (Except.error.inj h).symm⟩)
    · split at h
      · next s _ => exact Or.inr (Or.inr ⟨s, (Except.error.inj h).symm⟩)
      · exact absurd h (by simp)

theorem WellFormed.register {t t' : ClassTable} {d : ClassDecl} (ht : t.WellFormed)
    (hd : d.ListsOwn) (h : t.register d = .ok t') : t'.WellFormed := by
  obtain ⟨hnew, hfields, rfl⟩ := register_eq_ok h
  refine ⟨?_, ?_, ?_⟩
  · rw [List.map_append, List.nodup_append]
    refine ⟨ht.names_nodup, by simp, ?_⟩
    rintro n hn m hm rfl
    obtain ⟨e, he, rfl⟩ := List.mem_map.mp hn
    rw [List.map_singleton, List.mem_singleton] at hm
    -- an old declaration of the name would have been found
    have hold : t.contains d.name = true := contains_iff.mpr ⟨e, he, hm⟩
    rw [hold] at hnew
    simp at hnew
  · intro e he
    rcases List.mem_append.mp he with he | he
    · exact ht.fields_nodup e he
    · rw [List.mem_singleton.mp he]
      exact (nodup_of_repeatedField?_go _ _ hfields).1
  · intro e he
    rcases List.mem_append.mp he with he | he
    · exact ht.declaring_eq e he
    · rw [List.mem_singleton.mp he]
      exact hd

/-- A registered table is well formed. -/
theorem Registered.wellFormed {t : ClassTable} (h : t.Registered) : t.WellFormed := by
  induction h with
  | empty rules => exact ⟨by simp, by simp, by simp⟩
  | register _ hd hreg ih => exact ih.register hd.listsOwn hreg

/-! ### Looking declarations up -/

theorem mem_of_find? {t : ClassTable} {n : ClassName} {d : ClassDecl} (h : t.find? n = some d) :
    d ∈ t.decls ∧ d.name = n :=
  ⟨List.mem_of_find?_eq_some h, by simpa using List.find?_some h⟩

/-- **Declaring class and name determine a field.** -/
theorem WellFormed.eq_of_declares {t : ClassTable} (ht : t.WellFormed) {f g : Field}
    (hf : t.Declares f) (hg : t.Declares g) (hdecl : f.declaring = g.declaring)
    (hname : f.name = g.name) : f = g := by
  obtain ⟨d, hd, fd, hfd, rfl⟩ := hf
  obtain ⟨e, he, ge, hge, rfl⟩ := hg
  -- the declaring class tells the declaration, the name tells the field in it
  rw [ht.declaring_eq d hd fd hfd, ht.declaring_eq e he ge hge] at hdecl
  have hde : d = e := List.inj_on_of_nodup_map ht.names_nodup hd he hdecl
  subst hde
  rw [List.inj_on_of_nodup_map (ht.fields_nodup d hd) hfd hge hname]

/-- A class of the table comes with the lineage that the table gives it. -/
theorem objectType?_eq_some {t : ClassTable} {n : ClassName} {o : ObjectType}
    (h : t.objectType? n = some o) :
    t.contains n = true ∧ o = ⟨n, ancestorsIn t.decls n⟩ := by
  unfold objectType? at h
  split at h
  · next hn => exact ⟨hn, by simpa using h.symm⟩
  · simp at h

theorem name_of_objectType? {t : ClassTable} {n : ClassName} {o : ObjectType}
    (h : t.objectType? n = some o) : o.name = n := by
  obtain ⟨-, rfl⟩ := objectType?_eq_some h
  rfl

theorem mem_lineageDecls {t : ClassTable} {o : ObjectType} {d : ClassDecl} :
    d ∈ t.lineageDecls o ↔ ∃ n ∈ o.lineage, t.find? n = some d := by
  simp [lineageDecls]

theorem mem_decls_of_mem_lineageDecls {t : ClassTable} {o : ObjectType} {d : ClassDecl}
    (h : d ∈ t.lineageDecls o) : d ∈ t.decls := by
  obtain ⟨n, -, hd⟩ := mem_lineageDecls.mp h
  exact (mem_of_find? hd).1

/-- A field that is found is declared by a class of the lineage, under the name asked for. -/
theorem fieldOf_eq_some {t : ClassTable} {o : ObjectType} {name : String} {f : Field}
    (h : t.fieldOf o name = some f) :
    f.name = name ∧ ∃ d ∈ t.lineageDecls o, ∃ fd ∈ d.fields, fd.field = f := by
  obtain ⟨d, hd, hf⟩ := List.exists_of_findSome?_eq_some h
  obtain ⟨fd, hfd, rfl⟩ := Option.map_eq_some_iff.mp hf
  refine ⟨?_, d, hd, fd, List.mem_of_find?_eq_some hfd, rfl⟩
  simpa using List.find?_some hfd

theorem declares_of_fieldOf {t : ClassTable} {o : ObjectType} {name : String} {f : Field}
    (h : t.fieldOf o name = some f) : t.Declares f := by
  obtain ⟨-, d, hd, hf⟩ := fieldOf_eq_some h
  exact ⟨d, mem_decls_of_mem_lineageDecls hd, hf⟩

/-- The digests tell the declared classes apart if none of them occurs twice. -/
theorem hashesApart_of_nodup {t : ClassTable} (h : (t.decls.map (·.name.hash)).Nodup) :
    t.HashesApart := by
  intro a b ha hb heq
  obtain ⟨d, hd, rfl⟩ := contains_iff.mp ha
  obtain ⟨e, he, rfl⟩ := contains_iff.mp hb
  rw [List.inj_on_of_nodup_map h hd he heq]

/-- A class that is accepted has the class that accepts it in its lineage, if their digests tell the
two apart. -/
theorem mem_lineage_of_accepts_apart {t : ClassTable} {n m : ClassName} {upper lower : ObjectType}
    (hapart : n.hash = m.hash → n = m) (hupper : t.objectType? n = some upper)
    (hlower : t.objectType? m = some lower) (hacc : upper.accepts lower = true) :
    n ∈ m :: ancestorsIn t.decls m := by
  obtain ⟨-, rfl⟩ := objectType?_eq_some hupper
  obtain ⟨-, rfl⟩ := objectType?_eq_some hlower
  simp only [ObjectType.accepts, ObjectType.hash, Bool.or_eq_true, beq_iff_eq,
    List.contains_iff_mem] at hacc
  rcases hacc with heq | habove
  · rw [hapart heq]
    exact List.mem_cons_self
  · exact List.mem_cons_of_mem _ habove

theorem mem_lineage_of_accepts {t : ClassTable} (hash : t.HashesApart) {n m : ClassName}
    {upper lower : ObjectType} (hupper : t.objectType? n = some upper)
    (hlower : t.objectType? m = some lower) (hacc : upper.accepts lower = true) :
    n ∈ m :: ancestorsIn t.decls m := by
  have hn := (objectType?_eq_some hupper).1
  have hm := (objectType?_eq_some hlower).1
  exact mem_lineage_of_accepts_apart (hash n m hn hm) hupper hlower hacc

/-- A class has every declaration of the classes in its lineage. -/
theorem lineageDecls_subset_of_mem {t : ClassTable} {n m : ClassName} {upper lower : ObjectType}
    (hupper : t.objectType? n = some upper) (hlower : t.objectType? m = some lower)
    (hmem : n ∈ m :: ancestorsIn t.decls m) : t.lineageDecls upper ⊆ t.lineageDecls lower := by
  obtain ⟨-, rfl⟩ := objectType?_eq_some hupper
  obtain ⟨-, rfl⟩ := objectType?_eq_some hlower
  intro d hd
  obtain ⟨k, hk, hfind⟩ := mem_lineageDecls.mp hd
  exact mem_lineageDecls.mpr ⟨k, lineage_subset hmem hk, hfind⟩

/-- **A class has every declaration of the classes it may stand for.** -/
theorem lineageDecls_subset {t : ClassTable} (hash : t.HashesApart) {n m : ClassName}
    {upper lower : ObjectType} (hupper : t.objectType? n = some upper)
    (hlower : t.objectType? m = some lower) (hacc : upper.accepts lower = true) :
    t.lineageDecls upper ⊆ t.lineageDecls lower :=
  lineageDecls_subset_of_mem hupper hlower (mem_lineage_of_accepts hash hupper hlower hacc)

end ClassTable

end FieldPath
