import FieldPath.Proofs.ClassTable.Registered
import FieldPath.Proofs.Machine.Meaning

/-!
# References to fields

The code refers to a field by three texts: the internal name of the declaring class, the name of
the field, and the descriptor of its values.  As long as no class name has a slash in it, the
internal name tells the class, and the other two find the field there.

## Main definitions

* `ClassTable.linked?` — the declared field of a reference.
* `ClassTable.loader` — the loader of a table.

## Main results

* `ClassName.eq_of_internal_eq` — without slashes, the internal name tells the class.
* `ClassTable.links_loader` — **the loader finds every declared field by its reference.**
-/

namespace FieldPath

/-! ### Internal names -/

namespace ClassName

/-- The name has no slash in it. -/
def Slashless (n : ClassName) : Prop := '/' ∉ n.qualified.toList

/-- The dots of a name without slashes are found again in its internal form. -/
theorem qualified_of_internal {n : ClassName} (h : n.Slashless) :
    String.ofList (n.internal.toList.map fun c => if c = '/' then '.' else c) = n.qualified := by
  have hback : n.qualified.toList.map ((fun c => if c = '/' then '.' else c) ∘
      fun c => if c = '.' then '/' else c) = n.qualified.toList.map id := by
    refine List.map_congr_left fun c hc => ?_
    have hslash : c ≠ '/' := fun heq => h (heq ▸ hc)
    by_cases hdot : c = '.'
    · simp [hdot]
    · simp [hdot, hslash]
  rw [internal, String.toList_ofList, List.map_map, hback, List.map_id, String.ofList_toList]

/-- Without slashes, the internal name tells the class. -/
theorem eq_of_internal_eq {a b : ClassName} (ha : a.Slashless) (hb : b.Slashless)
    (h : a.internal = b.internal) : a = b := by
  have hq : a.qualified = b.qualified := by
    rw [← qualified_of_internal ha, h, qualified_of_internal hb]
  cases a
  cases b
  rw [ClassName.mk.injEq]
  exact hq

end ClassName

/-! ### Declared fields -/

namespace ClassTable

theorem find?_eq_some_of_unique {α : Type} {p : α → Bool} {l : List α} {a : α} (ha : a ∈ l)
    (hp : p a = true) (huniq : ∀ b ∈ l, p b = true → b = a) : l.find? p = some a := by
  obtain ⟨b, hb⟩ := Option.isSome_iff_exists.mp (List.find?_isSome.mpr ⟨a, ha, hp⟩)
  rw [hb, huniq b (List.mem_of_find?_eq_some hb) (List.find?_some hb)]

/-- No declared class has a slash in its name. -/
def Slashless (t : ClassTable) : Prop := ∀ d ∈ t.decls, d.name.Slashless

/-- The declared field that a constant refers to. -/
def linked? (t : ClassTable) : Constant → Option Field
  | .fieldRef owner name descriptor =>
      (t.decls.find? (·.name.internal == owner)).bind fun d =>
        (d.fields.find? fun f =>
          f.field.name == name && f.field.valueClass.descriptor == descriptor).map (·.field)
  | _ => none

/-- The loader of a table.  What other constants stand for is left open. -/
def loader (t : ClassTable) (value? : Constant → Option Value) : Loader := ⟨t.linked?, value?⟩

/-- **The loader finds every declared field by its reference.** -/
theorem links_loader {t : ClassTable} (ht : t.WellFormed) (hs : t.Slashless)
    (value? : Constant → Option Value) {f : Field} (hf : t.Declares f) :
    (t.loader value?).Links f := by
  obtain ⟨d, hd, fd, hfd, rfl⟩ := hf
  have hdecl := ht.declaring_eq d hd fd hfd
  -- the class is the only one of its internal name, the field the only one of its name in it
  have hclass : t.decls.find? (·.name.internal == d.name.internal) = some d := by
    refine find?_eq_some_of_unique hd (by simp) fun e he hinternal => ?_
    have hname := ClassName.eq_of_internal_eq (hs e he) (hs d hd) (by simpa using hinternal)
    exact List.inj_on_of_nodup_map ht.names_nodup he hd hname
  have hfield : (d.fields.find? fun f => f.field.name == fd.field.name &&
      f.field.valueClass.descriptor == fd.field.valueClass.descriptor) = some fd := by
    refine find?_eq_some_of_unique hfd (by simp) fun g hg hsame => ?_
    simp only [Bool.and_eq_true, beq_iff_eq] at hsame
    exact List.inj_on_of_nodup_map (ht.fields_nodup d hd) hg hfd hsame.1
  show t.linked? (Emit.fieldConstant fd.field) = some fd.field
  rw [Emit.fieldConstant, linked?, hdecl, hclass, Option.bind_some, hfield, Option.map_some]

end ClassTable

end FieldPath
