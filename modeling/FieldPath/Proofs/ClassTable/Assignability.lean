import FieldPath.Proofs.ClassTable.BreadthFirst

/-!
# Assignability

Which types may be stored where another one is required is decided by comparing digests and by
looking a name up among the ancestors that the stored type brings along.  As long as the digests
tell the declared classes apart, one class accepts another exactly if supertypes lead from the
second to the first, so assignability is a partial order up to aliases: it is transitive because
the ancestors are closed under supertypes, and antisymmetric because no class is above itself.
Later registrations only add supertypes, so a pair of types that was assignable stays so, although
its ancestors may come in another order.

## Main definitions

* `Registry.Yields` — the types that a registry knows, under any aliases.

## Main results

* `Kind.widensFrom_trans`, `Kind.widensFrom_antisymm` — widening is a partial order.
* `ClassTable.accepts_iff` — **one class accepts another exactly if supertypes lead to it.**
* `ClassTable.accepts_after_append` — types that are assignable stay so in every later table.
* `assignability` — **assignability is a partial order up to aliases, which only grows.**
-/

namespace FieldPath

/-! ### Kinds -/

namespace Kind

theorem widensFrom_trans {a b c : Kind} (hab : a.widensFrom b = true)
    (hbc : b.widensFrom c = true) : a.widensFrom c = true := by
  have hall : ∀ a ∈ all, ∀ b ∈ all, ∀ c ∈ all,
      a.widensFrom b = true → b.widensFrom c = true → a.widensFrom c = true := by decide
  exact hall a (mem_all a) b (mem_all b) c (mem_all c) hab hbc

theorem widensFrom_antisymm {a b : Kind} (hab : a.widensFrom b = true)
    (hba : b.widensFrom a = true) : a = b := by
  have hall : ∀ a ∈ all, ∀ b ∈ all,
      a.widensFrom b = true → b.widensFrom a = true → a = b := by decide
  exact hall a (mem_all a) b (mem_all b) hab hba

end Kind

/-! ### Types -/

namespace Ty

/-- Types are assignable if they are both `void`, kinds that widen, or classes of which one accepts
the other, behind their aliases. -/
theorem accepts_iff {t u : Ty} : t.accepts u = true ↔
    (t.deref = .void ∧ u.deref = .void) ∨
    (∃ a b, t.deref = .primitive a ∧ u.deref = .primitive b ∧ a.widensFrom b = true) ∨
    ∃ o p, t.deref = .object o ∧ u.deref = .object p ∧ o.accepts p = true := by
  unfold accepts
  cases t.deref <;> cases u.deref <;> simp

/-- What a kind accepts. -/
theorem accepts_primitive_iff {t u : Ty} {a : Kind} (h : t.deref = .primitive a) :
    t.accepts u = true ↔ ∃ b, u.deref = .primitive b ∧ a.widensFrom b = true := by
  unfold accepts
  rw [h]
  cases u.deref <;> simp

/-- What a class accepts. -/
theorem accepts_object_iff {t u : Ty} {o : ObjectType} (h : t.deref = .object o) :
    t.accepts u = true ↔ ∃ p, u.deref = .object p ∧ o.accepts p = true := by
  unfold accepts
  rw [h]
  cases u.deref <;> simp

end Ty

/-! ### Classes -/

namespace ClassTable

variable {t : ClassTable}

/-- **One class accepts another exactly if supertypes lead to it**, as long as the digests tell the
declared classes apart. -/
theorem accepts_iff (hash : t.HashesApart) {n m : ClassName} {upper lower : ObjectType}
    (hupper : t.objectType? n = some upper) (hlower : t.objectType? m = some lower) :
    upper.accepts lower = true ↔ Relation.ReflTransGen (Above t.decls) m n := by
  rw [← mem_lineage_iff]
  constructor
  · exact mem_lineage_of_accepts hash hupper hlower
  · obtain ⟨-, rfl⟩ := objectType?_eq_some hupper
    obtain ⟨-, rfl⟩ := objectType?_eq_some hlower
    intro hmem
    rcases List.mem_cons.mp hmem with rfl | habove
    · exact ObjectType.accepts_self _
    · simp [ObjectType.accepts, habove]

/-- The types that a table knows: `void`, the kinds, and the declared classes. -/
inductive Knows (t : ClassTable) : Ty → Prop where
  /-- The type without values. -/
  | void : Knows t .void
  /-- A kind. -/
  | primitive (k : Kind) : Knows t (.primitive k)
  /-- A declared class. -/
  | object {n : ClassName} {o : ObjectType} : t.objectType? n = some o → Knows t (.object o)

theorem Knows.exists_objectType? {o : ObjectType} (h : t.Knows (.object o)) :
    ∃ n, t.objectType? n = some o := by
  cases h with
  | object ho => exact ⟨_, ho⟩

/-- What is known of a class of values, if anything is. -/
theorem knows_typeOf (c : ValueClass) : t.typeOf c = .undefined ∨ t.Knows (t.typeOf c) := by
  cases c with
  | void => exact Or.inr .void
  | primitive k => exact Or.inr (.primitive k)
  | named n =>
    cases ho : t.objectType? n with
    | none => exact Or.inl (by rw [typeOf, ho])
    | some o =>
      rw [typeOf, ho]
      exact Or.inr (.object ho)

/-! ### The order -/

section Order

variable {a b c : Ty}

/-- A known type accepts itself. -/
theorem accepts_refl (ha : t.Knows a.deref) : a.accepts a = true := by
  rw [Ty.accepts_iff]
  generalize a.deref = u at ha
  cases ha with
  | void => exact Or.inl ⟨rfl, rfl⟩
  | primitive k => exact Or.inr (Or.inl ⟨k, k, rfl, rfl, Kind.widensFrom_self k⟩)
  | object ho => exact Or.inr (Or.inr ⟨_, _, rfl, rfl, ObjectType.accepts_self _⟩)

/-- **Assignability is transitive**, since chains of supertypes can be joined. -/
theorem accepts_trans (hash : t.HashesApart) (ha : t.Knows a.deref) (hb : t.Knows b.deref)
    (hc : t.Knows c.deref) (hab : a.accepts b = true) (hbc : b.accepts c = true) :
    a.accepts c = true := by
  rcases Ty.accepts_iff.mp hab with ⟨hva, hvb⟩ | ⟨k, l, hka, hlb, hkl⟩ | ⟨o, p, hoa, hpb, hop⟩
  · rw [← Ty.accepts_deref_left, hva, ← hvb, Ty.accepts_deref_left]
    exact hbc
  · obtain ⟨m, hmc, hlm⟩ := (Ty.accepts_primitive_iff hlb).mp hbc
    exact (Ty.accepts_primitive_iff hka).mpr ⟨m, hmc, Kind.widensFrom_trans hkl hlm⟩
  · obtain ⟨q, hqc, hpq⟩ := (Ty.accepts_object_iff hpb).mp hbc
    rw [hoa] at ha
    rw [hpb] at hb
    rw [hqc] at hc
    obtain ⟨n, hn⟩ := ha.exists_objectType?
    obtain ⟨m, hm⟩ := hb.exists_objectType?
    obtain ⟨k, hk⟩ := hc.exists_objectType?
    refine (Ty.accepts_object_iff hoa).mpr ⟨q, hqc, (accepts_iff hash hn hk).mpr ?_⟩
    exact ((accepts_iff hash hm hk).mp hpq).trans ((accepts_iff hash hn hm).mp hop)

/-- **Assignability is antisymmetric** up to aliases, since no class is above itself. -/
theorem accepts_antisymm (hash : t.HashesApart) (hacyclic : Acyclic t.decls)
    (ha : t.Knows a.deref) (hb : t.Knows b.deref) (hab : a.accepts b = true)
    (hba : b.accepts a = true) : a.deref = b.deref := by
  rcases Ty.accepts_iff.mp hab with ⟨hva, hvb⟩ | ⟨k, l, hka, hlb, hkl⟩ | ⟨o, p, hoa, hpb, hop⟩
  · rw [hva, hvb]
  · obtain ⟨m, hma, hlm⟩ := (Ty.accepts_primitive_iff hlb).mp hba
    rw [hka, Ty.primitive.injEq] at hma
    subst hma
    rw [hka, hlb, Kind.widensFrom_antisymm hkl hlm]
  · obtain ⟨q, hqa, hpq⟩ := (Ty.accepts_object_iff hpb).mp hba
    rw [hoa, Ty.object.injEq] at hqa
    subst hqa
    rw [hoa] at ha ⊢
    rw [hpb] at hb ⊢
    obtain ⟨n, hn⟩ := ha.exists_objectType?
    obtain ⟨m, hm⟩ := hb.exists_objectType?
    have hup := (accepts_iff hash hn hm).mp hop
    have hdown := (accepts_iff hash hm hn).mp hpq
    -- two chains between different classes would make a cycle
    rcases Relation.reflTransGen_iff_eq_or_transGen.mp hup with rfl | hchain
    · rw [Option.some.inj (hn.symm.trans hm)]
    · exact absurd (Relation.TransGen.trans_left hchain hdown) (hacyclic m)

end Order

/-! ### Later tables -/

/-- The ancestors of a class stay its ancestors in every later table. -/
theorem ancestors_after_append {rules : NameRules} {history : List ClassDecl} {n : ClassName}
    {o : ObjectType} (ho : (after rules history).objectType? n = some o) (more : List ClassDecl) :
    ∃ later, (after rules (history ++ more)).objectType? n = some later ∧
      ∀ a ∈ o.ancestors, a ∈ later.ancestors := by
  obtain ⟨later, hlater, hlineage⟩ := objectType?_after_append ho more
  refine ⟨later, hlater, fun a ha => ?_⟩
  have hmem : a ∈ later.lineage := hlineage (List.mem_cons_of_mem _ ha)
  obtain ⟨-, rfl⟩ := objectType?_eq_some ho
  refine (List.mem_cons.mp hmem).resolve_left ?_
  -- an ancestor of a class is not the class itself
  rw [name_of_objectType? hlater]
  rintro rfl
  exact (ancestorsIn_breadthFirst (acyclic_after rules history) a).notMem ha

/-- A type of a class of values has no aliases. -/
theorem deref_typeOf (c : ValueClass) : (t.typeOf c).deref = t.typeOf c := by
  cases c with
  | void => rfl
  | primitive k => rfl
  | named n => cases ho : t.objectType? n <;> simp [typeOf, ho]

theorem typeOf_eq_void {c : ValueClass} (h : t.typeOf c = .void) : c = .void := by
  cases c with
  | void => rfl
  | primitive k => simp [typeOf] at h
  | named n => cases ho : t.objectType? n <;> simp [typeOf, ho] at h

theorem typeOf_eq_primitive {c : ValueClass} {k : Kind} (h : t.typeOf c = .primitive k) :
    c = .primitive k := by
  cases c with
  | void => simp [typeOf] at h
  | primitive l => rw [Ty.primitive.inj h]
  | named n => cases ho : t.objectType? n <;> simp [typeOf, ho] at h

theorem typeOf_eq_object {c : ValueClass} {o : ObjectType} (h : t.typeOf c = .object o) :
    ∃ n, c = .named n ∧ t.objectType? n = some o := by
  cases c with
  | void => simp [typeOf] at h
  | primitive k => simp [typeOf] at h
  | named n =>
    cases ho : t.objectType? n with
    | none => simp [typeOf, ho] at h
    | some p =>
      rw [typeOf, ho, Ty.object.injEq] at h
      exact ⟨n, rfl, h ▸ ho⟩

/-- **Types that are assignable stay so in every later table.** -/
theorem accepts_after_append {rules : NameRules} {history : List ClassDecl} {c d : ValueClass}
    (h : ((after rules history).typeOf c).accepts ((after rules history).typeOf d) = true)
    (more : List ClassDecl) :
    ((after rules (history ++ more)).typeOf c).accepts
      ((after rules (history ++ more)).typeOf d) = true := by
  rcases Ty.accepts_iff.mp h with ⟨hc, hd⟩ | ⟨k, l, hc, hd, hkl⟩ | ⟨o, p, hc, hd, hop⟩
  · rw [deref_typeOf] at hc hd
    rw [typeOf_eq_void hc, typeOf_eq_void hd]
    rfl
  · rw [deref_typeOf] at hc hd
    rw [typeOf_eq_primitive hc, typeOf_eq_primitive hd]
    exact hkl
  · rw [deref_typeOf] at hc hd
    obtain ⟨n, rfl, ho⟩ := typeOf_eq_object hc
    obtain ⟨m, rfl, hp⟩ := typeOf_eq_object hd
    obtain ⟨upper, hupper, -⟩ := ancestors_after_append ho more
    obtain ⟨lower, hlower, hancestors⟩ := ancestors_after_append hp more
    rw [typeOf, typeOf, hupper, hlower]
    -- the names, and with them the digests, are as before
    have hnames : upper.name = o.name ∧ lower.name = p.name :=
      ⟨(name_of_objectType? hupper).trans (name_of_objectType? ho).symm,
        (name_of_objectType? hlower).trans (name_of_objectType? hp).symm⟩
    show upper.accepts lower = true
    rw [ObjectType.accepts, ObjectType.hash, ObjectType.hash, Bool.or_eq_true,
      List.contains_iff_mem] at hop ⊢
    rw [hnames.1, hnames.2]
    exact hop.imp_right (hancestors _)

end ClassTable

/-! ### The types of a registry -/

/-- The registry knows a type, under whatever aliases. -/
def Registry.Yields (r : Registry) (t : Ty) : Prop :=
  t.isDefined = true ∧ ∃ c : ValueClass, t.deref = r.typeOf c

theorem Registry.Consistent.knows_of_yields {r : Registry} (h : r.Consistent) {t : Ty}
    (ht : r.Yields t) : r.table.Knows t.deref := by
  obtain ⟨hdefined, c, hc⟩ := ht
  rw [h.typeOf] at hc
  rw [hc]
  refine (ClassTable.knows_typeOf c).resolve_left fun hundefined => ?_
  rw [Ty.isDefined, Ty.isUndefined, hc, hundefined] at hdefined
  simp at hdefined

/-- **Assignability is a partial order up to aliases, which only grows.**  The order needs digests
that tell the declared classes apart.  Whatever is registered later, types that were assignable
are so when they are asked for again, and a class has the ancestors that it had. -/
theorem assignability (paths : PathSearch) (rules : NameRules) (history : List ClassDecl) :
    let r := Registry.after paths rules history
    (r.table.HashesApart →
      (∀ a, r.Yields a → a.accepts a = true) ∧
      (∀ a b c, r.Yields a → r.Yields b → r.Yields c →
        a.accepts b = true → b.accepts c = true → a.accepts c = true) ∧
      ∀ a b, r.Yields a → r.Yields b →
        a.accepts b = true → b.accepts a = true → a.deref = b.deref) ∧
    ∀ more : List ClassDecl,
      let later := Registry.after paths rules (history ++ more)
      (∀ c d, (r.typeOf c).accepts (r.typeOf d) = true →
        (later.typeOf c).accepts (later.typeOf d) = true) ∧
      ∀ n o, r.objectType? n = some o →
        ∃ o', later.objectType? n = some o' ∧ ∀ a ∈ o.ancestors, a ∈ o'.ancestors := by
  intro r
  obtain ⟨hconsistent, htable⟩ := Registry.after_spec paths rules history
  refine ⟨fun hash => ⟨fun a ha => ?_, fun a b c ha hb hc => ?_, fun a b ha hb => ?_⟩, ?_⟩
  · exact ClassTable.accepts_refl (hconsistent.knows_of_yields ha)
  · exact ClassTable.accepts_trans hash (hconsistent.knows_of_yields ha)
      (hconsistent.knows_of_yields hb) (hconsistent.knows_of_yields hc)
  · have hacyclic : Acyclic r.table.decls := by
      rw [htable]
      exact ClassTable.acyclic_after rules history
    exact ClassTable.accepts_antisymm hash hacyclic (hconsistent.knows_of_yields ha)
      (hconsistent.knows_of_yields hb)
  · intro more later
    obtain ⟨hconsistent', htable'⟩ := Registry.after_spec paths rules (history ++ more)
    refine ⟨fun c d h => ?_, fun n o ho => ?_⟩
    · rw [hconsistent.typeOf, hconsistent.typeOf, htable] at h
      rw [hconsistent'.typeOf, hconsistent'.typeOf, htable']
      exact ClassTable.accepts_after_append h more
    · rw [hconsistent.objectType?, htable] at ho
      rw [hconsistent'.objectType?, htable']
      exact ClassTable.ancestors_after_append ho more

open Diamond in
/-- In a diamond, the highest class accepts the lowest one by way of another, and still does after
the class above it is registered. -/
theorem assignability_diamond :
    let r := Registry.after .byLineage {} [bottom, left, right, top]
    let later := Registry.after .byLineage {}
      ([bottom, left, right, top] ++ [{ name := ⟨"java.lang.Object"⟩ }])
    (r.typeOf (.named top.name)).accepts (r.typeOf (.named bottom.name)) = true ∧
      (later.typeOf (.named top.name)).accepts (later.typeOf (.named bottom.name)) = true := by
  intro r later
  obtain ⟨horder, hgrows⟩ := assignability .byLineage {} [bottom, left, right, top]
  have hash : r.table.HashesApart := ClassTable.hashesApart_of_nodup (by decide +kernel)
  have hyields : ∀ d ∈ [bottom, left, top], r.Yields (r.typeOf (.named d.name)) := by
    intro d hd
    exact ⟨by revert d; decide, .named d.name, by revert d; decide⟩
  have haccepts : (r.typeOf (.named top.name)).accepts (r.typeOf (.named bottom.name)) = true :=
    (horder hash).2.1 _ (r.typeOf (.named left.name)) _ (hyields top (by decide))
      (hyields left (by decide)) (hyields bottom (by decide)) (by decide +kernel)
      (by decide +kernel)
  exact ⟨haccepts, (hgrows [{ name := ⟨"java.lang.Object"⟩ }]).1 _ _ haccepts⟩

end FieldPath
