import FieldPath.Proofs.ClassTable.BreadthFirst

/-!
# Hidden fields

A class hides the fields of the classes above it that have the same names.  A field is looked up
in the first class of the lineage that declares the name, and the lineage goes breadth-first; so
the fields that a class hides are never found from below exactly if the class stands before its
ancestors in the lineage.  It does if it is nearer than they are: if it is the class of the object,
the class that this one extends, or one with a shorter chain of supertypes to it.  A class that is
declared to be directly above the object's class, and is also above one of its other ancestors,
stands before that other one, and its fields are found although they are hidden.

## Main definitions

* `Nearer` — one class is at a smaller distance than another.
* `Hides` — a class stands before one that it is below.

## Main results

* `ClassTable.fieldOf_first` — a field is found in the first class that declares its name.
* `idxOf_lt_of_nearer`, `idxOf_lt_of_extends` — which classes stand before others.
* `Leads.unique` — under single inheritance a class is found by one chain.
* `field_hiding` — **a field that is found is hidden by no class that is nearer.**
-/

namespace FieldPath

/-- The class `a` is at a smaller distance from `c` than `b`. -/
def Nearer (decls : List ClassDecl) (c a b : ClassName) : Prop :=
  ∃ i j, Distance decls c a i ∧ Distance decls c b j ∧ i < j

/-- Seen from `c`, the class `lower` hides the fields of `upper`: it is below `upper`, and it is `c`
itself, the class that `c` extends, or nearer than `upper`. -/
def Hides (t : ClassTable) (c lower upper : ClassName) : Prop :=
  Relation.TransGen (Above t.decls) lower upper ∧
    (lower = c ∨ (t.find? c).bind (·.superclass) = some lower ∨ Nearer t.decls c lower upper)

section Chains

variable {decls : List ClassDecl} {c n m : ClassName} {i j k : Nat}

/-! ### Chains and distances -/

theorem Leads.chain (h : Leads decls k c n) : Relation.ReflTransGen (Above decls) c n := by
  induction k generalizing n with
  | zero => exact h ▸ .refl
  | succ k ih =>
    obtain ⟨m, hm, hmn⟩ := h
    exact (ih hm).tail hmn

theorem exists_leads (h : Relation.ReflTransGen (Above decls) c n) : ∃ k, Leads decls k c n := by
  induction h with
  | refl => exact ⟨0, rfl⟩
  | tail _ hstep ih =>
    obtain ⟨k, hk⟩ := ih
    exact ⟨k + 1, _, hk, hstep⟩

theorem Distance.unique (hi : Distance decls c n i) (hj : Distance decls c n j) : i = j :=
  Nat.le_antisymm (hi.2 j hj.1) (hj.2 i hi.1)

/-- If all chains to a class are equally long, every class is nearer than the ones above it. -/
theorem nearer_of_unique_lengths
    (hunique : ∀ n i j, Leads decls i c n → Leads decls j c n → i = j)
    (hn : Relation.ReflTransGen (Above decls) c n) (hm : Relation.TransGen (Above decls) n m) :
    Nearer decls c n m := by
  have hdistance : ∀ {p k}, Leads decls k c p → Distance decls c p k := fun {p k} hk =>
    ⟨hk, fun j hj => Nat.le_of_eq (hunique p k j hk hj)⟩
  obtain ⟨i, hi⟩ := exists_leads hn
  induction hm with
  | single hstep => exact ⟨i, i + 1, hdistance hi, hdistance ⟨n, hi, hstep⟩, Nat.lt_succ_self i⟩
  | tail _ hstep ih =>
    obtain ⟨i, j, hi, hj, hij⟩ := ih
    exact ⟨i, j + 1, hi, hdistance ⟨_, hj.1, hstep⟩, Nat.lt_succ_of_lt hij⟩

/-- Where every class has at most one supertype, a chain goes on from the end of a shorter one. -/
theorem Leads.continues
    (hsingle : ∀ p, Relation.ReflTransGen (Above decls) c p → (supertypesIn decls p).length ≤ 1)
    (hn : Leads decls i c n) (hm : Leads decls (i + k) c m) : Leads decls k n m := by
  have hone : ∀ {p a b}, Relation.ReflTransGen (Above decls) c p → Above decls p a →
      Above decls p b → a = b := by
    intro p a b hp ha hb
    have hlength := hsingle p hp
    rw [Above] at ha hb
    generalize supertypesIn decls p = supers at hlength ha hb
    cases supers with
    | nil => simp at ha
    | cons s rest =>
      cases rest with
      | nil => rw [List.mem_singleton.mp ha, List.mem_singleton.mp hb]
      | cons s' rest => simp at hlength
  induction k generalizing m with
  | zero =>
    induction i generalizing n m with
    | zero => exact hn.symm.trans hm
    | succ i ih =>
      obtain ⟨p, hp, hpn⟩ := hn
      obtain ⟨q, hq, hqm⟩ := hm
      obtain rfl : p = q := ih hp hq
      exact hone hp.chain hpn hqm
  | succ k ih =>
    obtain ⟨q, hq, hqm⟩ := hm
    exact ⟨q, ih hq, hqm⟩

/-- **Under single inheritance a class is found by one chain.** -/
theorem Leads.unique (hacyclic : Acyclic decls)
    (hsingle : ∀ p, Relation.ReflTransGen (Above decls) c p → (supertypesIn decls p).length ≤ 1)
    (hi : Leads decls i c n) (hj : Leads decls j c n) : i = j := by
  have hno : ∀ {i j}, Leads decls i c n → Leads decls j c n → ¬ i < j := by
    intro i j hi hj hlt
    obtain ⟨k, rfl⟩ := Nat.exists_eq_add_of_lt hlt
    -- the longer chain would come back to the class
    obtain ⟨p, hp, hpn⟩ := hi.continues hsingle (k := k + 1) hj
    exact hacyclic n (Relation.TransGen.tail' hp.chain hpn)
  exact Nat.le_antisymm (Nat.le_of_not_lt (hno hj hi)) (Nat.le_of_not_lt (hno hi hj))

/-! ### The order of a lineage -/

/-- Members of a list that are in order are related as the list relates its members. -/
theorem pairwise_of_idxOf_lt {R : ClassName → ClassName → Prop} {l : List ClassName}
    (h : l.Pairwise R) (hn : n ∈ l) (hlt : l.idxOf m < l.idxOf n) : R m n := by
  have hm : l.idxOf m < l.length := Nat.lt_trans hlt (List.idxOf_lt_length_of_mem hn)
  have := List.pairwise_iff_getElem.mp h _ _ hm (List.idxOf_lt_length_of_mem hn) hlt
  rwa [List.getElem_idxOf, List.getElem_idxOf] at this

/-- The class itself is the first of its lineage. -/
theorem idxOf_self_lt (hacyclic : Acyclic decls) (h : Relation.TransGen (Above decls) c m) :
    (c :: ancestorsIn decls c).idxOf c < (c :: ancestorsIn decls c).idxOf m := by
  have hne : c ≠ m := by
    rintro rfl
    exact hacyclic c h
  rw [List.idxOf_cons_self, List.idxOf_cons_ne _ hne]
  exact Nat.succ_pos _

/-- **A nearer class stands first.** -/
theorem idxOf_lt_of_nearer (hacyclic : Acyclic decls)
    (hn : Relation.ReflTransGen (Above decls) c n) (hnear : Nearer decls c n m) :
    (c :: ancestorsIn decls c).idxOf n < (c :: ancestorsIn decls c).idxOf m := by
  obtain ⟨i, j, hi, hj, hij⟩ := hnear
  have hne : n ≠ m := by
    rintro rfl
    exact absurd (hi.unique hj) (Nat.ne_of_lt hij)
  rcases (Relation.reflTransGen_iff_eq_or_transGen.mp hn) with rfl | hn
  · rw [List.idxOf_cons_self, List.idxOf_cons_ne _ hne]
    exact Nat.succ_pos _
  · have hc : m ≠ c := by
      rintro rfl
      exact absurd (hj.2 0 rfl) (by omega)
    have hlisted := ancestorsIn_breadthFirst hacyclic c
    have hcn : c ≠ n := by
      rintro rfl
      exact hacyclic c hn
    rw [List.idxOf_cons_ne _ hcn, List.idxOf_cons_ne _ hc.symm]
    refine Nat.succ_lt_succ (Nat.lt_of_not_le fun hle => ?_)
    have hlt := Nat.lt_of_le_of_ne hle fun heq =>
      hne ((List.idxOf_inj ((hlisted.mem_iff n).mpr hn)).mp heq.symm)
    obtain ⟨j', i', hj', hi', hle'⟩ :=
      pairwise_of_idxOf_lt hlisted.nearest_first ((hlisted.mem_iff n).mpr hn) hlt
    rw [hi.unique hi', hj.unique hj'] at hij
    omega

/-- The first supertype of a class is the first of its ancestors. -/
theorem ancestorsIn_eq_cons {first : ClassName} {rest : List ClassName} (hacyclic : Acyclic decls)
    (h : supertypesIn decls c = first :: rest) : ∃ more, ancestorsIn decls c = first :: more := by
  have hne : first ≠ c := by
    rintro rfl
    exact hacyclic _ (.single (show first ∈ supertypesIn decls first by simp [h]))
  rw [ancestorsIn_eq_discover, List.flatMap_cons, h, List.cons_append, discover]
  simp [hne]

/-- **The class that a class extends stands before its own ancestors.** -/
theorem idxOf_lt_of_extends {t : ClassTable} {d : ClassDecl} (hacyclic : Acyclic t.decls)
    (hd : t.find? c = some d) (hsuper : d.superclass = some n)
    (hm : Relation.TransGen (Above t.decls) n m) :
    (c :: ancestorsIn t.decls c).idxOf n < (c :: ancestorsIn t.decls c).idxOf m := by
  have hsupers : supertypesIn t.decls c = n :: d.interfaces := by
    rw [ClassTable.supertypesIn_eq, hd]
    simp [ClassDecl.supertypes, hsuper]
  have habove : Above t.decls c n := by simp [Above, hsupers]
  obtain ⟨more, hmore⟩ := ancestorsIn_eq_cons hacyclic hsupers
  have hcn : c ≠ n := by
    rintro rfl
    exact hacyclic _ (.single habove)
  have hcm : c ≠ m := by
    rintro rfl
    exact hacyclic _ (.head habove hm)
  have hnm : n ≠ m := by
    rintro rfl
    exact hacyclic _ hm
  rw [hmore, List.idxOf_cons_ne _ hcn, List.idxOf_cons_self, List.idxOf_cons_ne _ hcm,
    List.idxOf_cons_ne _ hnm]
  omega

end Chains

/-! ### Fields -/

/-- What hides a class stands before it. -/
theorem Hides.idxOf_lt {t : ClassTable} {c lower upper : ClassName} (hacyclic : Acyclic t.decls)
    (hlower : lower ∈ c :: ancestorsIn t.decls c) (h : Hides t c lower upper) :
    (c :: ancestorsIn t.decls c).idxOf lower < (c :: ancestorsIn t.decls c).idxOf upper := by
  obtain ⟨hbelow, rfl | hsuper | hnear⟩ := h
  · exact idxOf_self_lt hacyclic hbelow
  · obtain ⟨d, hd, hsuper⟩ := Option.bind_eq_some_iff.mp hsuper
    exact idxOf_lt_of_extends hacyclic hd hsuper hbelow
  · exact idxOf_lt_of_nearer hacyclic (mem_lineage_iff.mp hlower) hnear

/-- A class without a find of its own does not change which one is the first. -/
theorem ClassTable.first_of_skip {t : ClassTable} {g : ClassDecl → Option Field} {n : ClassName}
    {rest : List ClassName} {d : ClassDecl} (hnone : ∀ e, t.find? n = some e → g e = none)
    (hd : t.find? d.name = some d) (hg : (g d).isSome = true)
    (hfirst : ∀ e, t.find? e.name = some e → (g e).isSome = true →
      rest.idxOf d.name ≤ rest.idxOf e.name) :
    ∀ e, t.find? e.name = some e → (g e).isSome = true →
      (n :: rest).idxOf d.name ≤ (n :: rest).idxOf e.name := by
  have hne : ∀ e, t.find? e.name = some e → (g e).isSome = true → n ≠ e.name := by
    rintro e he hge rfl
    simp [hnone e he] at hge
  intro e he hge
  rw [List.idxOf_cons_ne _ (hne d hd hg), List.idxOf_cons_ne _ (hne e he hge)]
  exact Nat.succ_le_succ (hfirst e he hge)

/-- What is found in the declarations of some classes is found in the first of them that has it. -/
theorem ClassTable.first_of_findSome? {t : ClassTable} {g : ClassDecl → Option Field} {f : Field}
    {names : List ClassName} (h : (names.filterMap t.find?).findSome? g = some f) :
    ∃ d, t.find? d.name = some d ∧ d.name ∈ names ∧ g d = some f ∧
      ∀ e, t.find? e.name = some e → (g e).isSome = true →
        names.idxOf d.name ≤ names.idxOf e.name := by
  induction names with
  | nil => simp at h
  | cons n rest ih =>
    cases hn : t.find? n with
    | none =>
      rw [List.filterMap_cons_none hn] at h
      obtain ⟨d, hd, hmem, hg, hfirst⟩ := ih h
      exact ⟨d, hd, List.mem_cons_of_mem _ hmem, hg,
        first_of_skip (by simp [hn]) hd (by simp [hg]) hfirst⟩
    | some found =>
      rw [List.filterMap_cons_some hn, List.findSome?_cons] at h
      cases hfound : g found with
      | none =>
        rw [hfound] at h
        obtain ⟨d, hd, hmem, hg, hfirst⟩ := ih h
        exact ⟨d, hd, List.mem_cons_of_mem _ hmem, hg,
          first_of_skip (by simp [hn, hfound]) hd (by simp [hg]) hfirst⟩
      | some f' =>
        rw [hfound, Option.some.injEq] at h
        obtain ⟨-, rfl⟩ := ClassTable.mem_of_find? hn
        refine ⟨found, hn, List.mem_cons_self, h ▸ hfound, fun e _ _ => ?_⟩
        rw [List.idxOf_cons_self]
        exact Nat.zero_le _

/-- **A field is found in the first class of the lineage that declares its name.** -/
theorem ClassTable.fieldOf_first {t : ClassTable} {o : ObjectType} {name : String} {f : Field}
    (h : t.fieldOf o name = some f) :
    ∃ d, t.find? d.name = some d ∧ d.name ∈ o.lineage ∧ (d.field? name).map (·.field) = some f ∧
      ∀ e, t.find? e.name = some e → (e.field? name).isSome = true →
        o.lineage.idxOf d.name ≤ o.lineage.idxOf e.name := by
  obtain ⟨d, hd, hmem, hfield, hfirst⟩ := first_of_findSome? h
  exact ⟨d, hd, hmem, hfield, fun e he hdeclares => hfirst e he (by simpa using hdeclares)⟩

/-- **A field that is found is hidden by no class that is nearer.**  A class of the lineage stands
before the ancestors that it hides, and the field of a class is not found if a class that hides it
declares the name too.  If all chains to a class of the lineage are equally long, which they are if
no class of it has a second supertype, every class of the lineage hides the fields of all its
ancestors. -/
theorem field_hiding (paths : PathSearch) (rules : NameRules) (history : List ClassDecl)
    {c : ClassName} {o : ObjectType}
    (ho : (Registry.after paths rules history).objectType? c = some o) :
    let r := Registry.after paths rules history
    (∀ lower ∈ o.lineage, ∀ upper, Hides r.table c lower upper →
      o.lineage.idxOf lower < o.lineage.idxOf upper) ∧
    (∀ name f, r.fieldOf o name = some f →
      ∃ d, r.table.find? d.name = some d ∧ d.name ∈ o.lineage ∧
        (d.field? name).map (·.field) = some f ∧
        ∀ e, r.table.find? e.name = some e → e.name ∈ o.lineage →
          (e.field? name).isSome = true → ¬ Hides r.table c e.name d.name) ∧
    ((∀ n ∈ o.lineage, (supertypesIn r.table.decls n).length ≤ 1) ∨
        (∀ n i j, Leads r.table.decls i c n → Leads r.table.decls j c n → i = j) →
      ∀ lower ∈ o.lineage, ∀ upper, Relation.TransGen (Above r.table.decls) lower upper →
        Hides r.table c lower upper) := by
  intro r
  obtain ⟨hconsistent, htable⟩ := Registry.after_spec paths rules history
  have hacyclic : Acyclic r.table.decls := by
    rw [htable]
    exact ClassTable.acyclic_after rules history
  rw [hconsistent.objectType?] at ho
  obtain ⟨-, rfl⟩ := ClassTable.objectType?_eq_some ho
  have horder : ∀ lower ∈ c :: ancestorsIn r.table.decls c, ∀ upper,
      Hides r.table c lower upper → (c :: ancestorsIn r.table.decls c).idxOf lower <
        (c :: ancestorsIn r.table.decls c).idxOf upper :=
    fun lower hlower upper hhides => hhides.idxOf_lt hacyclic hlower
  refine ⟨horder, fun name f hf => ?_, fun hlengths lower hlower upper hbelow => ?_⟩
  · obtain ⟨d, hd, hmem, hfield, hfirst⟩ := ClassTable.fieldOf_first (t := r.table) hf
    refine ⟨d, hd, hmem, hfield, fun e he hlower hdeclares hhides => ?_⟩
    have hle := hfirst e he hdeclares
    have hlt := horder e.name hlower d.name hhides
    exact absurd hlt (Nat.not_lt_of_le hle)
  · have hunique : ∀ n i j, Leads r.table.decls i c n → Leads r.table.decls j c n → i = j := by
      rcases hlengths with hsingle | hunique
      · exact fun n i j => Leads.unique hacyclic fun p hp => hsingle p (mem_lineage_iff.mpr hp)
      · exact hunique
    have hchain := mem_lineage_iff.mp hlower
    exact ⟨hbelow, .inr (.inr (nearer_of_unique_lengths hunique hchain hbelow))⟩

namespace Shortcut

/-- A class with a field. -/
def base : ClassDecl :=
  ({ name := ⟨"a.Base"⟩ } : ClassDecl).withInstanceField "level" (.primitive .int)

/-- A class below it, with a field of the same name. -/
def middle : ClassDecl :=
  (({ name := ⟨"a.Middle"⟩ } : ClassDecl).implementing base.name).withInstanceField "level"
    (.primitive .long)

/-- A class below both, which names the higher one first. -/
def leaf : ClassDecl :=
  (({ name := ⟨"a.Leaf"⟩ } : ClassDecl).implementing base.name).implementing middle.name

end Shortcut

open Shortcut in
/-- The class in the middle has one supertype, so it hides the field of the highest one. -/
theorem field_hiding_middle :
    let r := Registry.after .byLineage {} [base, middle, leaf]
    ∃ o, r.objectType? middle.name = some o ∧
      o.lineage.idxOf middle.name < o.lineage.idxOf base.name ∧
      ∃ (d : ClassDecl) (f : Field), r.fieldOf o "level" = some f ∧
        (d.field? "level").map (·.field) = some f ∧
        d.name ≠ base.name := by
  intro r
  have ho : r.objectType? middle.name = some ⟨middle.name, [base.name]⟩ := by decide
  obtain ⟨horder, hlookup, hsingle⟩ := field_hiding .byLineage {} [base, middle, leaf] ho
  have hhides : Hides r.table middle.name middle.name base.name :=
    hsingle (.inl (by decide)) middle.name (by decide) base.name
      (.single (show base.name ∈ supertypesIn r.table.decls middle.name by decide))
  obtain ⟨d, hd, -, hfield, hnone⟩ := hlookup "level" _ rfl
  refine ⟨_, ho, horder _ (by decide) _ hhides, d, _, rfl, hfield, fun hbase => ?_⟩
  exact hnone middle (by decide) (by decide) (by decide) (hbase ▸ hhides)

open Shortcut in
/-- From the lowest class, the field of the highest one is found, although the class in the middle
is below that one and declares the name too; and the highest class stands before the other one. -/
theorem shortcut_finds_hidden :
    let r := Registry.after .byLineage {} [base, middle, leaf]
    ∃ o, r.objectType? leaf.name = some o ∧ o.ancestors = [base.name, middle.name] ∧
      r.fieldOf o "level" = (base.field? "level").map (·.field) ∧
      r.table.find? middle.name = some middle ∧ (middle.field? "level").isSome = true ∧
      Relation.TransGen (Above r.table.decls) middle.name base.name := by
  intro r
  have habove : Above r.table.decls middle.name base.name :=
    show base.name ∈ supertypesIn r.table.decls middle.name by decide
  exact ⟨⟨leaf.name, [base.name, middle.name]⟩, by decide, rfl, by decide, by decide, by decide,
    .single habove⟩

end FieldPath
