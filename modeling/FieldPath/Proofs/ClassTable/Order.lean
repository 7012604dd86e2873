import FieldPath.Proofs.ClassTable.Registered

/-!
# The order of registrations

A class may be registered before the classes above it, so the same declarations can be registered in
any order.  No order is refused as long as no class is above itself, because a part of the
declarations leads to no class that all of them do not lead to.  Nor can a table tell afterwards in
which order it was filled: the list of its declarations is a permutation of any other, and all
questions about a table ask for the declaration of a name, for the ancestors of a class, or for the
only class of a simple name.

## Main definitions

* `Acyclic` — no chain of declared supertypes comes back to its start.
* `ClassTable.registerAll` — the registration of several declarations.
* `ClassTable.Alike` — two tables have the same declarations, as far as a look-up can tell.
* `ClassTable.SameAnswers` — two tables answer every question alike.

## Main results

* `ClassTable.registerAll_eq_ok` — declarations of an acyclic hierarchy are all registered.
* `ClassTable.alike_of_perm` — tables with permuted declarations are alike.
* `ClassTable.Alike.sameAnswers` — tables that are alike answer every question alike.
* `ClassTable.registerAll_of_perm` — **declarations are registered in any order.**
-/

namespace FieldPath

/-- No chain of declared supertypes comes back to its start. -/
def Acyclic (decls : List ClassDecl) : Prop := ∀ n, ¬ Relation.TransGen (Above decls) n n

/-- Declarations are acyclic if every declared supertype has a greater rank than the class. -/
theorem acyclic_of_rank {decls : List ClassDecl} (rank : ClassName → Nat)
    (h : ∀ d ∈ decls, ∀ s ∈ d.supertypes, rank d.name < rank s) : Acyclic decls := by
  have hstep : ∀ n m, Above decls n m → rank n < rank m := by
    intro n m hnm
    unfold Above supertypesIn at hnm
    split at hnm
    · next d hd =>
      have hname : d.name = n := by simpa using List.find?_some hd
      rw [← hname]
      exact h d (List.mem_of_find?_eq_some hd) m hnm
    · simp at hnm
  have hchain : ∀ n m, Relation.TransGen (Above decls) n m → rank n < rank m := by
    intro n m hnm
    induction hnm with
    | single hnm => exact hstep _ _ hnm
    | tail _ hnm ih => exact Nat.lt_trans ih (hstep _ _ hnm)
  exact fun n hn => Nat.lt_irrefl _ (hchain n n hn)

namespace ClassTable

/-- The table with several more declarations.  The first one that is refused ends it. -/
def registerAll (t : ClassTable) : List ClassDecl → Except RegistrationError ClassTable
  | [] => .ok t
  | d :: rest => (t.register d).bind (·.registerAll rest)

/-! ### Registrations that succeed -/

/-- Names without a repetition are not found repeated, if none of them was seen before. -/
theorem repeatedField?_go_eq_none : ∀ (names seen : List String), names.Nodup →
    (∀ n ∈ names, n ∉ seen) → ClassDecl.repeatedField?.go seen names = none := by
  intro names
  induction names with
  | nil => intro seen _ _; rfl
  | cons n rest ih =>
    intro seen hnodup hnew
    obtain ⟨hn, hrest⟩ := List.nodup_cons.mp hnodup
    have hseen : ¬ seen.contains n = true := by simpa using hnew n List.mem_cons_self
    rw [ClassDecl.repeatedField?.go, if_neg hseen]
    refine ih _ hrest fun m hm => ?_
    rw [List.mem_cons, not_or]
    exact ⟨fun heq => hn (heq ▸ hm), hnew m (List.mem_cons_of_mem _ hm)⟩

/-- What is above a class in a table is above it in every longer table. -/
theorem above_append {decls : List ClassDecl} (rest : List ClassDecl) {n m : ClassName}
    (h : Above decls n m) : Above (decls ++ rest) n m := by
  unfold Above supertypesIn at h ⊢
  rw [List.find?_append]
  cases hd : decls.find? (·.name == n) with
  | none => rw [hd] at h; simp at h
  | some d => rw [hd] at h; exact h

/-- The supertypes of a new declaration are above its class. -/
theorem above_of_mem_supertypes {t : ClassTable} {d : ClassDecl} (rest : List ClassDecl)
    (hnew : t.contains d.name = false) {s : ClassName} (hs : s ∈ d.supertypes) :
    Above (t.decls ++ d :: rest) d.name s := by
  unfold Above supertypesIn
  rw [List.find?_append, find?_eq_none_of_contains hnew, Option.none_or,
    List.find?_cons_of_pos (by simp)]
  exact hs

/-- A declaration that closes no cycle has no circular supertype. -/
theorem circularSupertype?_eq_none {t : ClassTable} {d : ClassDecl} {rest : List ClassDecl}
    (hnew : t.contains d.name = false) (hacyclic : Acyclic (t.decls ++ d :: rest)) :
    t.circularSupertype? d = none := by
  refine List.find?_eq_none.mpr fun s hs hreaches => hacyclic d.name ?_
  -- the supertype leads back to the class by what was declared before
  have hback : Relation.ReflTransGen (Above t.decls) s d.name := reaches_iff.mp hreaches
  have hlonger : Above t.decls ≤ Above (t.decls ++ d :: rest) := fun _ _ => above_append _
  exact .head' (above_of_mem_supertypes rest hnew hs)
    (Relation.ReflTransGen.mono hlonger _ _ hback)

/-- **Declarations of an acyclic hierarchy are all registered**, if no class and no field is
declared twice. -/
theorem registerAll_eq_ok : ∀ (decls : List ClassDecl) (t : ClassTable),
    ((t.decls ++ decls).map (·.name)).Nodup →
    (∀ d ∈ decls, (d.fields.map (·.field.name)).Nodup) → Acyclic (t.decls ++ decls) →
    t.registerAll decls = .ok { t with decls := t.decls ++ decls } := by
  intro decls
  induction decls with
  | nil => intro t _ _ _; rw [List.append_nil]; rfl
  | cons d rest ih =>
    intro t hnames hfields hacyclic
    have hnew : t.contains d.name = false := by
      rw [Bool.eq_false_iff, Ne, contains_iff]
      rintro ⟨e, he, hname⟩
      rw [List.map_append, List.nodup_append] at hnames
      exact hnames.2.2 e.name (List.mem_map_of_mem he) d.name (by simp) hname
    have hrepeat : d.repeatedField? = none :=
      repeatedField?_go_eq_none _ _ (hfields d List.mem_cons_self) (by simp)
    have hstep : t.register d = .ok { t with decls := t.decls ++ [d] } := by
      rw [register, hnew, if_neg Bool.false_ne_true, hrepeat,
        circularSupertype?_eq_none hnew hacyclic]
    have hsplit : t.decls ++ d :: rest = t.decls ++ [d] ++ rest := by simp
    rw [hsplit] at hnames hacyclic ⊢
    rw [registerAll, hstep]
    exact ih _ hnames (fun e he => hfields e (List.mem_cons_of_mem _ he)) hacyclic

/-! ### Tables that are alike -/

/-- Two tables have the same declarations, as far as a look-up by name can tell. -/
structure Alike (t t' : ClassTable) : Prop where
  /-- Short names are completed in the same way. -/
  rules : t.rules = t'.rules
  /-- Every class has the same declaration. -/
  find? : ∀ n, t.find? n = t'.find? n
  /-- Every class has the same ancestors, in the same order. -/
  ancestorsIn : ∀ n, ancestorsIn t.decls n = ancestorsIn t'.decls n
  /-- Every simple name has the same only class. -/
  uniqueSimple? : ∀ s, t.uniqueSimple? s = t'.uniqueSimple? s

/-- A declaration that is found is one of the declarations of its name, of which there is one. -/
theorem find?_eq_some_iff {t : ClassTable} (hnames : (t.decls.map (·.name)).Nodup) {n : ClassName}
    {d : ClassDecl} : t.find? n = some d ↔ d ∈ t.decls ∧ d.name = n := by
  constructor
  · exact mem_of_find?
  · rintro ⟨hd, rfl⟩
    obtain ⟨e, he⟩ := Option.isSome_iff_exists.mp (contains_iff.mpr ⟨d, hd, rfl⟩)
    obtain ⟨hmem, hname⟩ := mem_of_find? he
    rw [he, List.inj_on_of_nodup_map hnames hmem hd hname]

theorem supertypesIn_eq (t : ClassTable) (n : ClassName) :
    supertypesIn t.decls n = ((t.find? n).map (·.supertypes)).getD [] := by
  unfold supertypesIn find?
  cases t.decls.find? (·.name == n) <;> rfl

/-- The levels above a class depend on the direct supertypes alone. -/
theorem levelsAbove_congr {decls decls' : List ClassDecl}
    (h : ∀ n, supertypesIn decls n = supertypesIn decls' n) : ∀ (fuel : Nat)
    (seen frontier : List ClassName),
      levelsAbove decls fuel seen frontier = levelsAbove decls' fuel seen frontier := by
  intro fuel
  induction fuel with
  | zero => intro seen frontier; rfl
  | succ fuel ih =>
    intro seen frontier
    have hsupertypes : supertypesIn decls = supertypesIn decls' := funext h
    simp only [levelsAbove, hsupertypes, ih]

/-- So do the ancestors, however many declarations there are. -/
theorem ancestorsIn_congr {decls decls' : List ClassDecl}
    (h : ∀ n, supertypesIn decls n = supertypesIn decls' n) (n : ClassName) :
    FieldPath.ancestorsIn decls n = FieldPath.ancestorsIn decls' n := by
  unfold FieldPath.ancestorsIn
  -- both searches have enough fuel, so either may be given the fuel of the other as well
  rw [← levelsAbove_add decls (decls'.length + 1) _ _ _ (enough_ancestorsIn decls n),
    ← levelsAbove_add decls' (decls.length + 1) _ _ _ (enough_ancestorsIn decls' n),
    Nat.add_comm (decls'.length + 1), levelsAbove_congr h]

theorem find?_of_perm {t t' : ClassTable} (hperm : t.decls.Perm t'.decls)
    (hnames : (t.decls.map (·.name)).Nodup) (n : ClassName) : t.find? n = t'.find? n := by
  have hnames' : (t'.decls.map (·.name)).Nodup := (hperm.map _).nodup_iff.mp hnames
  ext d
  rw [find?_eq_some_iff hnames, find?_eq_some_iff hnames', hperm.mem_iff]

theorem supertypesIn_of_perm {t t' : ClassTable} (hperm : t.decls.Perm t'.decls)
    (hnames : (t.decls.map (·.name)).Nodup) (n : ClassName) :
    supertypesIn t.decls n = supertypesIn t'.decls n := by
  rw [supertypesIn_eq, supertypesIn_eq, find?_of_perm hperm hnames]

/-- **Tables with permuted declarations are alike.** -/
theorem alike_of_perm {t t' : ClassTable} (hrules : t.rules = t'.rules)
    (hperm : t.decls.Perm t'.decls) (hnames : (t.decls.map (·.name)).Nodup) : t.Alike t' := by
  refine ⟨hrules, find?_of_perm hperm hnames,
    ancestorsIn_congr (supertypesIn_of_perm hperm hnames), fun s => ?_⟩
  · -- a list with one member is permuted to itself, any other to one with as many
    have hfilter := hperm.filter (·.name.simple == s)
    unfold ClassTable.uniqueSimple?
    generalize t.decls.filter (·.name.simple == s) = l at hfilter
    generalize t'.decls.filter (·.name.simple == s) = l' at hfilter
    have hlength := hfilter.length_eq
    match l, l' with
    | [], [] => rfl
    | [d], l' => rw [List.singleton_perm.mp hfilter]
    | _ :: _ :: _, _ :: _ :: _ => rfl
    | [], _ :: _ => simp at hlength
    | _ :: _ :: _, [] => simp at hlength
    | _ :: _ :: _, [_] => simp at hlength

/-! ### Questions -/

/-- Two tables answer every question alike. -/
structure SameAnswers (t t' : ClassTable) : Prop where
  /-- A class has the same ancestors, in the same order. -/
  objectType? : ∀ n, t.objectType? n = t'.objectType? n
  /-- A written name stands for the same class. -/
  resolveName? : ∀ written, t.resolveName? written = t'.resolveName? written
  /-- A path is matched to the same class. -/
  matchPath : ∀ segments, t.matchPath segments = t'.matchPath segments
  /-- A class of values has the same type. -/
  typeOf : ∀ c, t.typeOf c = t'.typeOf c
  /-- The same field is found for a class. -/
  fieldOf : ∀ o name, t.fieldOf o name = t'.fieldOf o name
  /-- A declaration has the same field of a name, with the same initial value. -/
  declaredField : ∀ n name, (t.find? n).bind (·.field? name) = (t'.find? n).bind (·.field? name)
  /-- A new object is laid out in the same way, or refused for the same reason. -/
  instantiate : ∀ heap n, t.instantiate heap n = t'.instantiate heap n

namespace Alike

variable {t t' : ClassTable}

theorem contains (h : t.Alike t') : t.contains = t'.contains := by
  funext n
  rw [ClassTable.contains, ClassTable.contains, h.find?]

theorem objectType? (h : t.Alike t') (n : ClassName) : t.objectType? n = t'.objectType? n := by
  rw [ClassTable.objectType?, ClassTable.objectType?, h.contains, h.ancestorsIn]

theorem resolveName? (h : t.Alike t') (written : String) :
    t.resolveName? written = t'.resolveName? written := by
  unfold ClassTable.resolveName?
  rw [h.rules, h.contains, h.uniqueSimple?]

theorem matchRun (h : t.Alike t') (segments : List String) (count : Nat) :
    t.matchRun segments count = t'.matchRun segments count := by
  induction count with
  | zero => rfl
  | succ count ih =>
    simp only [ClassTable.matchRun, h.resolveName?, h.objectType?, ih]

theorem typeOf (h : t.Alike t') (c : ValueClass) : t.typeOf c = t'.typeOf c := by
  cases c with
  | void => rfl
  | primitive k => rfl
  | named n => simp only [ClassTable.typeOf, h.objectType?]

theorem lineageDecls (h : t.Alike t') (o : ObjectType) : t.lineageDecls o = t'.lineageDecls o := by
  have hfind : t.find? = t'.find? := funext h.find?
  rw [ClassTable.lineageDecls, ClassTable.lineageDecls, hfind]

theorem fieldOf (h : t.Alike t') (o : ObjectType) (name : String) :
    t.fieldOf o name = t'.fieldOf o name := by
  rw [ClassTable.fieldOf, ClassTable.fieldOf, h.lineageDecls]

theorem initialValue (h : t.Alike t') (d : FieldDecl) : t.initialValue d = t'.initialValue d := by
  rw [ClassTable.initialValue, ClassTable.initialValue, h.typeOf]

/-- Fields are defined with the same types and the same initial values. -/
theorem defineAll (h : t.Alike t') (define : Heap → Field → Ty → Value → Except AccessError Heap)
    (fields : List FieldDecl) (heap : Heap) :
    t.defineAll define fields heap = t'.defineAll define fields heap := by
  induction fields generalizing heap with
  | nil => rfl
  | cons d rest ih => simp only [ClassTable.defineAll, h.typeOf, h.initialValue, ih]

theorem instantiate (h : t.Alike t') (heap : Heap) (n : ClassName) :
    t.instantiate heap n = t'.instantiate heap n := by
  simp only [ClassTable.instantiate, h.objectType?, h.lineageDecls, h.defineAll]

/-- **Tables that are alike answer every question alike.** -/
theorem sameAnswers (h : t.Alike t') : t.SameAnswers t' where
  objectType? := h.objectType?
  resolveName? := h.resolveName?
  matchPath segments := h.matchRun segments segments.length
  typeOf := h.typeOf
  fieldOf := h.fieldOf
  declaredField n name := by rw [h.find?]
  instantiate := h.instantiate

end Alike

/-! ### Two orders -/

/-- **Declarations are registered in any order.**  If they are of different classes, none with a
repeated field and none above itself, all of them are registered in any two orders, and the two
tables answer every question alike. -/
theorem registerAll_of_perm (rules : NameRules) {decls decls' : List ClassDecl}
    (hperm : decls.Perm decls') (hnames : (decls.map (·.name)).Nodup)
    (hfields : ∀ d ∈ decls, (d.fields.map (·.field.name)).Nodup) (hacyclic : Acyclic decls) :
    ∃ t t', registerAll { rules := rules } decls = .ok t ∧
      registerAll { rules := rules } decls' = .ok t' ∧ t.SameAnswers t' := by
  have hnames' : (decls'.map (·.name)).Nodup := (hperm.map _).nodup_iff.mp hnames
  have hfields' : ∀ d ∈ decls', (d.fields.map (·.field.name)).Nodup :=
    fun d hd => hfields d (hperm.mem_iff.mpr hd)
  let t : ClassTable := { rules := rules, decls := decls }
  let t' : ClassTable := { rules := rules, decls := decls' }
  have halike : t.Alike t' := alike_of_perm rfl hperm hnames
  -- what is above a class does not depend on the order either
  have habove : Above decls = Above decls' := by
    funext n m
    have hsupers : supertypesIn t.decls n = supertypesIn t'.decls n :=
      supertypesIn_of_perm hperm hnames n
    rw [Above, Above, hsupers]
  have hacyclic' : Acyclic decls' := by
    intro n
    rw [← habove]
    exact hacyclic n
  exact ⟨t, t', registerAll_eq_ok decls { rules := rules } hnames hfields hacyclic,
    registerAll_eq_ok decls' { rules := rules } hnames' hfields' hacyclic', halike.sameAnswers⟩

end ClassTable

end FieldPath
