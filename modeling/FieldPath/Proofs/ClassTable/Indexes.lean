import FieldPath.ClassTable.Registry
import FieldPath.Proofs.ClassTable.Graph
import FieldPath.Proofs.Outcome

/-!
# What the indexes of a registry say

The indexes of a registry are consistent when they say what its table says: the graph has a node
for every declared class and the links of every declaration, and the index of simple names lists
the declared classes.  Registrations keep the indexes consistent, also those that are refused.  The
nodes that a refused registration leaves behind have no links of their own, and a search starts
only at declared classes, so no answer depends on them.  Hence a registry with consistent indexes
answers every call as its table does, and two registries with one table answer alike.  So do two
registries that were given the same declarations in different orders.

## Main definitions

* `Registry.Consistent` — the indexes say what the table says.
* `Registry.Follows` — a registration answers and leaves behind what the table does.
* `ClassTable.answers` — what a table answers to a sequence of calls.
* `Registry.registerAll` — the registration of several declarations.
* `RegistryCall.asks`, `Registry.SameAnswers` — two registries answer every question alike.

## Main results

* `Registry.Consistent.register` — **a registration answers and acts as it does on the table.**
* `Registry.after_spec` — a registry with a history is consistent.
* `Registry.answers_after` — a registry answers as a class table with the same history does.
* `refused_registration_unseen` — **no later answer tells that a registration was refused.**
* `registration_order` — **the order of registrations does not matter.**
-/

namespace FieldPath

/-! ### Consistent registries -/

namespace Registry

/-- The indexes say what the table says. -/
structure Consistent (r : Registry) : Prop where
  /-- Every declared class has a node. -/
  nodes : ∀ d ∈ r.table.decls, d.name ∈ r.graph.nodes
  /-- The links from a class lead to its declared supertypes, in order. -/
  supertypes : ∀ n, r.graph.supertypes n = supertypesIn r.table.decls n
  /-- A simple name is listed with the declared classes of that simple name, in order. -/
  simpleNames : ∀ s, r.simpleNames.getD s [] =
    (r.table.decls.filter (·.name.simple == s)).map (·.name)

theorem consistent_empty (rules : NameRules) : (empty rules).Consistent := by
  refine ⟨?_, fun n => rfl, fun s => ?_⟩
  · simp [empty]
  · simp [empty]

namespace Consistent

variable {r : Registry}

/-! ### Questions -/

theorem objectType? (h : r.Consistent) (n : ClassName) :
    r.objectType? n = r.table.objectType? n := by
  unfold Registry.objectType? ClassTable.objectType?
  split
  · next hn =>
    obtain ⟨d, hd, rfl⟩ := ClassTable.contains_iff.mp hn
    rw [SupertypeGraph.ancestors_eq h.supertypes (h.nodes d hd)]
  · rfl

theorem uniqueSimple? (h : r.Consistent) (s : String) :
    r.uniqueSimple? s = r.table.uniqueSimple? s := by
  have hlist := h.simpleNames s
  rw [Std.HashMap.getD_eq_getD_getElem?] at hlist
  unfold Registry.uniqueSimple? ClassTable.uniqueSimple?
  generalize r.table.decls.filter (·.name.simple == s) = l at hlist
  generalize r.simpleNames[s]? = entry at hlist
  match l, entry with
  | [], none => rfl
  | _ :: _, none => simp at hlist
  | [], some names => rw [show names = [] from hlist]
  | [d], some names => rw [show names = [d.name] from hlist]
  | d :: e :: rest, some names =>
    rw [show names = d.name :: e.name :: rest.map (·.name) from hlist]

theorem resolveName? (h : r.Consistent) (written : String) :
    r.resolveName? written = r.table.resolveName? written := by
  rw [Registry.resolveName?, h.uniqueSimple?]
  rfl

theorem matchRun (h : r.Consistent) (segments : List String) (count : Nat) :
    r.matchRun segments count = r.table.matchRun segments count := by
  have hobject : r.objectType? = r.table.objectType? := funext h.objectType?
  induction count with
  | zero => rfl
  | succ count ih =>
    rw [Registry.matchRun, h.resolveName?, hobject, ih]
    rfl

theorem typeOf (h : r.Consistent) (c : ValueClass) : r.typeOf c = r.table.typeOf c := by
  cases c with
  | void => rfl
  | primitive k => rfl
  | named n =>
    rw [Registry.typeOf, h.objectType?]
    rfl

/-- **A registry with consistent indexes is the type universe of its table.** -/
theorem toUniverse (h : r.Consistent) : r.toUniverse = r.table.toUniverse := by
  have hmatch : r.matchPath = r.table.matchPath :=
    funext fun segments => h.matchRun segments segments.length
  have htype : r.typeOf = r.table.typeOf := funext h.typeOf
  rw [Registry.toUniverse, hmatch, htype]
  rfl

theorem defineAll (h : r.Consistent)
    (define : Heap → Field → Ty → Value → Except AccessError Heap) (fields : List FieldDecl) :
    r.defineAll define fields = r.table.defineAll define fields := by
  induction fields with
  | nil => rfl
  | cons d rest ih =>
    funext heap
    rw [Registry.defineAll, h.typeOf, ih]
    rfl

theorem instantiate (h : r.Consistent) (heap : Heap) (n : ClassName) :
    r.instantiate heap n = r.table.instantiate heap n := by
  have hlayout : r.defineAll = r.table.defineAll :=
    funext fun define => funext fun fields => h.defineAll define fields
  rw [Registry.instantiate, h.objectType?, hlayout]
  rfl

/-! ### Registrations -/

/-- The index of simple names lists a new class last. -/
theorem simpleNames_enter (h : r.Consistent) (d : ClassDecl) (s : String) :
    (r.enter d).simpleNames.getD s [] =
      ((r.enter d).table.decls.filter (·.name.simple == s)).map (·.name) := by
  simp only [Registry.enter, Std.HashMap.getD_insert, List.filter_append, List.map_append,
    h.simpleNames]
  by_cases hs : d.name.simple = s
  · simp [hs]
  · simp [hs]

/-- A new class that has a node is entered with its links. -/
theorem enter (h : r.Consistent) {d : ClassDecl} (hnew : r.table.contains d.name = false)
    (hnode : d.name ∈ r.graph.nodes) :
    ({ r with graph := .linkAll d.name d.supertypes r.graph }.enter d : Registry).Consistent := by
  obtain ⟨hsupertypes, hnodes⟩ := SupertypeGraph.linkAll_spec d.name d.supertypes r.graph
  refine ⟨fun e he => hnodes _ ?_, fun n => ?_, h.simpleNames_enter d⟩
  · rcases List.mem_append.mp he with he | he
    · exact h.nodes e he
    · rw [List.mem_singleton.mp he]
      exact hnode
  · show (SupertypeGraph.linkAll d.name d.supertypes r.graph).supertypes n =
      supertypesIn (r.table.decls ++ [d]) n
    rw [hsupertypes, h.supertypes, supertypesIn_snoc (ClassTable.find?_eq_none_of_contains hnew)]

/-- The test of the supertypes of a declaration finds the circular one.  It leaves the indexes
consistent, and the class with a node. -/
theorem exists_tested (h : r.Consistent) (paths : PathSearch) (d : ClassDecl) :
    ∃ tested, SupertypeGraph.firstCircular paths d.name d.supertypes (r.graph.node d.name) =
        (r.table.circularSupertype? d, tested) ∧
      ({ r with graph := tested } : Registry).Consistent ∧ d.name ∈ tested.nodes := by
  have hnode : ∀ n, (r.graph.node d.name).supertypes n = supertypesIn r.table.decls n := by
    rw [SupertypeGraph.supertypes_congr (r.graph.links_node d.name)]
    exact h.supertypes
  obtain ⟨tested, htested, hsame, hnodes⟩ :=
    SupertypeGraph.exists_firstCircular paths d.name d.supertypes _ hnode
  refine ⟨tested, htested, ⟨fun e he => ?_, hsame, h.simpleNames⟩, ?_⟩
  · exact hnodes _ (SupertypeGraph.mem_nodes_node _ (h.nodes e he))
  · exact hnodes _ (SupertypeGraph.mem_nodes_node_self r.graph d.name)

end Consistent

/-- A registration answers and leaves behind what the table does. -/
structure Follows (t : ClassTable) (d : ClassDecl)
    (result : Except RegistrationError Unit × Registry) : Prop where
  /-- The table has the same outcome. -/
  outcome : result.1 = (t.register d).map fun _ => ()
  /-- The table after it is the table after an attempt. -/
  table : result.2.table = t.attempt d
  /-- The indexes are consistent. -/
  consistent : result.2.Consistent

theorem Follows.refused {t : ClassTable} {d : ClassDecl} {e : RegistrationError} {r : Registry}
    (htable : t.register d = .error e) (hsame : r.table = t) (h : r.Consistent) :
    Follows t d (.error e, r) := by
  refine ⟨?_, ?_, h⟩
  · rw [htable]
    rfl
  · rw [ClassTable.attempt, htable]
    exact hsame

theorem Follows.entered {t next : ClassTable} {d : ClassDecl} {r : Registry}
    (htable : t.register d = .ok next) (hnext : r.table = next) (h : r.Consistent) :
    Follows t d (.ok (), r) := by
  refine ⟨?_, ?_, h⟩
  · rw [htable]
    rfl
  · rw [ClassTable.attempt, htable]
    exact hnext

/-- **A registration answers and acts as it does on the table**, and keeps the indexes
consistent. -/
theorem Consistent.register {r : Registry} (h : r.Consistent) (paths : PathSearch)
    (d : ClassDecl) : Follows r.table d (r.register paths d) := by
  rw [Registry.register]
  split
  · next hold => exact .refused (by rw [ClassTable.register, if_pos hold]) rfl h
  · next hnew =>
    split
    · next field hfields =>
      exact .refused (by rw [ClassTable.register, if_neg hnew, hfields]) rfl h
    · next hfields =>
      obtain ⟨tested, htested, hconsistent, hnode⟩ := h.exists_tested paths d
      rw [SupertypeGraph.addSupertypes, htested]
      cases hcircular : r.table.circularSupertype? d with
      | some s =>
        -- the graph may have new nodes, but the answers do not depend on them
        exact .refused (by rw [ClassTable.register, if_neg hnew, hfields, hcircular]) rfl
          hconsistent
      | none =>
        have htable :
            r.table.register d = .ok { r.table with decls := r.table.decls ++ [d] } := by
          rw [ClassTable.register, if_neg hnew, hfields, hcircular]
        exact .entered htable rfl (hconsistent.enter (by simpa using hnew) hnode)

/-! ### Histories -/

/-- **A registry with a history has consistent indexes**, and the table of the same history. -/
theorem after_spec (paths : PathSearch) (rules : NameRules) (history : List ClassDecl) :
    (after paths rules history).Consistent ∧
      (after paths rules history).table = ClassTable.after rules history := by
  have hrun : ∀ (rest : List ClassDecl) (r : Registry), r.Consistent →
      (rest.foldl (fun r d => (r.register paths d).2) r).Consistent ∧
        (rest.foldl (fun r d => (r.register paths d).2) r).table =
          rest.foldl ClassTable.attempt r.table := by
    intro rest
    induction rest with
    | nil => intro r h; exact ⟨h, rfl⟩
    | cons d rest ih =>
      intro r h
      have hfollows := h.register paths d
      rw [List.foldl_cons, List.foldl_cons, ← hfollows.table]
      exact ih _ hfollows.consistent
  exact hrun history (empty rules) (consistent_empty rules)

end Registry

/-! ### Calls -/

namespace ClassTable

/-- The answer of a table to a call, and the table after it. -/
def answer (t : ClassTable) : RegistryCall → RegistryAnswer × ClassTable
  | .register d => (.registered ((t.register d).map fun _ => ()), t.attempt d)
  | .objectType name => (.objectType (t.objectType? name), t)
  | .resolveName written => (.resolved (t.resolveName? written), t)
  | .matchPath segments => (.matched (t.matchPath segments), t)
  | .typeOf c => (.type (t.typeOf c), t)
  | .fieldOf o name => (.field (t.fieldOf o name), t)
  | .instantiate heap name =>
      (.instantiated (t.instantiate heap name).1 (t.instantiate heap name).2, t)
  | .installStatics order heap =>
      let laid := t.defineAll Heap.defineStatic (t.staticsIn order) heap
      (.installed laid.1 laid.2, t)

/-- The answers of a table to a sequence of calls. -/
def answers (t : ClassTable) : List RegistryCall → List RegistryAnswer
  | [] => []
  | c :: rest => (t.answer c).1 :: (t.answer c).2.answers rest

end ClassTable

namespace Registry

/-- **A registry with consistent indexes answers a call as its table does**, and keeps them
consistent. -/
theorem Consistent.answer {r : Registry} (h : r.Consistent) (paths : PathSearch)
    (c : RegistryCall) :
    (r.answer paths c).1 = (r.table.answer c).1 ∧
      (r.answer paths c).2.table = (r.table.answer c).2 ∧ (r.answer paths c).2.Consistent := by
  cases c with
  | register d =>
    have hfollows := h.register paths d
    exact ⟨congrArg RegistryAnswer.registered hfollows.outcome, hfollows.table,
      hfollows.consistent⟩
  | objectType name => exact ⟨congrArg RegistryAnswer.objectType (h.objectType? name), rfl, h⟩
  | resolveName written => exact ⟨congrArg RegistryAnswer.resolved (h.resolveName? written), rfl, h⟩
  | matchPath segments =>
    exact ⟨congrArg RegistryAnswer.matched (h.matchRun segments segments.length), rfl, h⟩
  | typeOf c => exact ⟨congrArg RegistryAnswer.type (h.typeOf c), rfl, h⟩
  | fieldOf o name => exact ⟨rfl, rfl, h⟩
  | instantiate heap name =>
    exact ⟨by rw [Registry.answer, ClassTable.answer, h.instantiate], rfl, h⟩
  | installStatics order heap =>
    exact ⟨by rw [Registry.answer, ClassTable.answer, installStatics, h.defineAll], rfl, h⟩

/-- It answers every sequence of calls as its table does. -/
theorem Consistent.answers {r : Registry} (h : r.Consistent) (paths : PathSearch)
    (calls : List RegistryCall) :
    r.answers paths calls = r.table.answers calls := by
  induction calls generalizing r with
  | nil => rfl
  | cons c rest ih =>
    obtain ⟨hanswer, htable, hnext⟩ := h.answer paths c
    rw [Registry.answers, ClassTable.answers, hanswer, ih hnext, htable]

end Registry

/-- **A registry answers as a class table with the same history does**, although refused
registrations leave traces in its graph. -/
theorem Registry.answers_after (paths : PathSearch) (rules : NameRules) (history : List ClassDecl)
    (calls : List RegistryCall) :
    (Registry.after paths rules history).answers paths calls =
      (ClassTable.after rules history).answers calls := by
  obtain ⟨hconsistent, htable⟩ := Registry.after_spec paths rules history
  rw [hconsistent.answers, htable]

/-- **No later answer tells that a registration was refused.** -/
theorem refused_registration_unseen (paths : PathSearch) (rules : NameRules)
    (history : List ClassDecl) {d : ClassDecl} {e : RegistrationError}
    (h : ((Registry.after paths rules history).register paths d).1 = .error e) :
    (e = .duplicateType d.name ∨ (∃ field, e = .duplicateField d.name field) ∨
      ∃ s, e = .circularInheritance d.name s) ∧
    ∀ later : List RegistryCall,
      ((Registry.after paths rules history).register paths d).2.answers paths later =
        (Registry.after paths rules history).answers paths later := by
  obtain ⟨hconsistent, -⟩ := Registry.after_spec paths rules history
  generalize Registry.after paths rules history = r at h hconsistent ⊢
  obtain ⟨houtcome, htable, hnext⟩ := hconsistent.register paths d
  -- the table refuses the declaration for the same reason, and stays as it was
  have hrefused : r.table.register d = .error e := eq_error_of_map (houtcome.symm.trans h)
  have hsame : r.table.attempt d = r.table := by rw [ClassTable.attempt, hrefused]
  refine ⟨ClassTable.register_eq_error hrefused, fun later => ?_⟩
  rw [hnext.answers, htable, hsame, hconsistent.answers]

namespace MutualClasses

/-- A class below one that is not declared. -/
def lower : ClassDecl := { name := ⟨"a.Lower"⟩, superclass := some ⟨"a.Upper"⟩ }

/-- The class above it, declared to be below it as well. -/
def upper : ClassDecl :=
  { name := ⟨"a.Upper"⟩, superclass := some ⟨"a.Top"⟩, interfaces := [⟨"a.Lower"⟩] }

/-- The class above it without that supertype. -/
def corrected : ClassDecl := { name := ⟨"a.Upper"⟩, superclass := some ⟨"a.Top"⟩ }

end MutualClasses

open MutualClasses in
/-- A declaration that would close a circle leaves a node behind, and the class can be registered
afterwards in a corrected form. -/
theorem refused_registration_unseen_mutual :
    let r := Registry.after .byLineage {} [lower]
    let refused := (r.register .byLineage upper).2
    refused.graph ≠ r.graph ∧
      refused.answers .byLineage [.register corrected, .objectType ⟨"a.Lower"⟩] =
        r.answers .byLineage [.register corrected, .objectType ⟨"a.Lower"⟩] := by
  have hrefused : ((Registry.after .byLineage {} [lower]).register .byLineage upper).1 =
      .error (.circularInheritance ⟨"a.Upper"⟩ ⟨"a.Lower"⟩) := by rfl
  exact ⟨by decide, (refused_registration_unseen .byLineage {} [lower] hrefused).2 _⟩

/-! ### Two orders -/

/-- The call asks and changes nothing.  The installation of static fields does not count: it takes
the classes in an order of its own. -/
def RegistryCall.asks : RegistryCall → Bool
  | .register _ => false
  | .installStatics _ _ => false
  | _ => true

namespace Registry

/-- The registry with several more declarations.  The first one that is refused ends it. -/
def registerAll (paths : PathSearch) (r : Registry) :
    List ClassDecl → Except RegistrationError Registry
  | [] => .ok r
  | d :: rest =>
      match r.register paths d with
      | (.ok (), r) => r.registerAll paths rest
      | (.error e, _) => .error e

/-- Two registries answer every question alike. -/
structure SameAnswers (paths : PathSearch) (r r' : Registry) : Prop where
  /-- A call that asks has the same answer. -/
  answer : ∀ c : RegistryCall, c.asks = true → (r.answer paths c).1 = (r'.answer paths c).1
  /-- A declaration has the same field of a name, with the same initial value. -/
  declaredField : ∀ n name,
    (r.table.find? n).bind (·.field? name) = (r'.table.find? n).bind (·.field? name)

/-- **Declarations that the table takes are taken by the registry.** -/
theorem Consistent.registerAll {r : Registry} (h : r.Consistent) (paths : PathSearch)
    {decls : List ClassDecl} {t : ClassTable} (ht : r.table.registerAll decls = .ok t) :
    ∃ r', r.registerAll paths decls = .ok r' ∧ r'.table = t ∧ r'.Consistent := by
  induction decls generalizing r with
  | nil => exact ⟨r, rfl, Except.ok.inj ht, h⟩
  | cons d rest ih =>
    obtain ⟨next, hnext, hrest⟩ := eq_ok_of_bind ht
    obtain ⟨houtcome, htable, hconsistent⟩ := h.register paths d
    rw [hnext] at houtcome
    rw [ClassTable.attempt, hnext] at htable
    obtain ⟨r', hr', hend⟩ := ih hconsistent (htable.symm ▸ hrest)
    refine ⟨r', ?_, hend⟩
    have hregister : r.register paths d = (.ok (), (r.register paths d).2) :=
      Prod.ext houtcome rfl
    rw [Registry.registerAll, hregister]
    exact hr'

/-- Registries answer alike if their tables do. -/
theorem Consistent.sameAnswers {r r' : Registry} (h : r.Consistent) (h' : r'.Consistent)
    (hsame : r.table.SameAnswers r'.table) (paths : PathSearch) : r.SameAnswers paths r' := by
  refine ⟨fun c hc => ?_, hsame.declaredField⟩
  rw [(h.answer paths c).1, (h'.answer paths c).1]
  cases c with
  | register d => simp [RegistryCall.asks] at hc
  | installStatics order heap => simp [RegistryCall.asks] at hc
  | objectType name => exact congrArg RegistryAnswer.objectType (hsame.objectType? name)
  | resolveName written => exact congrArg RegistryAnswer.resolved (hsame.resolveName? written)
  | matchPath segments => exact congrArg RegistryAnswer.matched (hsame.matchPath segments)
  | typeOf c => exact congrArg RegistryAnswer.type (hsame.typeOf c)
  | fieldOf o name => exact congrArg RegistryAnswer.field (hsame.fieldOf o name)
  | instantiate heap name => rw [ClassTable.answer, ClassTable.answer, hsame.instantiate]

end Registry

/-- **The order of registrations does not matter.**  Declarations of different classes, none with a
repeated field and none above itself, are all registered in any two orders, and the two registries
answer every question alike, with their graphs and their indexes of simple names.  So do the tables
of the declarations alone. -/
theorem registration_order (paths : PathSearch) (rules : NameRules) {decls decls' : List ClassDecl}
    (hperm : decls.Perm decls') (hnames : (decls.map (·.name)).Nodup)
    (hfields : ∀ d ∈ decls, (d.fields.map (·.field.name)).Nodup) (hacyclic : Acyclic decls) :
    ∃ r r', (Registry.empty rules).registerAll paths decls = .ok r ∧
      (Registry.empty rules).registerAll paths decls' = .ok r' ∧ r.SameAnswers paths r' ∧
      ClassTable.registerAll { rules := rules } decls = .ok r.table ∧
      ClassTable.registerAll { rules := rules } decls' = .ok r'.table ∧
      r.table.SameAnswers r'.table := by
  obtain ⟨t, t', ht, ht', hsame⟩ :=
    ClassTable.registerAll_of_perm rules hperm hnames hfields hacyclic
  have hempty := Registry.consistent_empty rules
  obtain ⟨r, hr, rfl, hconsistent⟩ := hempty.registerAll paths ht
  obtain ⟨r', hr', rfl, hconsistent'⟩ := hempty.registerAll paths ht'
  exact ⟨r, r', hr, hr', hconsistent.sameAnswers hconsistent' hsame paths, ht, ht', hsame⟩

namespace Diamond

/-- A class above two others, itself below a class that is not declared. -/
def top : ClassDecl := { name := ⟨"shape.Top"⟩, superclass := some ⟨"java.lang.Object"⟩ }

/-- The superclass of the lowest class. -/
def left : ClassDecl := { name := ⟨"shape.Left"⟩, superclass := some top.name }

/-- An interface of the lowest class. -/
def right : ClassDecl := { name := ⟨"shape.Right"⟩, interfaces := [top.name] }

/-- The lowest class. -/
def bottom : ClassDecl :=
  { name := ⟨"shape.Bottom"⟩, superclass := some left.name, interfaces := [right.name] }

/-- How many classes are below another one on the longest chain. -/
def rank (n : ClassName) : Nat :=
  if n = bottom.name then 0 else if n = left.name ∨ n = right.name then 1
  else if n = top.name then 2 else 3

end Diamond

/-- A diamond is registered from the lowest class upwards and from the highest downwards. -/
theorem registration_order_diamond : ∃ r r',
    (Registry.empty {}).registerAll .byLineage
      [Diamond.bottom, Diamond.left, Diamond.right, Diamond.top] = .ok r ∧
    (Registry.empty {}).registerAll .byLineage
      [Diamond.top, Diamond.right, Diamond.left, Diamond.bottom] = .ok r' ∧
    r.objectType? ⟨"shape.Bottom"⟩ = r'.objectType? ⟨"shape.Bottom"⟩ := by
  have hperm : [Diamond.bottom, Diamond.left, Diamond.right, Diamond.top].Perm
      [Diamond.top, Diamond.right, Diamond.left, Diamond.bottom] := by decide
  obtain ⟨r, r', hr, hr', hsame, -⟩ := registration_order .byLineage {} hperm (by decide)
    (by decide) (acyclic_of_rank Diamond.rank (by decide))
  have hanswer := hsame.answer (.objectType ⟨"shape.Bottom"⟩) rfl
  exact ⟨r, r', hr, hr', RegistryAnswer.objectType.inj hanswer⟩

end FieldPath
