import FieldPath.Proofs.ClassTable.Indexes
import Mathlib.Data.List.Basic

/-!
# The order of the ancestors

The search for the ancestors of a class goes breadth-first.  After `k` levels it has seen the
classes that chains of at most `k` supertypes lead to, and its frontier holds those that no shorter
chain leads to, so the distance from the class never decreases along the list.  Inside a level, and
between any two ancestors, the order is that of discovery: the list discovers the supertypes of its
own members, first those of the class, then those of the first ancestor, and so on.

## Main definitions

* `Leads`, `Distance` — chains of supertypes of a given length, and the shortest of them.
* `finder?` — the class of a lineage below which another one is found first.
* `BreadthFirst` — the ancestors of a class, listed breadth-first.
* `Searched` — what the search has seen after a number of levels.

## Main results

* `levelsAbove_nearest_first` — the levels are found by their distance.
* `pairwise_discover` — what is discovered stands in the order of its first occurrences.
* `ancestorsIn_breadthFirst` — **the ancestors of an acyclic hierarchy are listed breadth-first.**
* `registered_hierarchy` — what holds of the hierarchy of a registry with any history.
-/

namespace FieldPath

/-! ### Distances -/

/-- A chain of `k` declared supertypes leads from `lower` to `upper`. -/
def Leads (decls : List ClassDecl) : Nat → ClassName → ClassName → Prop
  | 0, lower, upper => lower = upper
  | k + 1, lower, upper => ∃ n, Leads decls k lower n ∧ Above decls n upper

/-- The shortest chain from `lower` to `upper` has `k` supertypes. -/
def Distance (decls : List ClassDecl) (lower upper : ClassName) (k : Nat) : Prop :=
  Leads decls k lower upper ∧ ∀ j, Leads decls j lower upper → k ≤ j

/-- The class of a lineage below which another one is found first. -/
def finder? (decls : List ClassDecl) (lineage : List ClassName) (n : ClassName) :
    Option ClassName :=
  lineage.find? fun m => decide (n ∈ supertypesIn decls m)

/-- The ancestors of a class, listed breadth-first. -/
structure BreadthFirst (decls : List ClassDecl) (c : ClassName) (names : List ClassName) :
    Prop where
  /-- One or more declared supertypes lead to the listed classes, and to no others. -/
  mem_iff : ∀ n, n ∈ names ↔ Relation.TransGen (Above decls) c n
  /-- Every class is listed once. -/
  nodup : names.Nodup
  /-- The class itself is not listed. -/
  notMem : c ∉ names
  /-- The distance from the class never decreases. -/
  nearest_first : names.Pairwise fun a b =>
    ∃ i j, Distance decls c a i ∧ Distance decls c b j ∧ i ≤ j
  /-- Of two classes, the one that is found below an earlier class is listed first, and of two
  classes that are found below the same one, the one that it declares first. -/
  in_order : names.Pairwise fun a b =>
    ∃ p q, finder? decls (c :: names) a = some p ∧ finder? decls (c :: names) b = some q ∧
      ((c :: names).idxOf p < (c :: names).idxOf q ∨
        p = q ∧ (supertypesIn decls p).idxOf a < (supertypesIn decls p).idxOf b)

section Distances

variable {decls : List ClassDecl} {c : ClassName}

/-! ### The levels -/

/-- The search has seen the classes within distance `k`, and the frontier is at distance `k`. -/
structure Searched (decls : List ClassDecl) (c : ClassName) (k : Nat)
    (seen frontier : List ClassName) : Prop where
  /-- A class is seen if a chain of at most `k` supertypes leads to it. -/
  mem_seen : ∀ n, n ∈ seen ↔ ∃ j ≤ k, Leads decls j c n
  /-- A class is on the frontier if the shortest chain to it has `k` supertypes. -/
  mem_frontier : ∀ n, n ∈ frontier ↔ Distance decls c n k

theorem searched_zero : Searched decls c 0 [c] [c] := by
  refine ⟨fun n => ?_, fun n => ?_⟩
  · rw [List.mem_singleton]
    constructor
    · rintro rfl
      exact ⟨0, Nat.le_refl 0, rfl⟩
    · rintro ⟨j, hj, hleads⟩
      rw [Nat.le_zero.mp hj] at hleads
      exact Eq.symm hleads
  · rw [List.mem_singleton]
    exact ⟨fun h => ⟨h.symm, fun j _ => Nat.zero_le j⟩, fun h => h.1.symm⟩

/-- A level holds the classes at the next distance. -/
theorem Searched.mem_level {k : Nat} {seen frontier : List ClassName}
    (h : Searched decls c k seen frontier) (n : ClassName) :
    n ∈ discover seen (frontier.flatMap (supertypesIn decls)) ↔ Distance decls c n (k + 1) := by
  constructor
  · intro hn
    obtain ⟨m, hm, hmn⟩ := List.mem_flatMap.mp (mem_of_mem_discover hn)
    refine ⟨⟨m, ((h.mem_frontier m).mp hm).1, hmn⟩, fun j hj => ?_⟩
    -- a class within distance `k` was seen before
    have hnew : ¬ ∃ i ≤ k, Leads decls i c n :=
      fun hseen => not_mem_of_mem_discover hn ((h.mem_seen n).mpr hseen)
    by_contra hlt
    exact hnew ⟨j, by omega, hj⟩
  · rintro ⟨⟨m, hm, hmn⟩, hmin⟩
    -- the class before the last link is on the frontier, or else there is a shorter chain
    have hfrontier : m ∈ frontier := by
      refine (h.mem_frontier m).mpr ⟨hm, fun j hj => ?_⟩
      have hlonger : k + 1 ≤ j + 1 := hmin (j + 1) ⟨m, hj, hmn⟩
      omega
    have hnew : n ∉ seen := by
      intro hseen
      obtain ⟨j, hj, hleads⟩ := (h.mem_seen n).mp hseen
      have hle : k + 1 ≤ j := hmin j hleads
      omega
    exact mem_discover_of_mem (List.mem_flatMap.mpr ⟨m, hfrontier, hmn⟩) hnew

/-- **One more level is one more supertype.** -/
theorem Searched.next {k : Nat} {seen frontier : List ClassName}
    (h : Searched decls c k seen frontier) :
    Searched decls c (k + 1) (discover seen (frontier.flatMap (supertypesIn decls)) ++ seen)
      (discover seen (frontier.flatMap (supertypesIn decls))) := by
  refine ⟨fun n => ?_, h.mem_level⟩
  rw [List.mem_append, h.mem_level, h.mem_seen]
  constructor
  · rintro (hn | ⟨j, hj, hleads⟩)
    · exact ⟨k + 1, Nat.le_refl _, hn.1⟩
    · exact ⟨j, by omega, hleads⟩
  · rintro ⟨j, hj, hleads⟩
    by_cases hnear : ∃ i ≤ k, Leads decls i c n
    · exact Or.inr hnear
    · refine Or.inl ⟨?_, fun i hi => ?_⟩
      · have hlast : j = k + 1 := by
          by_contra hne
          exact hnear ⟨j, by omega, hleads⟩
        exact hlast ▸ hleads
      · by_contra hlt
        exact hnear ⟨i, by omega, hi⟩

/-- **The levels are found by their distance**, which is greater than that of the frontier. -/
theorem levelsAbove_nearest_first : ∀ (fuel k : Nat) (seen frontier : List ClassName),
    Searched decls c k seen frontier →
      (∀ n ∈ levelsAbove decls fuel seen frontier, ∃ i, k < i ∧ Distance decls c n i) ∧
      (levelsAbove decls fuel seen frontier).Pairwise fun a b =>
        ∃ i j, Distance decls c a i ∧ Distance decls c b j ∧ i ≤ j := by
  intro fuel
  induction fuel with
  | zero => intro k seen frontier _; simp [levelsAbove]
  | succ fuel ih =>
    intro k seen frontier h
    obtain ⟨hfar, hrest⟩ := ih (k + 1) _ _ h.next
    simp only [levelsAbove]
    split
    · simp
    · refine ⟨fun n hn => ?_, List.pairwise_append.mpr ⟨?_, hrest, fun a ha b hb => ?_⟩⟩
      · rcases List.mem_append.mp hn with hn | hn
        · exact ⟨k + 1, Nat.lt_succ_self k, (h.mem_level n).mp hn⟩
        · obtain ⟨i, hi, hdist⟩ := hfar n hn
          exact ⟨i, by omega, hdist⟩
      · -- the classes of one level are equally far
        refine List.pairwise_of_forall_mem_list fun a ha b hb => ?_
        exact ⟨k + 1, k + 1, (h.mem_level a).mp ha, (h.mem_level b).mp hb, Nat.le_refl _⟩
      · obtain ⟨j, hj, hdist⟩ := hfar b hb
        exact ⟨k + 1, j, (h.mem_level a).mp ha, hdist, Nat.le_of_lt hj⟩

end Distances

/-! ### The order of discovery -/

/-- **What is discovered stands in the order of its first occurrences.** -/
theorem pairwise_discover : ∀ (names seen : List ClassName),
    (discover seen names).Pairwise fun a b => names.idxOf a < names.idxOf b := by
  intro names
  induction names with
  | nil => intro seen; exact List.Pairwise.nil
  | cons m rest ih =>
    intro seen
    -- what is discovered in the rest is not the first name, so its place is one more than there
    have hlater : ∀ seen', m ∈ seen' → (discover seen' rest).Pairwise
        fun a b => (m :: rest).idxOf a < (m :: rest).idxOf b := by
      intro seen' hm
      refine (ih seen').imp_of_mem fun ha hb hab => ?_
      have hne : ∀ n ∈ discover seen' rest, m ≠ n := by
        rintro n hn rfl
        exact not_mem_of_mem_discover hn hm
      rw [List.idxOf_cons_ne _ (hne _ ha), List.idxOf_cons_ne _ (hne _ hb)]
      exact Nat.succ_lt_succ hab
    simp only [discover]
    split
    · next hm => exact hlater seen (List.contains_iff_mem.mp hm)
    · refine List.pairwise_cons.mpr ⟨fun n hn => ?_, hlater _ List.mem_cons_self⟩
      have hne : m ≠ n := by
        rintro rfl
        exact not_mem_of_mem_discover hn List.mem_cons_self
      rw [List.idxOf_cons_self, List.idxOf_cons_ne _ hne]
      exact Nat.succ_pos _

section Finders

variable {decls : List ClassDecl}

theorem finder?_cons (m : ClassName) (rest : List ClassName) (n : ClassName) :
    finder? decls (m :: rest) n =
      if n ∈ supertypesIn decls m then some m else finder? decls rest n := by
  by_cases hn : n ∈ supertypesIn decls m
  · simp [finder?, hn]
  · simp [finder?, hn]

/-- The finder is a class of the lineage, directly below what it finds. -/
theorem above_of_finder? {lineage : List ClassName} {n p : ClassName}
    (h : finder? decls lineage n = some p) : p ∈ lineage ∧ n ∈ supertypesIn decls p :=
  ⟨List.mem_of_find?_eq_some h, by simpa using List.find?_some h⟩

theorem exists_finder? {lineage : List ClassName} {n : ClassName}
    (h : n ∈ lineage.flatMap (supertypesIn decls)) : ∃ p, finder? decls lineage n = some p := by
  obtain ⟨m, hm, hn⟩ := List.mem_flatMap.mp h
  refine Option.isSome_iff_exists.mp (List.find?_isSome.mpr ⟨m, hm, ?_⟩)
  simpa using hn

/-- **The supertypes of a lineage, taken one after the other, have their first occurrences in the
order of their finders**, and below one finder in the order of its declaration. -/
theorem finder?_order {a b : ClassName} : ∀ (lineage : List ClassName) {p q : ClassName},
    finder? decls lineage a = some p → finder? decls lineage b = some q →
      (lineage.flatMap (supertypesIn decls)).idxOf a <
        (lineage.flatMap (supertypesIn decls)).idxOf b →
      lineage.idxOf p < lineage.idxOf q ∨
        p = q ∧ (supertypesIn decls p).idxOf a < (supertypesIn decls p).idxOf b := by
  intro lineage
  induction lineage with
  | nil => intro p q hp; simp [finder?] at hp
  | cons m rest ih =>
    intro p q hp hq hlt
    -- what the first class does not find is found below another one
    have hother : ∀ {n r}, n ∉ supertypesIn decls m → finder? decls rest n = some r → m ≠ r := by
      rintro n r hn hr rfl
      exact hn (above_of_finder? hr).2
    rw [finder?_cons] at hp hq
    rw [List.flatMap_cons] at hlt
    by_cases ha : a ∈ supertypesIn decls m
    · rw [if_pos ha, Option.some.injEq] at hp
      subst hp
      by_cases hb : b ∈ supertypesIn decls m
      · rw [if_pos hb, Option.some.injEq] at hq
        rw [List.idxOf_append_of_mem ha, List.idxOf_append_of_mem hb] at hlt
        exact Or.inr ⟨hq, hlt⟩
      · rw [if_neg hb] at hq
        rw [List.idxOf_cons_self, List.idxOf_cons_ne _ (hother hb hq)]
        exact Or.inl (Nat.succ_pos _)
    · rw [if_neg ha] at hp
      rw [List.idxOf_append_of_notMem ha] at hlt
      by_cases hb : b ∈ supertypesIn decls m
      · -- then `b` occurs before `a`
        rw [List.idxOf_append_of_mem hb] at hlt
        have hplace := List.idxOf_lt_length_of_mem hb
        omega
      · rw [if_neg hb] at hq
        rw [List.idxOf_append_of_notMem hb] at hlt
        refine (ih hp hq (by omega)).imp_left fun hlater => ?_
        rw [List.idxOf_cons_ne _ (hother ha hp), List.idxOf_cons_ne _ (hother hb hq)]
        exact Nat.succ_lt_succ hlater

end Finders

/-! ### The ancestors -/

/-- The ancestors of a class are discovered among the supertypes of its lineage. -/
theorem ancestorsIn_eq_discover (decls : List ClassDecl) (c : ClassName) :
    ancestorsIn decls c =
      discover [c] ((c :: ancestorsIn decls c).flatMap (supertypesIn decls)) :=
  levelsAbove_eq_discover decls (decls.length + 1) [c] [c] (enough_ancestorsIn decls c)

/-- **The ancestors of an acyclic hierarchy are listed breadth-first.** -/
theorem ancestorsIn_breadthFirst {decls : List ClassDecl} (hacyclic : Acyclic decls)
    (c : ClassName) : BreadthFirst decls c (ancestorsIn decls c) := by
  have hfound := ancestorsIn_eq_discover decls c
  have hself : c ∉ ancestorsIn decls c := by
    rw [hfound]
    exact fun hc => not_mem_of_mem_discover hc List.mem_cons_self
  refine ⟨fun n => ?_, ?_, hself, ?_, ?_⟩
  · -- the lineage is what chains lead to, and no chain but the empty one leads to the class
    have hlineage : n ∈ c :: ancestorsIn decls c ↔ Relation.ReflTransGen (Above decls) c n :=
      mem_lineage_iff
    rw [List.mem_cons, Relation.reflTransGen_iff_eq_or_transGen] at hlineage
    constructor
    · intro hn
      refine (hlineage.mp (Or.inr hn)).resolve_left ?_
      rintro rfl
      exact hself hn
    · intro hn
      refine (hlineage.mpr (Or.inr hn)).resolve_left ?_
      rintro rfl
      exact hacyclic n hn
  · rw [hfound]
    exact nodup_discover _ _
  · exact (levelsAbove_nearest_first (decls.length + 1) 0 [c] [c] searched_zero).2
  · have hmem : ∀ n ∈ ancestorsIn decls c,
        n ∈ (c :: ancestorsIn decls c).flatMap (supertypesIn decls) := by
      intro n hn
      rw [hfound] at hn
      exact mem_of_mem_discover hn
    have hpairs := pairwise_discover ((c :: ancestorsIn decls c).flatMap (supertypesIn decls)) [c]
    rw [← hfound] at hpairs
    refine hpairs.imp_of_mem fun ha hb hlt => ?_
    obtain ⟨p, hp⟩ := exists_finder? (hmem _ ha)
    obtain ⟨q, hq⟩ := exists_finder? (hmem _ hb)
    exact ⟨p, q, hp, hq, finder?_order _ hp hq hlt⟩

/-! ### The hierarchy of a registry -/

/-- **What holds of the hierarchy of a registry with any history.**  No class is above itself, a
new class is refused exactly for the first supertype that is the class itself or leads back to it,
and the ancestors of a registered class are listed breadth-first. -/
theorem registered_hierarchy (paths : PathSearch) (rules : NameRules) (history : List ClassDecl) :
    let r := Registry.after paths rules history
    Acyclic r.table.decls ∧
    (∀ d : ClassDecl, r.table.contains d.name = false → (d.fields.map (·.field.name)).Nodup →
      ∀ n s, (r.register paths d).1 = .error (.circularInheritance n s) ↔
        n = d.name ∧ ∃ earlier later, d.supertypes = earlier ++ s :: later ∧
          Relation.ReflTransGen (Above r.table.decls) s d.name ∧
          ∀ p ∈ earlier, ¬ Relation.ReflTransGen (Above r.table.decls) p d.name) ∧
    ∀ n, r.table.contains n = true →
      ∃ o, r.objectType? n = some o ∧ o.name = n ∧ BreadthFirst r.table.decls n o.ancestors := by
  intro r
  obtain ⟨hconsistent, htable⟩ := Registry.after_spec paths rules history
  have hacyclic : Acyclic r.table.decls := by
    rw [htable]
    exact ClassTable.acyclic_after rules history
  refine ⟨hacyclic, fun d hnew hfields n s => ?_, fun n hn => ?_⟩
  · have hrepeated : d.repeatedField? = none :=
      ClassTable.repeatedField?_go_eq_none _ _ hfields (by simp)
    rw [← ClassTable.register_eq_circular_iff hnew hrepeated, (hconsistent.register paths d).1]
    cases r.table.register d with
    | error e => simp [Except.map]
    | ok next => simp [Except.map]
  · refine ⟨⟨n, ancestorsIn r.table.decls n⟩, ?_, rfl, ancestorsIn_breadthFirst hacyclic n⟩
    rw [hconsistent.objectType?, ClassTable.objectType?, if_pos hn]

open Diamond in
/-- The lowest class of a diamond lists its ancestors breadth-first, and the highest one is refused
if it is declared to be below the lowest one. -/
theorem registered_hierarchy_diamond :
    let r := Registry.after .byLineage {} [bottom, left, right]
    (r.register .byLineage (top.implementing bottom.name)).1 =
      .error (.circularInheritance top.name bottom.name) ∧
    ∃ o, r.objectType? bottom.name = some o ∧ o.name = bottom.name ∧
      BreadthFirst r.table.decls bottom.name o.ancestors := by
  intro r
  obtain ⟨-, hrefused, hlisted⟩ := registered_hierarchy .byLineage {} [bottom, left, right]
  refine ⟨(hrefused _ (by decide) (by decide) _ _).mpr ?_, hlisted bottom.name (by decide)⟩
  -- the class above the highest one does not lead back to it, the lowest one does
  refine ⟨rfl, [⟨"java.lang.Object"⟩], [], rfl, reaches_iff.mp (by decide), ?_⟩
  intro p hp
  rw [List.mem_singleton.mp hp, ← reaches_iff]
  decide

end FieldPath
