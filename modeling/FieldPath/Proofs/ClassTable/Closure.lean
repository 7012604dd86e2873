import FieldPath.ClassTable.Lineage
import Mathlib.Logic.Relation
import Mathlib.Tactic.Push
import Mathlib.Tactic.Tauto

/-!
# Ancestors are a transitive closure

The ancestors of a class are found level by level, with a fuel that bounds the number of levels.
Each level that goes on has a declared class that no earlier level had, so the fuel is never spent
before the levels are: the search ends with a set that is closed under direct supertypes.  Hence
the lineage of a class holds exactly the classes that chains of declared supertypes lead to, and
the lineage of an ancestor is a part of it.

## Main definitions

* `Above decls upper lower` — `upper` is declared to be directly above `lower`.
* `undiscovered decls seen` — how many declared classes were not seen yet.
* `Enough decls fuel seen frontier` — the fuel is enough for the levels above a frontier.

## Main results

* `levelsAbove_eq_discover` — the search discovers what is above its frontier and its findings.
* `levelsAbove_closed` — with enough fuel, what is found and seen is closed under supertypes.
* `mem_lineage_iff` — **the lineage of a class is what its supertypes lead to.**
* `lineage_subset` — the lineage of an ancestor is a part of the lineage of a class.
-/

namespace FieldPath

/-- The class `upper` is one of the declared supertypes of `lower`. -/
def Above (decls : List ClassDecl) (lower upper : ClassName) : Prop :=
  upper ∈ supertypesIn decls lower

/-- The number of declarations whose class is not among those seen. -/
def undiscovered (decls : List ClassDecl) (seen : List ClassName) : Nat :=
  (decls.filter fun d => !seen.contains d.name).length

/-! ### What is found -/

theorem mem_of_mem_discover : ∀ {names seen : List ClassName} {n : ClassName},
    n ∈ discover seen names → n ∈ names := by
  intro names
  induction names with
  | nil => intro seen n h; simp at h
  | cons m rest ih =>
    intro seen n h
    simp only [discover] at h
    split at h
    · exact List.mem_cons_of_mem _ (ih h)
    · rcases List.mem_cons.mp h with rfl | h
      · exact List.mem_cons_self
      · exact List.mem_cons_of_mem _ (ih h)

/-- Only the members of what was seen matter. -/
theorem discover_congr : ∀ {names seen seen' : List ClassName}, (∀ n, n ∈ seen ↔ n ∈ seen') →
    discover seen names = discover seen' names := by
  intro names
  induction names with
  | nil => intro seen seen' _; rfl
  | cons m rest ih =>
    intro seen seen' h
    have hcontains : seen.contains m = seen'.contains m := by
      rw [Bool.eq_iff_iff, List.contains_iff_mem, List.contains_iff_mem, h m]
    have hcons : discover (m :: seen) rest = discover (m :: seen') rest :=
      ih fun n => by rw [List.mem_cons, List.mem_cons, h n]
    simp only [discover, hcontains, ih h, hcons]

/-- A second list adds what neither the first one had nor was seen before. -/
theorem discover_append : ∀ (names names' seen : List ClassName),
    discover seen (names ++ names') =
      discover seen names ++ discover (discover seen names ++ seen) names' := by
  intro names
  induction names with
  | nil => intro names' seen; rfl
  | cons m rest ih =>
    intro names' seen
    simp only [List.cons_append, discover]
    split
    · exact ih names' seen
    · rw [ih, List.cons_append]
      congr 2
      exact discover_congr fun n => by simp only [List.mem_append, List.mem_cons]; tauto

theorem nodup_discover : ∀ (names seen : List ClassName), (discover seen names).Nodup := by
  intro names
  induction names with
  | nil => intro seen; exact List.nodup_nil
  | cons m rest ih =>
    intro seen
    simp only [discover]
    split
    · exact ih seen
    · exact List.nodup_cons.mpr
        ⟨fun hm => not_mem_of_mem_discover hm List.mem_cons_self, ih (m :: seen)⟩

/-- Everything above a frontier is led to by supertypes of the frontier. -/
theorem reachable_of_mem_levelsAbove (decls : List ClassDecl) {c : ClassName} :
    ∀ (fuel : Nat) (seen frontier : List ClassName),
      (∀ n ∈ frontier, Relation.ReflTransGen (Above decls) c n) →
      ∀ n ∈ levelsAbove decls fuel seen frontier, Relation.ReflTransGen (Above decls) c n := by
  intro fuel
  induction fuel with
  | zero => intro seen frontier _ n h; simp [levelsAbove] at h
  | succ fuel ih =>
    intro seen frontier hfront n h
    simp only [levelsAbove] at h
    split at h
    · simp at h
    · have hlevel : ∀ m ∈ discover seen (frontier.flatMap (supertypesIn decls)),
          Relation.ReflTransGen (Above decls) c m := by
        intro m hm
        obtain ⟨k, hk, hmk⟩ := List.mem_flatMap.mp (mem_of_mem_discover hm)
        exact (hfront k hk).tail hmk
      rcases List.mem_append.mp h with h | h
      · exact hlevel n h
      · exact ih _ _ hlevel n h

/-! ### The fuel is enough -/

theorem exists_decl_of_supertypesIn_ne_nil {decls : List ClassDecl} {n : ClassName}
    (h : supertypesIn decls n ≠ []) : ∃ d ∈ decls, d.name = n := by
  unfold supertypesIn at h
  split at h
  · next d hd => exact ⟨d, List.mem_of_find?_eq_some hd, by simpa using List.find?_some hd⟩
  · exact absurd rfl h

theorem undiscovered_le (decls : List ClassDecl) (seen : List ClassName) :
    undiscovered decls seen ≤ decls.length := List.length_filter_le _ _

/-- A level with a declared class that was not seen leaves fewer classes undiscovered. -/
theorem undiscovered_lt {decls : List ClassDecl} {seen level : List ClassName} {n : ClassName}
    (hn : n ∈ level) (hseen : n ∉ seen) (hd : ∃ d ∈ decls, d.name = n) :
    undiscovered decls (level ++ seen) < undiscovered decls seen := by
  have hsplit : (decls.filter fun d => !(level ++ seen).contains d.name)
      = (decls.filter fun d => !seen.contains d.name).filter fun d => !level.contains d.name := by
    rw [List.filter_filter]
    congr 1
    funext d
    simp
  unfold undiscovered
  rw [hsplit, List.length_filter_lt_length_iff_exists]
  obtain ⟨d, hd, rfl⟩ := hd
  exact ⟨d, List.mem_filter.mpr ⟨hd, by simpa using hseen⟩, by simpa using hn⟩

/-- The fuel is enough for the levels above a frontier: there is more of it than there are
undiscovered classes, or the frontier has nothing above it. -/
def Enough (decls : List ClassDecl) (fuel : Nat) (seen frontier : List ClassName) : Prop :=
  undiscovered decls seen < fuel ∨ ∀ n ∈ frontier, supertypesIn decls n = []

/-- Without fuel nothing is above the frontier. -/
theorem Enough.flatMap_eq_nil {decls : List ClassDecl} {seen frontier : List ClassName}
    (h : Enough decls 0 seen frontier) : frontier.flatMap (supertypesIn decls) = [] :=
  List.flatMap_eq_nil_iff.mpr (h.resolve_left (by omega))

/-- What is left of the fuel is enough for the levels above the next one. -/
theorem Enough.next {decls : List ClassDecl} {fuel : Nat} {seen frontier level : List ClassName}
    (h : Enough decls (fuel + 1) seen frontier)
    (hlevel : discover seen (frontier.flatMap (supertypesIn decls)) = level) :
    Enough decls fuel (level ++ seen) level := by
  by_cases hgo : ∃ n ∈ level, supertypesIn decls n ≠ []
  · -- a level that goes on has a declared class, which is new
    obtain ⟨n, hn, hsup⟩ := hgo
    have hnew : n ∉ seen := not_mem_of_mem_discover (hlevel ▸ hn)
    have hlt := undiscovered_lt hn hnew (exists_decl_of_supertypesIn_ne_nil hsup)
    rcases h with hfuel | hnil
    · exact Or.inl (by omega)
    · rw [List.flatMap_eq_nil_iff.mpr hnil, discover_nil] at hlevel
      rw [← hlevel] at hn
      simp at hn
  · push Not at hgo
    exact Or.inr hgo

/-- **More fuel than enough finds nothing more.** -/
theorem levelsAbove_add (decls : List ClassDecl) (more : Nat) : ∀ (fuel : Nat)
    (seen frontier : List ClassName), Enough decls fuel seen frontier →
      levelsAbove decls (fuel + more) seen frontier = levelsAbove decls fuel seen frontier := by
  intro fuel
  induction fuel with
  | zero =>
    intro seen frontier h
    cases more with
    | zero => rfl
    | succ more => simp [levelsAbove, h.flatMap_eq_nil]
  | succ fuel ih =>
    intro seen frontier h
    rw [Nat.add_right_comm]
    simp only [levelsAbove]
    rw [ih _ _ (h.next rfl)]

/-- **The search discovers what is above its frontier and above its own findings, in order.** -/
theorem levelsAbove_eq_discover (decls : List ClassDecl) : ∀ (fuel : Nat)
    (seen frontier : List ClassName), Enough decls fuel seen frontier →
      levelsAbove decls fuel seen frontier =
        discover seen
          ((frontier ++ levelsAbove decls fuel seen frontier).flatMap (supertypesIn decls)) := by
  intro fuel
  induction fuel with
  | zero =>
    intro seen frontier h
    simp [levelsAbove, h.flatMap_eq_nil]
  | succ fuel ih =>
    intro seen frontier h
    have hrest := ih _ _ (h.next rfl)
    simp only [levelsAbove]
    split
    · next hempty => rw [List.append_nil, List.isEmpty_iff.mp hempty]
    · -- the frontier discovers the level, and the level discovers the rest
      rw [List.flatMap_append, discover_append, ← hrest]

/-- **The search ends with a closed set**, if the classes seen before are closed under supertypes
but for the frontier. -/
theorem levelsAbove_closed (decls : List ClassDecl) (fuel : Nat) (seen frontier : List ClassName)
    (hseen : ∀ n ∈ seen, n ∈ frontier ∨ ∀ m, Above decls n m → m ∈ seen)
    (hfuel : Enough decls fuel seen frontier) :
    ∀ n ∈ levelsAbove decls fuel seen frontier ++ seen, ∀ m, Above decls n m →
      m ∈ levelsAbove decls fuel seen frontier ++ seen := by
  intro n hn m hm
  by_cases hms : m ∈ seen
  · exact List.mem_append_right _ hms
  · refine List.mem_append_left _ ?_
    rw [levelsAbove_eq_discover decls fuel seen frontier hfuel]
    refine mem_discover_of_mem (List.mem_flatMap.mpr ⟨n, ?_, hm⟩) hms
    rcases List.mem_append.mp hn with hn | hn
    · exact List.mem_append_right _ hn
    · exact List.mem_append_left _ ((hseen n hn).resolve_right fun hclosed => hms (hclosed m hm))

/-! ### The lineage -/

/-- The search for the ancestors of a class has enough fuel. -/
theorem enough_ancestorsIn (decls : List ClassDecl) (c : ClassName) :
    Enough decls (decls.length + 1) [c] [c] :=
  Or.inl (Nat.lt_succ_of_le (undiscovered_le _ _))

/-- The lineage of a class is closed under supertypes. -/
theorem lineage_closed {decls : List ClassDecl} {c n m : ClassName}
    (hn : n ∈ c :: ancestorsIn decls c) (hm : Above decls n m) : m ∈ c :: ancestorsIn decls c := by
  have hclosed := levelsAbove_closed decls (decls.length + 1) [c] [c]
    (fun k hk => Or.inl hk) (enough_ancestorsIn decls c)
  have hmem : ∀ k, k ∈ c :: ancestorsIn decls c ↔
      k ∈ levelsAbove decls (decls.length + 1) [c] [c] ++ [c] := by
    -- the search lists the class itself last, the lineage lists it first
    intro k
    simp only [ancestorsIn, List.mem_cons, List.mem_append, List.not_mem_nil, or_false]
    tauto
  rw [hmem] at hn ⊢
  exact hclosed n hn m hm

/-- **The lineage of a class is what its supertypes lead to.** -/
theorem mem_lineage_iff {decls : List ClassDecl} {c n : ClassName} :
    n ∈ c :: ancestorsIn decls c ↔ Relation.ReflTransGen (Above decls) c n := by
  constructor
  · intro h
    rcases List.mem_cons.mp h with rfl | h
    · exact Relation.ReflTransGen.refl
    · refine reachable_of_mem_levelsAbove decls _ _ _ ?_ n h
      intro k hk
      rw [List.mem_singleton.mp hk]
  · intro h
    induction h with
    | refl => exact List.mem_cons_self
    | tail _ hstep ih => exact lineage_closed ih hstep

/-- A class reaches what its supertypes lead to. -/
theorem reaches_iff {decls : List ClassDecl} {lower upper : ClassName} :
    reaches decls lower upper = true ↔ Relation.ReflTransGen (Above decls) lower upper := by
  rw [reaches, Bool.or_eq_true, beq_iff_eq, List.contains_iff_mem, ← mem_lineage_iff,
    List.mem_cons, eq_comm]

/-- The lineage of an ancestor is a part of the lineage of a class. -/
theorem lineage_subset {decls : List ClassDecl} {c n : ClassName}
    (h : n ∈ c :: ancestorsIn decls c) :
    n :: ancestorsIn decls n ⊆ c :: ancestorsIn decls c := by
  intro k hk
  rw [mem_lineage_iff] at h hk ⊢
  exact h.trans hk

end FieldPath
