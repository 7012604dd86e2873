import FieldPath.ClassTable.SupertypeGraph
import FieldPath.Proofs.ClassTable.History

/-!
# What a graph of supertypes finds

A graph agrees with a list of declarations when the links from every class lead to its declared
supertypes, in order.  Then the search through the graph, which takes its levels node by node,
finds the ancestors that the search through the declarations finds level by level, and a path leads
from one class to another exactly if the one reaches the other.  Nodes without links make no
difference, since a search starts at a class and goes on along links.

## Main definitions

* `SupertypeGraph.decls` — declarations that say what the links say.
* `PathSearch.byLineage` — the search that goes through the ancestors.

## Main results

* `SupertypeGraph.ancestors_eq` — the ancestors in a graph are those of its declarations.
* `SupertypeGraph.connects_eq_reaches` — **a path search decides what reaches a class.**
* `SupertypeGraph.exists_firstCircular` — the first circular supertype that the graph finds.
-/

namespace FieldPath

namespace SupertypeGraph

variable {g : SupertypeGraph}

/-! ### Nodes and links -/

@[simp] theorem links_node (g : SupertypeGraph) (n : ClassName) : (g.node n).links = g.links := by
  unfold node
  split <;> rfl

theorem mem_nodes_node_self (g : SupertypeGraph) (n : ClassName) : n ∈ (g.node n).nodes := by
  unfold node
  split
  · next h => exact List.contains_iff_mem.mp h
  · simp

theorem mem_nodes_node {m : ClassName} (n : ClassName) (hm : m ∈ g.nodes) :
    m ∈ (g.node n).nodes := by
  unfold node
  split
  · exact hm
  · exact List.mem_append_left _ hm

theorem mem_supertypes {n m : ClassName} : m ∈ g.supertypes n ↔ g.Link n m := by
  simp [supertypes, neighbours, Link]

/-- Two graphs with the same links have the same supertypes. -/
theorem supertypes_congr {g' : SupertypeGraph} (h : g.links = g'.links) :
    g.supertypes = g'.supertypes := by
  funext n
  rw [supertypes, supertypes, neighbours, neighbours, h]

/-- **A link adds a supertype after those that its class has.** -/
theorem supertypes_link (g : SupertypeGraph) (lower upper n : ClassName) :
    (g.link lower upper).supertypes n =
      g.supertypes n ++ if lower = n then [upper] else [] := by
  simp only [supertypes, neighbours, link, List.filter_cons]
  by_cases hn : lower = n
  · simp [hn]
  · simp [hn]

/-! ### Ancestors in a graph -/

/-- Declarations that say what the links say: one for each link, with all supertypes of its
class. -/
def decls (g : SupertypeGraph) : List ClassDecl :=
  g.links.map fun l => { name := l.1, interfaces := g.supertypes l.1 }

theorem supertypesIn_decls (g : SupertypeGraph) (n : ClassName) :
    supertypesIn g.decls n = g.supertypes n := by
  unfold supertypesIn
  split
  · next d hd =>
    have hname : d.name = n := by simpa using List.find?_some hd
    obtain ⟨l, -, rfl⟩ := List.mem_map.mp (List.mem_of_find?_eq_some hd)
    have hl : l.1 = n := hname
    rw [ClassDecl.supertypes, Option.toList_none, List.nil_append, hl]
  · next hnone =>
    -- a class without a declaration is the source of no link
    rw [List.find?_eq_none] at hnone
    refine (List.eq_nil_iff_forall_not_mem.mpr fun m hm => ?_).symm
    exact hnone _ (List.mem_map_of_mem (mem_supertypes.mp hm)) (beq_self_eq_true n)

/-- The levels of a graph are found node by node, those of declarations all at once. -/
theorem nextLevel_eq (g : SupertypeGraph) : ∀ (frontier seen : List ClassName),
    g.nextLevel seen frontier = discover seen (frontier.flatMap g.supertypes) := by
  intro frontier
  induction frontier with
  | nil => intro seen; rfl
  | cons n rest ih => intro seen; rw [nextLevel, ih, List.flatMap_cons, discover_append]

theorem levels_eq (g : SupertypeGraph) : ∀ (fuel : Nat) (seen frontier : List ClassName),
    g.levels fuel seen frontier = levelsAbove g.decls fuel seen frontier := by
  have hsupertypes : supertypesIn g.decls = g.supertypes := funext g.supertypesIn_decls
  have hnil : ∀ (fuel : Nat) (seen : List ClassName), g.levels fuel seen [] = [] := by
    intro fuel seen
    cases fuel <;> rfl
  intro fuel
  induction fuel with
  | zero => intro seen frontier; rfl
  | succ fuel ih =>
    intro seen frontier
    simp only [levels, levelsAbove, hsupertypes, nextLevel_eq]
    cases frontier with
    | nil => rfl
    | cons n rest =>
      generalize discover seen ((n :: rest).flatMap g.supertypes) = level
      cases level with
      | nil => exact hnil fuel _
      | cons m level => simp only [List.isEmpty_cons, Bool.false_eq_true, if_false, ih]

/-- **The ancestors in a graph are those of any declarations with the same links.** -/
theorem ancestors_eq {ds : List ClassDecl} (h : ∀ n, g.supertypes n = supertypesIn ds n)
    {n : ClassName} (hn : n ∈ g.nodes) : g.ancestors n = ancestorsIn ds n := by
  have hdecls : g.ancestors n = ancestorsIn g.decls n := by
    rw [ancestors, if_pos (List.contains_iff_mem.mpr hn), levels_eq, ancestorsIn, decls,
      List.length_map]
  rw [hdecls]
  exact ClassTable.ancestorsIn_congr (fun m => by rw [supertypesIn_decls, h]) n

end SupertypeGraph

/-! ### Paths in a graph -/

/-- The search that goes through the ancestors of a class. -/
def PathSearch.byLineage : PathSearch where
  connects g lower upper := reaches g.decls lower upper
  connects_iff g lower upper := by
    have hlink : Above g.decls = g.Link := by
      funext n m
      rw [Above, SupertypeGraph.supertypesIn_decls, SupertypeGraph.mem_supertypes]
    rw [reaches_iff, hlink, Relation.reflTransGen_iff_eq_or_transGen, eq_comm]

namespace SupertypeGraph

/-- A search finds the paths that the links make, whatever nodes there are besides. -/
theorem connects_eq_reaches (paths : PathSearch) {g : SupertypeGraph} {ds : List ClassDecl}
    (h : ∀ n, g.supertypes n = supertypesIn ds n) (lower upper : ClassName) :
    paths.connects g lower upper = reaches ds lower upper := by
  have hlink : Above ds = g.Link := by
    funext n m
    rw [Above, ← h, mem_supertypes]
  rw [Bool.eq_iff_iff, paths.connects_iff, reaches_iff, hlink,
    Relation.reflTransGen_iff_eq_or_transGen, eq_comm]

/-- The test of the supertypes finds the first one that reaches the class, and only adds nodes. -/
theorem exists_firstCircular (paths : PathSearch) {ds : List ClassDecl} (name : ClassName) :
    ∀ (supers : List ClassName) (g : SupertypeGraph), (∀ n, g.supertypes n = supertypesIn ds n) →
      ∃ tested, firstCircular paths name supers g = (supers.find? (reaches ds · name), tested) ∧
        (∀ n, tested.supertypes n = supertypesIn ds n) ∧ ∀ m ∈ g.nodes, m ∈ tested.nodes := by
  intro supers
  induction supers with
  | nil => intro g h; exact ⟨g, rfl, h, fun m hm => hm⟩
  | cons s rest ih =>
    intro g h
    have hnode : ∀ n, (g.node s).supertypes n = supertypesIn ds n := by
      rw [supertypes_congr (g.links_node s)]
      exact h
    have htest : (s == name || paths.connects (g.node s) s name) = reaches ds s name := by
      rw [connects_eq_reaches paths hnode, reaches, ← Bool.or_assoc, Bool.or_self]
    simp only [firstCircular, htest, List.find?_cons]
    cases reaches ds s name with
    | true => exact ⟨g.node s, rfl, hnode, fun m hm => mem_nodes_node s hm⟩
    | false =>
      obtain ⟨tested, heq, hsupertypes, hnodes⟩ := ih (g.node s) hnode
      exact ⟨tested, heq, hsupertypes, fun m hm => hnodes m (mem_nodes_node s hm)⟩

/-- The links of a declaration add its supertypes to its class, in order. -/
theorem linkAll_spec (name : ClassName) : ∀ (supers : List ClassName) (g : SupertypeGraph),
    (∀ n, (linkAll name supers g).supertypes n =
      g.supertypes n ++ if name = n then supers else []) ∧
      ∀ m ∈ g.nodes, m ∈ (linkAll name supers g).nodes := by
  intro supers
  induction supers with
  | nil => intro g; simp [linkAll]
  | cons s rest ih =>
    intro g
    obtain ⟨hsupertypes, hnodes⟩ := ih ((g.node s).link name s)
    refine ⟨fun n => ?_, fun m hm => hnodes m (mem_nodes_node s hm)⟩
    rw [linkAll, hsupertypes, supertypes_link, supertypes_congr (g.links_node s)]
    by_cases hn : name = n
    · simp [hn]
    · simp [hn]

end SupertypeGraph

end FieldPath
