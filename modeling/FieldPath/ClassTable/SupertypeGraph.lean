import FieldPath.ClassTable.Basic

/-!
# Graphs of supertypes

The links from classes to their supertypes can be kept as a graph that grows with every declaration.
A class gets a node when it is first named, as a declared class or as a supertype.  The links of a
declaration are entered after all of its supertypes were found not to lead back to the class; if one
of them does, no link is entered, but the classes that were looked at keep their nodes.

Whether a path leads from one node to another is left to a search that is chosen elsewhere.

## Main definitions

* `SupertypeGraph` — nodes and links.
* `SupertypeGraph.ancestors` — the classes that links lead to, level by level.
* `PathSearch` — a search for paths, with its law.
* `SupertypeGraph.addSupertypes` — the graph with the links of one more declaration.
-/

namespace FieldPath

/-- Classes, with links from each to its direct supertypes. -/
structure SupertypeGraph where
  /-- The classes that were named so far, in the order in which they were first named. -/
  nodes : List ClassName := []
  /-- The links from a class to a supertype, the newest first. -/
  links : List (ClassName × ClassName) := []
  deriving DecidableEq

namespace SupertypeGraph

/-- A link goes from `lower` to `upper`. -/
def Link (g : SupertypeGraph) (lower upper : ClassName) : Prop := (lower, upper) ∈ g.links

/-- The graph with a node for a class. -/
def node (g : SupertypeGraph) (name : ClassName) : SupertypeGraph :=
  if g.nodes.contains name then g else { g with nodes := g.nodes ++ [name] }

/-- The graph with one more link. -/
def link (g : SupertypeGraph) (lower upper : ClassName) : SupertypeGraph :=
  { g with links := (lower, upper) :: g.links }

/-- The nodes that links from a class lead to, along the newest link first. -/
def neighbours (g : SupertypeGraph) (name : ClassName) : List ClassName :=
  (g.links.filter (·.1 == name)).map (·.2)

/-- The direct supertypes of a class, in the order in which they were linked. -/
def supertypes (g : SupertypeGraph) (name : ClassName) : List ClassName :=
  (g.neighbours name).reverse

/-! ### Ancestors -/

/-- The supertypes of a list of classes that were not seen before, each once: those of the first
class, then those of the second one, and so on. -/
def nextLevel (g : SupertypeGraph) (seen : List ClassName) : List ClassName → List ClassName
  | [] => []
  | n :: rest =>
      let found := discover seen (g.supertypes n)
      found ++ g.nextLevel (found ++ seen) rest

/-- The levels above `frontier`, one after the other, up to an empty one.  The fuel bounds their
number. -/
def levels (g : SupertypeGraph) : Nat → List ClassName → List ClassName → List ClassName
  | 0, _, _ => []
  | fuel + 1, seen, frontier =>
      if frontier.isEmpty then []
      else
        let next := g.nextLevel seen frontier
        next ++ g.levels fuel (next ++ seen) next

/-- The ancestors of a class, nearest first.  Every level but the last one has a class with a link,
so one level more than there are links is enough. -/
def ancestors (g : SupertypeGraph) (name : ClassName) : List ClassName :=
  if g.nodes.contains name then g.levels (g.links.length + 1) [name] [name] else []

end SupertypeGraph

/-! ### Paths -/

/-- A search for paths in graphs of supertypes.  It finds one exactly if there is one. -/
structure PathSearch where
  /-- A path leads from `lower` to `upper`. -/
  connects : SupertypeGraph → ClassName → ClassName → Bool
  /-- The path is made of links.  A class is connected to itself. -/
  connects_iff : ∀ g lower upper,
    connects g lower upper = true ↔ lower = upper ∨ Relation.TransGen g.Link lower upper

namespace SupertypeGraph

/-- The first supertype that is the class or is connected to it, if there is one.  Every supertype
up to it gets a node. -/
def firstCircular (paths : PathSearch) (name : ClassName) :
    List ClassName → SupertypeGraph → Option ClassName × SupertypeGraph
  | [], g => (none, g)
  | s :: rest, g =>
      let g := g.node s
      if s == name || paths.connects g s name then (some s, g)
      else firstCircular paths name rest g

/-- The graph with links from a class to its supertypes. -/
def linkAll (name : ClassName) : List ClassName → SupertypeGraph → SupertypeGraph
  | [], g => g
  | s :: rest, g => linkAll name rest ((g.node s).link name s)

/-- The graph with the links of a declaration.  If one of them would close a cycle, none is entered,
and the graph keeps the nodes of the classes that were looked at. -/
def addSupertypes (paths : PathSearch) (g : SupertypeGraph) (name : ClassName)
    (supertypes : List ClassName) : Except RegistrationError Unit × SupertypeGraph :=
  match firstCircular paths name supertypes (g.node name) with
  | (some s, g) => (.error (.circularInheritance name s), g)
  | (none, g) => (.ok (), linkAll name supertypes g)

end SupertypeGraph

end FieldPath
