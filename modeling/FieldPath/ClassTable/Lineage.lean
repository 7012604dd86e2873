import FieldPath.ClassTable.ClassDecl

/-!
# Lineages

The declared supertypes make the classes a graph.  The ancestors of a class are found level by
level: the classes directly above it, then those directly above these, and so on, each level in the
order of its discovery and each class once.  A class without a declaration has nothing above it, but
it still counts as an ancestor of the classes that name it.

## Main definitions

* `supertypesIn` — the classes directly above a class.
* `discover` — the members of a list that were not met before, each once.
* `ancestorsIn` — the ancestors of a class, nearest first.
* `reaches` — one class is another or an ancestor of it.
-/

namespace FieldPath

/-- The classes directly above `name`, in the order of its declaration. -/
def supertypesIn (decls : List ClassDecl) (name : ClassName) : List ClassName :=
  match decls.find? (·.name == name) with
  | some d => d.supertypes
  | none => []

/-- The names that are not among those seen, each once, in order. -/
def discover : List ClassName → List ClassName → List ClassName
  | _, [] => []
  | seen, n :: rest =>
      if seen.contains n then discover seen rest else n :: discover (n :: seen) rest

/-- The levels above `frontier`, one after the other, without the classes already seen.  A level
that discovers nothing is the last.  The fuel bounds the number of levels. -/
def levelsAbove (decls : List ClassDecl) : Nat → List ClassName → List ClassName → List ClassName
  | 0, _, _ => []
  | fuel + 1, seen, frontier =>
      let level := discover seen (frontier.flatMap (supertypesIn decls))
      if level.isEmpty then [] else level ++ levelsAbove decls fuel (level ++ seen) level

/-- The ancestors of a class, nearest first.  Every level but the last one has a declared class, so
one level more than there are declarations is enough. -/
def ancestorsIn (decls : List ClassDecl) (name : ClassName) : List ClassName :=
  levelsAbove decls (decls.length + 1) [name] [name]

/-- `upper` is `lower` itself or an ancestor of it. -/
def reaches (decls : List ClassDecl) (lower upper : ClassName) : Bool :=
  lower == upper || (ancestorsIn decls lower).contains upper

@[simp] theorem discover_nil (seen : List ClassName) : discover seen [] = [] := rfl

/-- What is discovered was not seen before. -/
theorem not_mem_of_mem_discover {seen names : List ClassName} {n : ClassName}
    (h : n ∈ discover seen names) : n ∉ seen := by
  induction names generalizing seen with
  | nil => simp at h
  | cons m rest ih =>
    simp only [discover] at h
    split at h
    · exact ih h
    · rcases List.mem_cons.1 h with rfl | h
      · simp_all
      · exact fun hs => ih h (List.mem_cons_of_mem _ hs)

/-- Every name on a level is discovered or was seen before. -/
theorem mem_discover_of_mem {seen names : List ClassName} {n : ClassName}
    (h : n ∈ names) (hs : n ∉ seen) : n ∈ discover seen names := by
  induction names generalizing seen with
  | nil => simp at h
  | cons m rest ih =>
    simp only [discover]
    split
    · rename_i hm
      rcases List.mem_cons.1 h with rfl | h
      · simp_all
      · exact ih h hs
    · rcases List.mem_cons.1 h with rfl | h
      · simp
      · by_cases hnm : n = m
        · simp [hnm]
        · exact List.mem_cons_of_mem _ (ih h (by simp [hnm, hs]))

end FieldPath
