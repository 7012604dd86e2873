import FieldPath.Ty.ClassName

/-!
# How much of a path spells a class

A universe that matches a path to a class answers the full name of the class and not how many
segments named it.  The count is found by comparing the segments with the name.  A path that starts
like the name is read as the full name; any other path must start with the last segments of the
name, as `Thread` does for `java.lang.Thread`.

## Main definitions

* `fittingRun` — how many leading segments fit into a number of bytes.
* `suffixRun` — how many leading segments are the last segments of a name.
* `spelledSegments` — how many leading segments spell a class name.
-/

namespace FieldPath

/-- How many of the segments fit into `limit` bytes when the first one starts at byte `start` and a
dot stands before each of the others. -/
def fittingRun (limit : Nat) : Nat → List String → Nat
  | _, [] => 0
  | start, segment :: rest =>
      let stop := start + segment.utf8ByteSize
      if limit < stop then 0 else fittingRun limit (stop + 1) rest + 1

/-- The greatest number from one to `count` of leading segments that are the last segments of the
name. -/
def suffixRun (path name : List String) : Nat → Option Nat
  | 0 => none
  | count + 1 =>
      if name.drop (name.length - (count + 1)) = path.take (count + 1) then some (count + 1)
      else suffixRun path name count

/-- The path starts with the first segment of the name, and the segments that fit into the length
of the name are the name. -/
def fullRun? (path : List String) (name : ClassName) : Option Nat :=
  let count := fittingRun name.byteLength 0 path
  if path.head? = name.segments.head? ∧ 0 < count ∧
      ClassName.ofSegments (path.take count) = name then some count
  else none

/-- How many leading segments of the path spell the name, in full or by its last segments. -/
def spelledSegments (path : List String) (name : ClassName) : Option Nat :=
  match fullRun? path name with
  | some count => some count
  | none => suffixRun path name.segments (min path.length name.segments.length)

/-- Only a path with segments spells a name. -/
@[simp] theorem spelledSegments_nil (name : ClassName) : spelledSegments [] name = none := by
  simp [spelledSegments, fullRun?, fittingRun, suffixRun]

end FieldPath
