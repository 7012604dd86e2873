import FieldPath.Text.Digest
import FieldPath.Text.Dotted
import FieldPath.Text.Hex

/-!
# Class names

A class is named by dotted text such as `com.acme.Config`.  The last segment is the simple name and
the segments before it are the package.  A name without a dot has no package.

## Main definitions

* `ClassName` — a qualified name, as written.
* `ClassName.simple`, `ClassName.package?`, `ClassName.segments` — its parts.
* `ClassName.ofPackage`, `ClassName.ofSegments` — names put together from parts.
* `ClassName.internal` — the form inside emitted code, with slashes.
* `ClassName.hash` — the 64-bit digest that stands for the class.
* `ClassName.sort` — names in order.
-/

namespace FieldPath

/-- The qualified name of a class. -/
structure ClassName where
  /-- The name in dotted form. -/
  qualified : String
  deriving DecidableEq, Repr, Inhabited

namespace ClassName

/-- The name of `simple` in a package.  The empty package stands for none. -/
def ofPackage (package simple : String) : ClassName :=
  if package = "" then ⟨simple⟩ else ⟨package ++ "." ++ simple⟩

/-- The name with the given segments. -/
def ofSegments (segments : List String) : ClassName := ⟨Dotted.join segments⟩

/-- The segments of the name, from left to right.  There is at least one. -/
def segments (n : ClassName) : List String := Dotted.split n.qualified

/-- The last segment. -/
def simple (n : ClassName) : String := n.segments.getLast (Dotted.split_ne_nil _)

/-- The segments before the last, or nothing if there are none. -/
def package? (n : ClassName) : Option String :=
  match n.segments.dropLast with
  | [] => none
  | package => some (Dotted.join package)

/-- The length of the dotted form in bytes. -/
def byteLength (n : ClassName) : Nat := n.qualified.utf8ByteSize

/-- The form inside emitted references: slashes in place of dots. -/
def internal (n : ClassName) : String :=
  String.ofList (n.qualified.toList.map fun c => if c = '.' then '/' else c)

/-- The seed that sets digests of class names apart from other digests. -/
def hashSeed : UInt64 := 0x2FAC10B63A6CC57C

/-- The digest that stands for the class.  It depends on the name alone, so a class has the same
digest in every table. -/
def hash (n : ClassName) : UInt64 := digest hashSeed n.qualified.toUTF8.toList

/-- A digest as shown to people. -/
def hashText (h : UInt64) : String := "0x" ++ hexText 16 h.toNat

/-- Names in the order of their dotted forms, character by character. -/
def sort (names : List ClassName) : List ClassName :=
  names.mergeSort fun a b => decide (a.qualified ≤ b.qualified)

@[simp] theorem segments_ne_nil (n : ClassName) : n.segments ≠ [] := Dotted.split_ne_nil _

@[simp] theorem ofPackage_empty (simple : String) : ofPackage "" simple = ⟨simple⟩ := rfl

end ClassName

end FieldPath
