import FieldPath.Path.Expr
import FieldPath.Text.Identifier

/-!
# The grammar of paths

A path is one identifier or several with single dots between them.  One identifier is the name of a
binding.  Several are a field, named by the last one, after segments whose meaning is found later.

## Main definitions

* `isPathText` — the form of a path.
* `Expr.parse` — the expression of a text.
-/

namespace FieldPath

/-- Every segment of the text is an identifier. -/
def isPathText (text : String) : Bool :=
  (Dotted.split text).all fun segment => isIdentifier segment.toList

namespace Expr

/-- The expression of some segments: a name, or a field after a path. -/
def ofSegments (segments : List String) (h : segments ≠ []) (span : Span) : Expr :=
  let last := segments.getLast h
  match segments.dropLast with
  | [] => ofName last span
  | before => .path before last span

/-- The expression of a text that starts at a position. -/
def parse (text : String) (span : Span) : Except ResolutionError Expr :=
  if isPathText text then .ok (ofSegments (Dotted.split text) (Dotted.split_ne_nil text) span)
  else .error ⟨span, .malformedPath text⟩

end Expr

end FieldPath
