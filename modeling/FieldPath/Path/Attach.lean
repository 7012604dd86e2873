import FieldPath.Path.Bindings
import FieldPath.Path.Expr

/-!
# Bindings in expressions

The first pass over an expression looks its names up in the bindings of the rule.  A path whose
first segment is bound becomes a chain of fields over that binding, even if a class goes by the same
name.  Every other path is left for the types to decide.

## Main definitions

* `Expr.bind` — the expression with its bindings looked up.
-/

namespace FieldPath

namespace Expr

/-- A binding as an expression at a position. -/
def ofBinding (b : Binding) (name : String) (span : Span) : Expr :=
  .binding name span b.ty (some b.slot)

/-- The expression with its bindings looked up.  It fails at a name that is not bound, except for
the first segment of a path, which may also belong to the name of a class. -/
def bind (bindings : Bindings) : Expr → Except ResolutionError Expr
  | .binding name span _ _ =>
      match bindings.lookup name with
      | some b => .ok (ofBinding b name span)
      | none => .error ⟨span, .unknownVariable name⟩
  | .member owner field span found =>
      (owner.bind bindings).map fun owner => .member owner field span found
  | .path [] field span => .ok (.path [] field span)
  | .path (root :: rest) field span =>
      match bindings.lookup root with
      | some b =>
          let path := root :: rest
          let start := ofBinding b root (headSpan span path 1)
          .ok (ofOwner (chain span path start 1 rest) field span)
      | none => .ok (.path (root :: rest) field span)
  | e => .ok e

end Expr

end FieldPath
