import FieldPath.Path.ResolutionError
import FieldPath.Ty.Field

/-!
# Field expressions

A field expression names a value of a rule: a binding, a field of a class, or a field of the value
of another field expression.  An expression that was read from text starts as a bare path.  Giving
it a meaning replaces the path by a chain of fields, over a binding or over a field of a class, and
records at each node the field that was found.  Nothing that is recorded is taken back.

## Main definitions

* `ResolvedField`, `StaticRef`, `Expr` — the expressions.
* `Expr.text`, `Expr.span`, `Expr.ty`, `Expr.isResolved` — the views of an expression.
* `headSpan` — the span of the first segments of a path.
* `Expr.chain` — fields of fields, one for each segment.
-/

namespace FieldPath

/-! ### Expressions -/

/-- A field that was found, and the type of its values. -/
structure ResolvedField where
  /-- The field. -/
  field : Field
  /-- The type of its values. -/
  ty : Ty
  deriving DecidableEq, Repr

/-- A field of a class, named by the class and the field. -/
structure StaticRef where
  /-- The class. -/
  owner : ClassName
  /-- The name of the field. -/
  field : String
  /-- The position of the whole name. -/
  span : Span
  /-- The field, once it is found. -/
  resolved : Option ResolvedField
  deriving DecidableEq, Repr

/-- A field expression. -/
inductive Expr where
  /-- A binding of the rule, with its type and its slot once they are known. -/
  | binding (name : String) (span : Span) (ty : Ty) (slot : Option Nat)
  /-- A field of a class. -/
  | static (ref : StaticRef)
  /-- A field after segments that have no meaning yet. -/
  | path (segments : List String) (field : String) (span : Span)
  /-- A field of the value of an expression, once found with its type. -/
  | member (owner : Expr) (field : String) (span : Span) (resolved : Option ResolvedField)
  /-- A path that turned out to name a field of a class as a whole. -/
  | qualified (target : StaticRef) (field : String) (span : Span)
      (resolved : Option ResolvedField)
  deriving DecidableEq, Repr

namespace StaticRef

/-- The reference as rule text. -/
def text (r : StaticRef) : String := r.owner.qualified ++ "." ++ r.field

/-- The type of the field, or undefined before the field is found. -/
def ty (r : StaticRef) : Ty :=
  match r.resolved with
  | some found => found.ty
  | none => .undefined

end StaticRef

namespace Expr

/-- The binding of a name, before it is looked up. -/
def ofName (name : String) (span : Span) : Expr := .binding name span .undefined none

/-- A field of a class, before it is looked up. -/
def ofClass (owner : ClassName) (field : String) (span : Span) : Expr :=
  .static ⟨owner, field, span, none⟩

/-- A field of an expression, before it is looked up. -/
def ofOwner (owner : Expr) (field : String) (span : Span) : Expr := .member owner field span none

/-- The expression as rule text. -/
def text : Expr → String
  | .binding name _ _ _ => name
  | .static r => r.text
  | .path segments field _ => Dotted.join (segments ++ [field])
  | .member owner field _ _ => owner.text ++ "." ++ field
  | .qualified target _ _ _ => target.text

/-- The position of the expression. -/
def span : Expr → Span
  | .binding _ span _ _ => span
  | .static r => r.span
  | .path _ _ span => span
  | .member _ _ span _ => span
  | .qualified _ _ span _ => span

/-- The type of the value, or undefined before it is known. -/
def ty : Expr → Ty
  | .binding _ _ ty _ => ty
  | .static r => r.ty
  | .path _ _ _ => .undefined
  | .member _ _ _ (some found) => found.ty
  | .member _ _ _ none => .undefined
  | .qualified _ _ _ (some found) => found.ty
  | .qualified _ _ _ none => .undefined

/-- The node and every node beneath it have their meaning. -/
def isResolved : Expr → Bool
  | .binding _ _ _ slot => slot.isSome
  | .static r => r.resolved.isSome
  | .path _ _ _ => false
  | .member owner _ _ found => found.isSome && owner.isResolved
  | .qualified target _ _ found => found.isSome && target.resolved.isSome

/-- The first `count` segments of an expression that is still a path.  Once the path has a meaning
nothing is left of it, and other expressions have none. -/
def pathText? : Expr → Nat → Option String
  | .path segments _ _, count => some (Dotted.join (segments.take count))
  | .member _ _ _ _, _ => some ""
  | .qualified _ _ _ _, _ => some ""
  | .binding _ _ _ _, _ => none
  | .static _, _ => none

@[simp] theorem text_ofOwner (owner : Expr) (field : String) (span : Span) :
    (ofOwner owner field span).text = owner.text ++ "." ++ field := rfl

end Expr

/-! ### Chains -/

/-- The span of the first `count` segments of a path that starts where `span` does: their bytes,
and one for each dot between them.  The bytes are added without bound; in 32 bits the sum is the
same for a path of less than 2 ^ 32 bytes. -/
def headSpan (span : Span) (segments : List String) (count : Nat) : Span :=
  let bytes := ((segments.take count).map String.utf8ByteSize).foldr (· + ·) 0
  span.slice 0 (bytes + (count - 1))

namespace Expr

/-- A field of a field for each of the segments `rest`, over `root`.  They are the segments of
`path` from `index` on, and each node spans the path up to its own segment. -/
def chain (span : Span) (path : List String) : Expr → Nat → List String → Expr
  | root, _, [] => root
  | root, index, segment :: rest =>
      chain span path (ofOwner root segment (headSpan span path (index + 1))) (index + 1) rest

@[simp] theorem chain_nil (span : Span) (path : List String) (root : Expr) (index : Nat) :
    chain span path root index [] = root := rfl

@[simp] theorem chain_cons (span : Span) (path : List String) (root : Expr) (index : Nat)
    (segment : String) (rest : List String) :
    chain span path root index (segment :: rest) =
      chain span path (ofOwner root segment (headSpan span path (index + 1))) (index + 1) rest :=
  rfl

end Expr

end FieldPath
