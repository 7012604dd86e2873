import FieldPath.Path.Attach
import FieldPath.Path.Spelling
import FieldPath.Universe

/-!
# Types of expressions

Finding the type of an expression has two steps.  First a path that no binding has claimed is
spelled out: its leading segments name a class, the next one a field of that class, and the others
fields of fields.  Then every node looks up its field, from the innermost to the outermost, and
records it.  What was recorded is used again, so a second look gives the same type.

An error stops the look-up at its node.  The expression keeps what was recorded before, which
changes the outcome of no later look.

## Main definitions

* `Expr.spellOut` — the expression without unclaimed paths.
* `Universe.findStatic`, `Universe.findMember` — the field of a class and of a value.
* `Expr.infer` — the types of an expression without paths.
* `Expr.check` — both steps, against a required type.
-/

namespace FieldPath

/-! ### Requirements -/

/-- The type `found` can be stored where `required` is expected, or nothing is required. -/
def requireType (text : String) (span : Span) (found required : Ty) : Except ResolutionError Unit :=
  let required := required.deref
  if required.isDefined && !required.accepts found then
    .error ⟨span, .typeMismatch text required.text found.text⟩
  else .ok ()

/-- The type of a field that was found, if it meets the requirement. -/
def ResolvedField.require (f : ResolvedField) (text : String) (span : Span) (required : Ty) :
    Except ResolutionError Ty :=
  (requireType text span f.ty.deref required).map fun _ => f.ty.deref

/-! ### Look-up of fields -/

namespace Universe

/-- The field of a class that a reference names. -/
def findStatic (u : Universe) (r : StaticRef) : Except ResolutionError ResolvedField :=
  match (u.typeOf (.named r.owner)).object? with
  | none => .error ⟨r.span, .unboundOwner r.field⟩
  | some o =>
      match u.fieldOf o r.field with
      | none => .error ⟨r.span, .unknownField r.field o.name⟩
      | some f =>
          if f.isStatic then .ok ⟨f, u.typeOf f.valueClass⟩
          else .error ⟨r.span, .notStatic f.name o.name⟩

/-- The field of a value of type `owner`. -/
def findMember (u : Universe) (owner : Ty) (field : String) (span : Span) :
    Except ResolutionError ResolvedField :=
  if owner.isUndefined then .error ⟨span, .unboundOwner field⟩
  else match owner.object? with
    | none => .error ⟨span, .notAnObject field owner.deref.text⟩
    | some o =>
        match u.fieldOf o field with
        | none => .error ⟨span, .unknownField field o.name⟩
        | some f =>
            if f.isStatic then .error ⟨span, .staticThroughInstance field o.name⟩
            else .ok ⟨f, u.typeOf f.valueClass⟩

end Universe

/-! ### Paths spelled out -/

namespace Expr

/-- The chain of fields that a path without a bound start stands for.  The segments that spell the
matched class are replaced by its full name. -/
def ofClassPath (u : Universe) (segments : List String) (field : String) (span : Span) :
    Except ResolutionError Expr :=
  match (u.matchPath segments).bind Ty.object? with
  | none => .error ⟨span, .invalidPath (Dotted.join segments) field⟩
  | some o =>
      match spelledSegments segments o.name with
      | none => .error ⟨span, .pathMismatch (Dotted.join segments) o.name⟩
      | some count =>
          match segments.drop count with
          | [] => .ok (.qualified ⟨o.name, field, span, none⟩ field span none)
          | first :: rest =>
              let root := ofClass o.name first (headSpan span segments (count + 1))
              .ok (ofOwner (chain span segments root (count + 1) rest) field span)

/-- The expression with the path at its start spelled out.  A node that has its meaning is left as
it is, and so is everything beneath it. -/
def spellOut (u : Universe) : Expr → Except ResolutionError Expr
  | .path segments field span => ofClassPath u segments field span
  | .member owner field span none =>
      (owner.spellOut u).map fun owner => .member owner field span none
  | e => .ok e

/-! ### Types -/

/-- A reference with its field looked up, and the type of the field if it meets the requirement. -/
def inferStatic (u : Universe) (r : StaticRef) (required : Ty) :
    StaticRef × Except ResolutionError Ty :=
  match r.resolved with
  | some found => (r, found.require r.text r.span required)
  | none =>
      match u.findStatic r with
      | .error e => (r, .error e)
      | .ok found => ({ r with resolved := some found }, found.require r.text r.span required)

/-- A binding that is looked up, and its type if it meets the requirement. -/
def inferBinding (bindings : Bindings) (name : String) (span : Span) (ty : Ty) (slot : Option Nat)
    (required : Ty) : Expr × Except ResolutionError Ty :=
  let meets (t : Ty) := (requireType name span t required).map fun _ => t
  match slot with
  | some slot => (.binding name span ty (some slot), meets ty)
  | none =>
      match bindings.lookup name with
      | some b => (ofBinding b name span, meets b.ty)
      | none => (.binding name span ty none, .error ⟨span, .unknownVariable name⟩)

/-- An expression whose paths are spelled out, with all fields looked up from the inside out, and
its type if it meets the requirement.  Only the outermost node has to meet one. -/
def infer (u : Universe) (bindings : Bindings) : Expr → Ty → Expr × Except ResolutionError Ty
  | .binding name span ty slot, required => inferBinding bindings name span ty slot required
  | .static r, required =>
      let (r, outcome) := inferStatic u r required
      (.static r, outcome)
  | .path segments field span, _ =>
      (.path segments field span, .error ⟨span, .invalidPath (Dotted.join segments) field⟩)
  | .qualified target field span (some found), required =>
      (.qualified target field span (some found), found.require target.text span required)
  | .qualified target field span none, required =>
      match inferStatic u target required with
      | (target, .error e) => (.qualified target field span none, .error e)
      | (target, .ok t) => (.qualified target field span target.resolved, .ok t)
  | .member owner field span (some found), required =>
      (.member owner field span (some found),
        found.require (owner.text ++ "." ++ field) span required)
  | .member owner field span none, required =>
      match owner.infer u bindings .undefined with
      | (owner, .error e) => (.member owner field span none, .error e)
      | (owner, .ok t) =>
          match u.findMember t field span with
          | .error e => (.member owner field span none, .error e)
          | .ok found =>
              (.member owner field span (some found),
                found.require (owner.text ++ "." ++ field) span required)

/-- The expression with its paths spelled out and its fields looked up, and its type if it meets
the requirement. -/
def check (u : Universe) (bindings : Bindings) (e : Expr) (required : Ty) :
    Expr × Except ResolutionError Ty :=
  match e.spellOut u with
  | .error err => (e, .error err)
  | .ok e => e.infer u bindings required

end Expr

end FieldPath
