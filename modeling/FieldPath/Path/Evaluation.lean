import FieldPath.Path.Expr
import FieldPath.Store.Frame

/-!
# Evaluation of expressions

An expression whose fields are found is read or assigned in a frame.  Reading a chain reads its
owners from the inside out; assigning one reads its owner and writes one field.  Evaluation uses
only what was recorded in the expression, and changes nothing else than the one place that an
assignment names.

## Main definitions

* `ExecuteError` — why an evaluation fails, and where.
* `Expr.read` — the value of an expression.
* `Expr.assign` — the frame after a value is stored through an expression.
-/

namespace FieldPath

/-! ### Errors -/

/-- Why an evaluation fails. -/
inductive ExecuteCause where
  /-- The owner of the field is null. -/
  | nullIndirection (text : String)
  /-- The name has no value in the frame. -/
  | unboundVariable (name : String)
  /-- The field may not be accessed in this way. -/
  | accessDenied (field : String) (source : AccessError)
  /-- The value does not fit the field. -/
  | invalidValue (field : String) (source : AccessError)
  /-- The object graph refused the access for a reason of its own. -/
  | unexpectedAccess (field : String) (source : AccessError)
  /-- The owner of the field is not a reference. -/
  | unexpectedOwner (field label : String)
  /-- The expression has no meaning yet. -/
  | unresolved (text : String)
  deriving DecidableEq, Repr

namespace ExecuteCause

/-- The text of a failure that no rule foresees. -/
def unexpectedText (field problem : String) : String :=
  "unexpected exception accessing field " ++ field ++ ": " ++ problem

/-- The text of a reason. -/
def message : ExecuteCause → String
  | .nullIndirection text => "attempted field indirection through null value " ++ text
  | .unboundVariable name => "variable '" ++ name ++ "' has no value"
  | .accessDenied field _ => "error accessing field " ++ field
  | .invalidValue field _ => "invalid value assigning field " ++ field
  | .unexpectedAccess field source => unexpectedText field source.message
  | .unexpectedOwner field label =>
      unexpectedText field ("owner evaluated to a " ++ label ++ " value")
  | .unresolved text => "expression " ++ text ++ " interpreted before resolution"

/-- The refusal of the object graph behind a reason. -/
def source? : ExecuteCause → Option AccessError
  | .accessDenied _ source => some source
  | .invalidValue _ source => some source
  | .unexpectedAccess _ source => some source
  | _ => none

/-- The reason for a refused read. -/
def ofRead (field : Field) : AccessError → ExecuteCause
  | e@(.denied _ _) => .accessDenied field.text e
  | e => .unexpectedAccess field.text e

/-- The reason for a refused write. -/
def ofWrite (field : Field) : AccessError → ExecuteCause
  | e@(.denied _ _) => .accessDenied field.text e
  | e@(.invalidArgument _ _ _) => .invalidValue field.text e
  | e => .unexpectedAccess field.text e

end ExecuteCause

/-- A reason and the position of the expression that failed. -/
structure ExecuteError where
  /-- The position in the rule text. -/
  span : Span
  /-- The reason. -/
  cause : ExecuteCause
  deriving DecidableEq, Repr

/-- The text of a failed evaluation. -/
def ExecuteError.message (e : ExecuteError) : String :=
  "at " ++ e.span.text ++ ": " ++ e.cause.message

/-! ### Reading -/

variable {γ : Type} [ObjectGraph γ]

namespace StaticRef

/-- The field of a reference, or the error of one that is not found yet. -/
def field? (r : StaticRef) : Except ExecuteError Field :=
  match r.resolved with
  | some found => .ok found.field
  | none => .error ⟨r.span, .unresolved r.text⟩

/-- The value of the field. -/
def read (frame : Frame γ) (r : StaticRef) : Except ExecuteError Value := do
  let field ← r.field?
  (ObjectGraph.getStatic frame.objects field).mapError fun e => ⟨r.span, .ofRead field e⟩

/-- The frame after a value is stored in the field. -/
def assign (frame : Frame γ) (r : StaticRef) (v : Value) : Except ExecuteError (Frame γ) := do
  let field ← r.field?
  let objects ← (ObjectGraph.setStatic frame.objects field v).mapError fun e =>
    ⟨r.span, .ofWrite field e⟩
  .ok { frame with objects := objects }

end StaticRef

/-- The object that a value of an owner names.  The text and the field of the access are for the
messages. -/
def ownerHandle (text : String) (span : Span) (field : Field) : Value → Except ExecuteError Handle
  | .object h => .ok h
  | .null => .error ⟨span, .nullIndirection text⟩
  | v => .error ⟨span, .unexpectedOwner field.text v.label⟩

namespace Expr

/-- The value of an expression. -/
def read (frame : Frame γ) : Expr → Except ExecuteError Value
  | .binding name span _ _ =>
      match frame.value? name with
      | some v => .ok v
      | none => .error ⟨span, .unboundVariable name⟩
  | .static r => r.read frame
  | .qualified target _ _ (some _) => target.read frame
  | .member owner name span (some found) => do
      let v ← owner.read frame
      let h ← ownerHandle (owner.text ++ "." ++ name) span found.field v
      (ObjectGraph.getField frame.objects h found.field).mapError fun e =>
        ⟨span, .ofRead found.field e⟩
  | e => .error ⟨e.span, .unresolved e.text⟩

/-! ### Assigning -/

/-- The frame after `v` is stored through an expression. -/
def store (frame : Frame γ) (v : Value) : Expr → Except ExecuteError (Frame γ)
  | .binding name span _ _ =>
      match frame.set? name v with
      | some frame => .ok frame
      | none => .error ⟨span, .unboundVariable name⟩
  | .static r => r.assign frame v
  | .qualified target _ _ (some _) => target.assign frame v
  | .member owner name span (some found) => do
      let w ← owner.read frame
      let h ← ownerHandle (owner.text ++ "." ++ name) span found.field w
      let objects ← (ObjectGraph.setField frame.objects h found.field v).mapError fun e =>
        ⟨span, .ofWrite found.field e⟩
      .ok { frame with objects := objects }
  | e => .error ⟨e.span, .unresolved e.text⟩

/-- The value of an assignment, which is the value assigned, and the frame after it. -/
def assign (frame : Frame γ) (e : Expr) (v : Value) : Except ExecuteError (Value × Frame γ) :=
  (e.store frame v).map fun frame => (v, frame)

end Expr

end FieldPath
