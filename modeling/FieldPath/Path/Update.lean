import FieldPath.Path.Evaluation
import FieldPath.Store.Arena

/-!
# Assignments in place

An assignment is a sequence of steps in a frame over an arena.  The owner of a field is read first,
then the field is written, or a binding is set, and each step may fail.

## Main definitions

* `Evaluation` — steps that change a frame and may fail.
* `Expr.update` — a value stored through an expression.
-/

namespace FieldPath

/-- Steps that change a frame over an arena and may fail. -/
abbrev Evaluation := EStateM ExecuteError (Frame Arena)

namespace Evaluation

/-- A step of the objects as a step of the frame. -/
def onObjects (edit : Arena.Edit Unit) (fail : AccessError → ExecuteError) : Evaluation Unit :=
  fun frame =>
    match edit.run frame.objects with
    | .ok _ objects => .ok () { frame with objects := objects }
    | .error e objects => .error (fail e) { frame with objects := objects }

end Evaluation

/-- The value is stored in the field of a class. -/
def StaticRef.update (r : StaticRef) (v : Value) : Evaluation Value := do
  let field ← MonadExcept.ofExcept r.field?
  Evaluation.onObjects (Arena.setStatic field v) fun e => ⟨r.span, .ofWrite field e⟩
  return v

/-- The value is stored through an expression, and is the result. -/
def Expr.update (v : Value) : Expr → Evaluation Value
  | .binding name span _ _ => do
      match (← get).set? name v with
      | some frame => set frame
      | none => throw ⟨span, .unboundVariable name⟩
      return v
  | .static r => r.update v
  | .qualified target _ _ (some _) => target.update v
  | .member owner name span (some found) => do
      let w ← MonadExcept.ofExcept (owner.read (← get))
      let h ← MonadExcept.ofExcept
        (ownerHandle (owner.text ++ "." ++ name) span found.field w)
      Evaluation.onObjects (Arena.setField h found.field v) fun e =>
        ⟨span, .ofWrite found.field e⟩
      return v
  | e => throw ⟨e.span, .unresolved e.text⟩

end FieldPath
