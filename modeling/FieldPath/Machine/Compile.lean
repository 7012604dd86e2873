import FieldPath.Machine.Emitter
import FieldPath.Path.Expr

/-!
# Code of expressions

The code that reads an expression leaves its value on top of the stack.  The code that assigns to
one expects the value on top, stores it, and leaves it there, so that an assignment is a value too.
An assignment to a field of a value repeats the value first, then reads the owner, moves it beneath
the value, and stores.

The code of every node starts with setting the line to that of the node, and what follows the code
of an owner goes on with the line of the owner.  A field checks that its code changes the height of
the stack by what it should.

## Main definitions

* `Expr.compile` — the code that reads an expression.
* `Expr.compileAssign` — the code that assigns to an expression.
* `Emit.chunkOf` — the chunk of an emission that starts with no code.
-/

namespace FieldPath

open Emit

namespace StaticRef

/-- The field of a reference with its type, or the error of one that is not found yet. -/
def forCode (r : StaticRef) : Emit ResolvedField :=
  match r.resolved with
  | some found => return found
  | none => throw (.unresolved r.text)

/-- The code that pushes the field. -/
def compile (r : StaticRef) : Emit Unit := do
  let found ← r.forCode
  let width := found.ty.width
  let start ← mark
  getStatic found.field width
  verify start (slots width) "static field read"

/-- The code that stores the top value in the field. -/
def compileAssign (r : StaticRef) : Emit Unit := do
  let found ← r.forCode
  let width := found.ty.width
  let start ← mark
  dupValue width
  putStatic found.field width
  verify start 0 "static field write"

end StaticRef

namespace Expr

/-- The code that pushes the value of an expression. -/
def compile : Expr → Emit Unit
  | .binding name span ty slot => do
      setLine span.line
      match slot with
      | some slot => getLocal slot ty.width
      | none => throw (.unresolved name)
  | .static r => do
      setLine r.span.line
      r.compile
  | .qualified target _ span (some _) => do
      setLine span.line
      target.compile
  | .member owner _ span (some found) => do
      setLine span.line
      let width := found.ty.width
      let start ← mark
      owner.compile
      getField found.field width
      verify start (slots width) "field read"
  | e => do
      setLine e.span.line
      throw (.unresolved e.text)

/-- The code that stores the top value through an expression. -/
def compileAssign : Expr → Emit Unit
  | .binding name span ty slot => do
      setLine span.line
      match slot with
      | some slot => do
          dupValue ty.width
          setLocal slot ty.width
      | none => throw (.unresolved name)
  | .static r => do
      setLine r.span.line
      r.compileAssign
  | .qualified target _ span (some _) => do
      setLine span.line
      target.compileAssign
  | .member owner _ span (some found) => do
      setLine span.line
      let width := found.ty.width
      let start ← mark
      dupValue width
      owner.compile
      ownerBelow width
      putField found.field width
      verify start 0 "field write"
  | e => do
      setLine e.span.line
      throw (.unresolved e.text)

end Expr

/-- The chunk of an emission over a pool, and the pool after it.  The pool keeps what a failed
emission added. -/
def Emit.chunkOf (emission : Emit Unit) (pool : ConstantPool) :
    Except CodegenError Chunk × ConstantPool :=
  match emission.run (.new pool) with
  | .ok _ e => (.ok e.chunk, e.pool)
  | .error err e => (.error err, e.pool)

end FieldPath
