import FieldPath.ClassTable.Basic
import FieldPath.Machine.Compile
import FieldPath.Path.Evaluation
import FieldPath.Path.Grammar
import FieldPath.Path.Typing

/-!
# Rules

A rule has bindings and expressions, some of which are read and some of which are assigned to.
Rules are prepared together: each expression is parsed, bound, checked, and compiled if code is
wanted.  A rule with an expression that fails is disabled, with its first error, and the others go
on.  All code of a preparation shares one pool of constants.

## Main definitions

* `RuleError` — the errors of all stages.
* `Rule`, `PreparedRule`, `Preparation` — rules before and after preparation.
* `prepare` — the preparation of a list of rules.
* `PreparedRule.evaluate` — the values of the expressions that a rule reads.
-/

namespace FieldPath

/-! ### Errors -/

/-- An error of any stage. -/
inductive RuleError where
  /-- A class table refused something. -/
  | registration (e : RegistrationError)
  /-- An expression has no meaning. -/
  | resolution (e : ResolutionError)
  /-- An expression could not be evaluated. -/
  | execute (e : ExecuteError)
  /-- An expression could not be compiled. -/
  | codegen (e : CodegenError)
  deriving DecidableEq, Repr

namespace RuleError

/-- The text of an error. -/
def message : RuleError → String
  | .registration e => e.message
  | .resolution e => e.message
  | .execute e => e.message
  | .codegen e => e.message

/-- The error says that an expression has no meaning. -/
def isResolution : RuleError → Bool
  | .resolution _ => true
  | _ => false

/-- The error arose when an expression was evaluated. -/
def isExecute : RuleError → Bool
  | .execute _ => true
  | _ => false

/-- The error is a fault of the preparation and not of the rule: a failed emission, or an
evaluation before types were found. -/
def isInternal : RuleError → Bool
  | .codegen _ => true
  | .execute ⟨_, .unresolved _⟩ => true
  | _ => false

end RuleError

/-! ### Rules -/

/-- How a rule uses an expression. -/
inductive Role where
  /-- For its value. -/
  | read
  /-- As the target of an assignment. -/
  | assign
  deriving DecidableEq, Repr

/-- An expression of a rule, as written. -/
structure RuleExpr where
  /-- The text. -/
  text : String
  /-- The position of the text. -/
  span : Span
  /-- The type that is required where the expression stands, or undefined. -/
  required : Ty
  /-- The use of the expression. -/
  role : Role
  deriving DecidableEq, Repr

/-- A rule. -/
structure Rule where
  /-- The name of the rule. -/
  name : String
  /-- The values that it names. -/
  bindings : Bindings
  /-- The expressions, in order. -/
  exprs : List RuleExpr

/-- An expression with its meaning. -/
structure PreparedExpr where
  /-- The expression. -/
  expr : Expr
  /-- The type of its value. -/
  ty : Ty
  /-- The use of the expression. -/
  role : Role
  /-- Its code, if code was wanted. -/
  chunk : Option Chunk

/-- A rule whose expressions all have their meaning. -/
structure PreparedRule where
  /-- The name of the rule. -/
  name : String
  /-- The values that it names. -/
  bindings : Bindings
  /-- The expressions, in order. -/
  exprs : List PreparedExpr

/-- A rule that failed, with its first error. -/
structure DisabledRule where
  /-- The name of the rule. -/
  name : String
  /-- The error. -/
  error : RuleError

/-- The outcome of a preparation. -/
structure Preparation where
  /-- The rules that can run, in order. -/
  ready : List PreparedRule := []
  /-- The rules that failed, in order. -/
  disabled : List DisabledRule := []
  /-- The constants of all code. -/
  constants : ConstantPool := {}

/-! ### Preparation -/

/-- The meaning of an expression: it is parsed, bound and checked. -/
def RuleExpr.resolve (u : Universe) (bindings : Bindings) (source : RuleExpr) :
    Except ResolutionError (Expr × Ty) := do
  let parsed ← Expr.parse source.text source.span
  let bound ← parsed.bind bindings
  let (expr, outcome) := bound.check u bindings source.required
  let ty ← outcome
  .ok (expr, ty)

/-- The code of an expression for its use. -/
def Role.emission (role : Role) (e : Expr) : Emit Unit :=
  match role with
  | .read => e.compile
  | .assign => e.compileAssign

/-- One expression prepared over a pool of constants. -/
def RuleExpr.prepare (u : Universe) (withCode : Bool) (bindings : Bindings) (source : RuleExpr)
    (pool : ConstantPool) : Except RuleError PreparedExpr × ConstantPool :=
  match source.resolve u bindings with
  | .error e => (.error (.resolution e), pool)
  | .ok (expr, ty) =>
      if withCode then
        match (source.role.emission expr).chunkOf pool with
        | (.error e, pool) => (.error (.codegen e), pool)
        | (.ok chunk, pool) => (.ok ⟨expr, ty, source.role, some chunk⟩, pool)
      else (.ok ⟨expr, ty, source.role, none⟩, pool)

/-- Expressions prepared one after the other, up to the first that fails. -/
def prepareExprs (u : Universe) (withCode : Bool) (bindings : Bindings) :
    List RuleExpr → ConstantPool → Except RuleError (List PreparedExpr) × ConstantPool
  | [], pool => (.ok [], pool)
  | source :: rest, pool =>
      match source.prepare u withCode bindings pool with
      | (.error e, pool) => (.error e, pool)
      | (.ok prepared, pool) =>
          let (outcome, pool) := prepareExprs u withCode bindings rest pool
          (outcome.map (prepared :: ·), pool)

/-- One rule prepared over a pool of constants. -/
def Rule.prepare (u : Universe) (withCode : Bool) (rule : Rule) (pool : ConstantPool) :
    Except RuleError PreparedRule × ConstantPool :=
  let (outcome, pool) := prepareExprs u withCode rule.bindings rule.exprs pool
  (outcome.map fun exprs => ⟨rule.name, rule.bindings, exprs⟩, pool)

namespace Preparation

/-- The preparation with one more rule. -/
def add (u : Universe) (withCode : Bool) (p : Preparation) (rule : Rule) : Preparation :=
  match rule.prepare u withCode p.constants with
  | (.ok ready, pool) => { p with ready := p.ready ++ [ready], constants := pool }
  | (.error e, pool) =>
      { p with disabled := p.disabled ++ [⟨rule.name, e⟩], constants := pool }

/-- The first rule of a name that can run. -/
def rule? (p : Preparation) (name : String) : Option PreparedRule :=
  p.ready.find? (·.name == name)

/-- The error of the first rule of a name that failed. -/
def error? (p : Preparation) (name : String) : Option RuleError :=
  (p.disabled.find? (·.name == name)).map (·.error)

/-- Some rule failed for a fault of the preparation. -/
def hasInternalErrors (p : Preparation) : Bool := p.disabled.any (·.error.isInternal)

end Preparation

/-- Rules prepared together, in order. -/
def prepare (u : Universe) (withCode : Bool) (rules : List Rule) : Preparation :=
  rules.foldl (.add u withCode) {}

/-! ### Evaluation -/

variable {γ : Type} [ObjectGraph γ]

/-- The value of a prepared expression. -/
def PreparedExpr.read (frame : Frame γ) (e : PreparedExpr) : Except RuleError Value :=
  (e.expr.read frame).mapError .execute

/-- The value of an assignment to a prepared expression, and the frame after it. -/
def PreparedExpr.assign (frame : Frame γ) (e : PreparedExpr) (v : Value) :
    Except RuleError (Value × Frame γ) :=
  (e.expr.assign frame v).mapError .execute

/-- The values of the expressions that the rule reads, in order, up to the first that fails. -/
def PreparedRule.evaluate (frame : Frame γ) (rule : PreparedRule) :
    Except RuleError (List Value) :=
  (rule.exprs.filter (·.role == .read)).mapM (·.read frame)

end FieldPath
