import FieldPath.Proofs.Machine.Parallel
import FieldPath.Rule
import Mathlib.Data.List.Forall2

/-!
# Outcomes of rules

A preparation threads one pool through its rules and sorts their outcomes into two lists.  Here the
outcomes stay in one list, in the order of the rules, next to the pool after them; the preparation
is read off this list.

Everything that a rule is checked for happens without the pool, so what is known about emissions
over two pools carries over to expressions, to rules and to lists of rules.

## Main definitions

* `PreparedRule.Alike` — prepared rules with the same meaning, and chunks that are related.
* `outcomes` — the outcomes of rules that are prepared one after the other.
* `Preparation.Collects` — the two lists of a preparation, made of outcomes.

## Main results

* `Comparison.runs_rule` — **a rule has the same outcome over related pools.**
* `Comparison.outcomes` — so do the rules of a list.
* `collects_prepare` — **a preparation is made of the outcomes of its rules.**
-/

namespace FieldPath

/-! ### Prepared rules -/

/-- The same expression of the same use and type, with chunks that are related. -/
structure PreparedExpr.Alike (S : Option Chunk → Option Chunk → Prop) (a b : PreparedExpr) :
    Prop where
  /-- The expressions are the same. -/
  expr : a.expr = b.expr
  /-- The types are the same. -/
  ty : a.ty = b.ty
  /-- The uses are the same. -/
  role : a.role = b.role
  /-- The chunks are related. -/
  chunk : S a.chunk b.chunk

/-- Rules of one name with the same bindings and expressions, and chunks that are related. -/
structure PreparedRule.Alike (S : Option Chunk → Option Chunk → Prop) (a b : PreparedRule) :
    Prop where
  /-- The names are the same. -/
  name : a.name = b.name
  /-- The bindings are the same. -/
  bindings : a.bindings = b.bindings
  /-- The expressions are alike, one by one. -/
  exprs : List.Forall₂ (PreparedExpr.Alike S) a.exprs b.exprs

variable {S T : Option Chunk → Option Chunk → Prop}

theorem PreparedExpr.Alike.mono {a b : PreparedExpr} (h : a.Alike S b)
    (hST : ∀ x y, S x y → T x y) : a.Alike T b :=
  ⟨h.expr, h.ty, h.role, hST _ _ h.chunk⟩

theorem PreparedRule.Alike.mono {a b : PreparedRule} (h : a.Alike S b)
    (hST : ∀ x y, S x y → T x y) : a.Alike T b :=
  ⟨h.name, h.bindings, h.exprs.imp fun _ _ he => he.mono hST⟩

/-- Rules with the same chunks are the same. -/
theorem PreparedRule.Alike.eq {a b : PreparedRule} (h : a.Alike (Option.Rel (· = ·)) b) :
    a = b := by
  have hexpr : ∀ x y : PreparedExpr, x.Alike (Option.Rel (· = ·)) y → x = y := by
    rintro ⟨e, t, r, c⟩ ⟨e', t', r', c'⟩ ⟨rfl, rfl, rfl, hc⟩
    cases hc with
    | some heq => rw [heq]
    | none => rfl
  obtain ⟨hname, hbindings, hexprs⟩ := h
  cases a
  cases b
  rw [PreparedRule.mk.injEq]
  exact ⟨hname, hbindings, List.forall₂_eq_eq_eq ▸ hexprs.imp hexpr⟩

/-! ### Expressions and rules -/

section Equations

variable {u : Universe} {withCode : Bool} {bindings : Bindings} {source : RuleExpr}

theorem RuleExpr.prepare_of_error {e : ResolutionError} (h : source.resolve u bindings = .error e)
    (pool : ConstantPool) :
    source.prepare u withCode bindings pool = (.error (.resolution e), pool) := by
  rw [RuleExpr.prepare, h]

/-- The code of an expression with a meaning, as an outcome of its preparation. -/
theorem RuleExpr.prepare_of_ok {expr : Expr} {ty : Ty}
    (h : source.resolve u bindings = .ok (expr, ty)) (pool : ConstantPool) :
    source.prepare u true bindings pool =
      ((((source.role.emission expr).chunkOf pool).1.mapError .codegen).map
          fun chunk => ⟨expr, ty, source.role, some chunk⟩,
        ((source.role.emission expr).chunkOf pool).2) := by
  rw [RuleExpr.prepare, h]
  simp only [if_true]
  rcases (source.role.emission expr).chunkOf pool with ⟨_ | _, _⟩ <;> rfl

theorem RuleExpr.prepare_of_ok_off {expr : Expr} {ty : Ty}
    (h : source.resolve u bindings = .ok (expr, ty)) (pool : ConstantPool) :
    source.prepare u false bindings pool = (.ok ⟨expr, ty, source.role, none⟩, pool) := by
  rw [RuleExpr.prepare, h]
  rfl

theorem prepareExprs_of_error {e : RuleError} {pool : ConstantPool}
    (h : (source.prepare u withCode bindings pool).1 = .error e) (rest : List RuleExpr) :
    prepareExprs u withCode bindings (source :: rest) pool =
      (.error e, (source.prepare u withCode bindings pool).2) := by
  rw [prepareExprs]
  split
  · next hs => rw [hs] at h ⊢; exact congrArg (·, _) (congrArg _ (Except.error.inj h))
  · next hs => rw [hs] at h; exact absurd h nofun

theorem prepareExprs_of_ok {prepared : PreparedExpr} {pool : ConstantPool}
    (h : (source.prepare u withCode bindings pool).1 = .ok prepared) (rest : List RuleExpr) :
    prepareExprs u withCode bindings (source :: rest) pool =
      ((prepareExprs u withCode bindings rest (source.prepare u withCode bindings pool).2).1.map
          (prepared :: ·),
        (prepareExprs u withCode bindings rest (source.prepare u withCode bindings pool).2).2) := by
  rw [prepareExprs]
  split
  · next hs => rw [hs] at h; exact absurd h nofun
  · next hs => rw [hs] at h ⊢; rw [Except.ok.inj h]

end Equations

namespace Comparison

variable (ρ : Comparison) (u : Universe) (withCode : Bool) (bindings : Bindings)

/-- Chunks are related, or there are none. -/
def Code (p q : ConstantPool) : Option Chunk → Option Chunk → Prop := Option.Rel (ρ.Chunks p q)

theorem Code.mono {p p' q q' : ConstantPool} (hp : p.Within p') (hq : q.Within q') :
    ∀ x y, ρ.Code p q x y → ρ.Code p' q' x y := by
  intro x y h
  cases h with
  | some hc => exact .some (ρ.mono hc hp hq)
  | none => exact .none

/-- Chunks that encode the same instructions are decoded alike. -/
theorem Code.sameCode {p q : ConstantPool} :
    ∀ x y, upToIndices.Code p q x y → Option.Rel (Chunk.SameCode p q) x y := by
  intro x y h
  cases h with
  | none => exact .none
  | some hchunks =>
    obtain ⟨hlines, code, hc, hd⟩ := hchunks
    exact .some ⟨hlines, code, hc.linked?, hd.linked?⟩

theorem runs_emission (role : Role) (e : Expr) : ρ.Runs ρ.Chunks (role.emission e).chunkOf := by
  apply runs_chunkOf
  cases role with
  | read => exact e.parallel_compile
  | assign => exact e.parallel_compileAssign

/-- An outcome that does not depend on the pool. -/
theorem runs_const {α ε : Type} {S : ConstantPool → ConstantPool → α → α → Prop} {x : Except ε α}
    (hx : ∀ p q, SameOutcome (S p q) x x) : ρ.Runs S fun p => (x, p) :=
  ⟨fun _ => .refl, fun hpq _ => hpq, fun _ _ => hx _ _⟩

/-- An expression has the same outcome over related pools. -/
theorem runs_source (source : RuleExpr) :
    ρ.Runs (fun p q => PreparedExpr.Alike (ρ.Code p q)) (source.prepare u withCode bindings) := by
  cases hresolve : source.resolve u bindings with
  | error e =>
    rw [funext (RuleExpr.prepare_of_error hresolve)]
    exact ρ.runs_const fun p q => .error
  | ok found =>
    obtain ⟨expr, ty⟩ := found
    cases withCode with
    | false =>
      rw [funext (RuleExpr.prepare_of_ok_off hresolve)]
      exact ρ.runs_const fun p q => .ok ⟨rfl, rfl, rfl, .none⟩
    | true =>
      rw [funext (RuleExpr.prepare_of_ok hresolve)]
      obtain ⟨hgrows, hpools, hout⟩ := ρ.runs_emission source.role expr
      refine ⟨hgrows, hpools, fun {p q} hpq hfits => ?_⟩
      have h := hout hpq hfits
      generalize ((source.role.emission expr).chunkOf p).1 = x at h ⊢
      generalize ((source.role.emission expr).chunkOf q).1 = y at h ⊢
      cases h with
      | ok hchunk => exact .ok ⟨rfl, rfl, rfl, .some hchunk⟩
      | error => exact .error

/-- Expressions that are prepared one after the other have the same outcome over related pools. -/
theorem runs_exprs (exprs : List RuleExpr) :
    ρ.Runs (fun p q => List.Forall₂ (PreparedExpr.Alike (ρ.Code p q)))
      (prepareExprs u withCode bindings exprs) := by
  induction exprs with
  | nil => exact ρ.runs_const fun p q => .ok .nil
  | cons source rest ih =>
    refine (ρ.runs_source u withCode bindings source).seq ih (· :: ·)
      (fun p e h => prepareExprs_of_error h rest) (fun p a h => prepareExprs_of_ok h rest) ?_
    -- the rest only adds to the pools, so the first chunk stays related
    intro p p' q q' a b c d hp hq hfirst hrest
    exact .cons (hfirst.mono (Code.mono ρ hp hq)) hrest

/-- **A rule has the same outcome over related pools.** -/
theorem runs_rule (rule : Rule) :
    ρ.Runs (fun p q => PreparedRule.Alike (ρ.Code p q)) (rule.prepare u withCode) := by
  obtain ⟨hgrows, hpools, hout⟩ := ρ.runs_exprs u withCode rule.bindings rule.exprs
  exact ⟨hgrows, hpools, fun hpq hfits => (hout hpq hfits).map fun _ _ h => ⟨rfl, rfl, h⟩⟩

end Comparison

/-! ### Lists of rules -/

/-- The outcomes of rules that are prepared one after the other, and the pool after them. -/
def outcomes (u : Universe) (withCode : Bool) :
    List Rule → ConstantPool → List (Except RuleError PreparedRule) × ConstantPool
  | [], pool => ([], pool)
  | rule :: rest, pool =>
      let first := rule.prepare u withCode pool
      let others := outcomes u withCode rest first.2
      (first.1 :: others.1, others.2)

/-- The disabled rules among some rules with these outcomes. -/
def disabledOf (rules : List Rule) (outs : List (Except RuleError PreparedRule)) :
    List DisabledRule :=
  (rules.zip outs).filterMap fun
    | (rule, .error e) => some ⟨rule.name, e⟩
    | (_, .ok _) => none

/-- The preparation is made of these outcomes of the rules, one of each, in their order. -/
structure Preparation.Collects (p : Preparation) (rules : List Rule)
    (outs : List (Except RuleError PreparedRule)) : Prop where
  /-- Every rule has an outcome. -/
  length : outs.length = rules.length
  /-- The rules that can run, in order. -/
  ready : p.ready = outs.filterMap Except.toOption
  /-- The rules that failed, in order. -/
  disabled : p.disabled = disabledOf rules outs

section Lists

variable (u : Universe) (withCode : Bool)

theorem Rule.grows_prepare (rule : Rule) (p : ConstantPool) :
    p.Grows (rule.prepare u withCode p).2 :=
  (Comparison.upToIndices.runs_rule u withCode rule).grows p

theorem grows_outcomes (rules : List Rule) (p : ConstantPool) :
    p.Grows (outcomes u withCode rules p).2 := by
  induction rules generalizing p with
  | nil => exact .refl
  | cons rule rest ih => exact (rule.grows_prepare u withCode p).trans (ih _)

/-- What holds of the outcome of a rule over every pool holds of all outcomes. -/
theorem forall_mem_outcomes {P : Except RuleError PreparedRule → Prop} {rules : List Rule}
    (h : ∀ rule ∈ rules, ∀ p, P (rule.prepare u withCode p).1) (p : ConstantPool) :
    ∀ out ∈ (outcomes u withCode rules p).1, P out := by
  induction rules generalizing p with
  | nil => simp [outcomes]
  | cons rule rest ih =>
    obtain ⟨hrule, hrest⟩ := List.forall_mem_cons.mp h
    exact List.forall_mem_cons.mpr ⟨hrule p, ih hrest _⟩

theorem outcomes_append (rules others : List Rule) (p : ConstantPool) :
    outcomes u withCode (rules ++ others) p =
      ((outcomes u withCode rules p).1 ++
          (outcomes u withCode others (outcomes u withCode rules p).2).1,
        (outcomes u withCode others (outcomes u withCode rules p).2).2) := by
  induction rules generalizing p with
  | nil => rfl
  | cons rule rest ih => simp only [List.cons_append, outcomes, ih]

theorem foldl_add (rules : List Rule) (start : Preparation) :
    rules.foldl (.add u withCode) start =
      { ready := start.ready ++
          (outcomes u withCode rules start.constants).1.filterMap Except.toOption
        disabled := start.disabled ++ disabledOf rules (outcomes u withCode rules start.constants).1
        constants := (outcomes u withCode rules start.constants).2 } := by
  induction rules generalizing start with
  | nil => simp [outcomes, disabledOf]
  | cons rule rest ih =>
    rw [List.foldl_cons, ih]
    simp only [outcomes, Preparation.add]
    rcases rule.prepare u withCode start.constants with ⟨_ | _, pool⟩
    · simp [disabledOf, List.filterMap_cons, Except.toOption]
    · simp [disabledOf, Except.toOption]

theorem constants_prepare (rules : List Rule) :
    (prepare u withCode rules).constants = (outcomes u withCode rules {}).2 := by
  rw [prepare, foldl_add]

/-- **A preparation is made of the outcomes of its rules.** -/
theorem collects_prepare (rules : List Rule) :
    (prepare u withCode rules).Collects rules (outcomes u withCode rules {}).1 := by
  have hlength : ∀ p, (outcomes u withCode rules p).1.length = rules.length := by
    induction rules with
    | nil => intro p; rfl
    | cons rule rest ih => intro p; simp only [outcomes, List.length_cons, ih]
  rw [prepare, foldl_add]
  exact ⟨hlength _, by simp, by simp⟩

/-- The rules of a list have the same outcomes over related pools. -/
theorem Comparison.outcomes (ρ : Comparison) (rules : List Rule) {p q : ConstantPool}
    (hpq : ρ.Pools p q) (hfits : ρ.Fits (outcomes u withCode rules p).2) :
    ρ.Pools (outcomes u withCode rules p).2 (outcomes u withCode rules q).2 ∧
      List.Forall₂ (SameOutcome (PreparedRule.Alike (ρ.Code (outcomes u withCode rules p).2
          (outcomes u withCode rules q).2)))
        (outcomes u withCode rules p).1 (outcomes u withCode rules q).1 := by
  induction rules generalizing p q with
  | nil => exact ⟨hpq, .nil⟩
  | cons rule rest ih =>
    have hrule := ρ.runs_rule u withCode rule
    have hfirst := ρ.fits_of_within (grows_outcomes u withCode rest _).within hfits
    obtain ⟨hpools, houts⟩ := ih (hrule.pools hpq hfirst) hfits
    refine ⟨hpools, .cons ((hrule.outcome hpq hfirst).mono fun _ _ h => h.mono ?_) houts⟩
    -- the rest of the rules only adds to the pools
    exact Code.mono ρ (grows_outcomes u withCode rest _).within
      (grows_outcomes u withCode rest _).within

end Lists

end FieldPath
