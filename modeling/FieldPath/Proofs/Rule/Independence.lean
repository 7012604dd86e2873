import FieldPath.Proofs.Path.Walk
import FieldPath.Proofs.Rule.Outcomes

/-!
# Rules are prepared independently

The rules of a preparation share nothing but the pool, and what a rule finds there decides only
which numbers its code has for its fields.  So a rule has the outcome that it would have alone, as
long as all constants have numbers that fit into the code: the same error, or the same expressions
with the same code once the fields are put in the place of their numbers.  Without code the pool is
not used at all.

## Main definitions

* `RuleExpr.FailsWith`, `Rule.FailsWith` — the first failing stage of the first failing expression.
* `Rule.SucceedsAs` — a rule is ready with the meanings of its expressions, none of which fails.
* `OutcomeAlone` — an outcome is the one that the rule has alone.
* `Independent`, `CodeOptional` — what holds of the outcomes of a preparation.

## Main results

* `Rule.failsWith_of_prepare` — a disabled rule has the error of its first failure.
* `Rule.succeedsAs_of_prepare` — a rule that is ready has the meanings of its expressions.
* `outcomes_alone` — the rules of a list have the outcomes that they have alone.
* `prepare_independent` — **the rules of a preparation do not depend on each other.**
-/

namespace FieldPath

/-! ### First failures -/

/-- The expression fails with this error, at the first of its stages that fails.  Code is emitted
over a pool without constants. -/
inductive RuleExpr.FailsWith (u : Universe) (withCode : Bool) (bindings : Bindings)
    (source : RuleExpr) : RuleError → Prop
  /-- The text is no path. -/
  | parse {e : ResolutionError} (h : Expr.parse source.text source.span = .error e) :
      FailsWith u withCode bindings source (.resolution e)
  /-- The path cannot be bound. -/
  | bind {parsed : Expr} {e : ResolutionError}
      (hparse : Expr.parse source.text source.span = .ok parsed)
      (h : parsed.bind bindings = .error e) :
      FailsWith u withCode bindings source (.resolution e)
  /-- The bound expression has no type that is accepted. -/
  | check {parsed bound : Expr} {e : ResolutionError}
      (hparse : Expr.parse source.text source.span = .ok parsed)
      (hbind : parsed.bind bindings = .ok bound)
      (h : (bound.check u bindings source.required).2 = .error e) :
      FailsWith u withCode bindings source (.resolution e)
  /-- The typed expression has no code. -/
  | emit {parsed bound : Expr} {ty : Ty} {e : CodegenError}
      (hparse : Expr.parse source.text source.span = .ok parsed)
      (hbind : parsed.bind bindings = .ok bound)
      (hcheck : (bound.check u bindings source.required).2 = .ok ty) (hcode : withCode = true)
      (h : ((source.role.emission (bound.check u bindings source.required).1).chunkOf .empty).1 =
        .error e) :
      FailsWith u withCode bindings source (.codegen e)

/-- All stages of the expression succeed. -/
def RuleExpr.Succeeds (u : Universe) (withCode : Bool) (bindings : Bindings) (source : RuleExpr) :
    Prop := ∃ prepared, (source.prepare u withCode bindings .empty).1 = .ok prepared

/-- The rule fails with the error of its first expression that fails. -/
def Rule.FailsWith (u : Universe) (withCode : Bool) (rule : Rule) (e : RuleError) : Prop :=
  ∃ before source after, rule.exprs = before ++ source :: after ∧
    (∀ s ∈ before, s.Succeeds u withCode rule.bindings) ∧
    source.FailsWith u withCode rule.bindings e

/-- The prepared expression has the meaning of its source, and its use. -/
structure PreparedExpr.MeaningOf (u : Universe) (bindings : Bindings) (source : RuleExpr)
    (prepared : PreparedExpr) : Prop where
  /-- The source is parsed, bound and checked. -/
  resolve : source.resolve u bindings = .ok (prepared.expr, prepared.ty)
  /-- The use is the one of the source. -/
  role : prepared.role = source.role

/-- No expression of the rule fails, and `ready` has the meanings of all of them, in order. -/
structure Rule.SucceedsAs (u : Universe) (withCode : Bool) (rule : Rule) (ready : PreparedRule) :
    Prop where
  /-- The name is the one of the rule. -/
  name : ready.name = rule.name
  /-- The bindings are those of the rule. -/
  bindings : ready.bindings = rule.bindings
  /-- The expressions have the meanings of their sources. -/
  exprs : List.Forall₂ (PreparedExpr.MeaningOf u rule.bindings) rule.exprs ready.exprs
  /-- No stage of an expression fails. -/
  not_fails : ∀ source ∈ rule.exprs, ∀ e, ¬ source.FailsWith u withCode rule.bindings e

section Rules

variable {u : Universe} {withCode : Bool} {bindings : Bindings} {p : ConstantPool}

/-- The stages of an expression, one after the other. -/
theorem RuleExpr.resolve_stages (source : RuleExpr) :
    source.resolve u bindings = ((Expr.parse source.text source.span).bind
      (·.bind bindings)).bind fun bound =>
        (bound.check u bindings source.required).2.map
          fun ty => ((bound.check u bindings source.required).1, ty) := by
  unfold RuleExpr.resolve
  cases Expr.parse source.text source.span with
  | error e => rfl
  | ok parsed =>
    simp only [bind, Except.bind]
    cases parsed.bind bindings with
    | error e => rfl
    | ok bound =>
      rcases bound.check u bindings source.required with ⟨expr, _ | ty⟩ <;> rfl

section Stages

variable {source : RuleExpr} {parsed bound : Expr} {ty : Ty} {e : ResolutionError}

theorem RuleExpr.resolve_of_parse (hparse : Expr.parse source.text source.span = .error e) :
    source.resolve u bindings = .error e := by
  rw [source.resolve_stages, hparse]
  rfl

theorem RuleExpr.resolve_of_bind (hparse : Expr.parse source.text source.span = .ok parsed)
    (hbind : parsed.bind bindings = .error e) : source.resolve u bindings = .error e := by
  rw [source.resolve_stages, hparse]
  simp only [Except.bind, hbind]

theorem RuleExpr.resolve_of_check (hparse : Expr.parse source.text source.span = .ok parsed)
    (hbind : parsed.bind bindings = .ok bound)
    (hcheck : (bound.check u bindings source.required).2 = .error e) :
    source.resolve u bindings = .error e := by
  rw [source.resolve_stages, hparse]
  simp only [Except.bind, hbind, hcheck, Except.map]

theorem RuleExpr.resolve_of_ok (hparse : Expr.parse source.text source.span = .ok parsed)
    (hbind : parsed.bind bindings = .ok bound)
    (hcheck : (bound.check u bindings source.required).2 = .ok ty) :
    source.resolve u bindings = .ok ((bound.check u bindings source.required).1, ty) := by
  rw [source.resolve_stages, hparse]
  simp only [Except.bind, hbind, hcheck, Except.map]

end Stages

/-- A failed preparation over a pool without constants is a failure of one of the stages. -/
theorem RuleExpr.failsWith_of_prepare {source : RuleExpr} {e : RuleError}
    (h : (source.prepare u withCode bindings .empty).1 = .error e) :
    source.FailsWith u withCode bindings e := by
  cases hparse : Expr.parse source.text source.span with
  | error e' =>
    rw [RuleExpr.prepare_of_error (resolve_of_parse hparse)] at h
    exact Except.error.inj h ▸ .parse hparse
  | ok parsed =>
    cases hbind : parsed.bind bindings with
    | error e' =>
      rw [RuleExpr.prepare_of_error (resolve_of_bind hparse hbind)] at h
      exact Except.error.inj h ▸ .bind hparse hbind
    | ok bound =>
      cases hcheck : (bound.check u bindings source.required).2 with
      | error e' =>
        rw [RuleExpr.prepare_of_error (resolve_of_check hparse hbind hcheck)] at h
        exact Except.error.inj h ▸ .check hparse hbind hcheck
      | ok ty =>
        have hresolve := resolve_of_ok hparse hbind hcheck
        cases hcode : withCode with
        | false =>
          rw [hcode, RuleExpr.prepare_of_ok_off hresolve] at h
          exact absurd h nofun
        | true =>
          rw [hcode, RuleExpr.prepare_of_ok hresolve] at h
          obtain ⟨err, hchunk, rfl⟩ := eq_error_of_mapError (eq_error_of_map h)
          exact .emit hparse hbind hcheck rfl hchunk

/-- A failure of one of the stages is a failed preparation. -/
theorem RuleExpr.FailsWith.prepare_eq {source : RuleExpr} {e : RuleError}
    (h : source.FailsWith u withCode bindings e) :
    (source.prepare u withCode bindings .empty).1 = .error e := by
  cases h with
  | parse hparse => rw [RuleExpr.prepare_of_error (resolve_of_parse hparse)]
  | bind hparse hbind => rw [RuleExpr.prepare_of_error (resolve_of_bind hparse hbind)]
  | check hparse hbind hcheck =>
    rw [RuleExpr.prepare_of_error (resolve_of_check hparse hbind hcheck)]
  | emit hparse hbind hcheck hcode hchunk =>
    rw [hcode, RuleExpr.prepare_of_ok (resolve_of_ok hparse hbind hcheck), hchunk]
    rfl

/-- An expression that is prepared has the meaning of its source, and code exactly if code is
wanted. -/
theorem RuleExpr.prepare_eq_ok {source : RuleExpr} {prepared : PreparedExpr}
    (h : (source.prepare u withCode bindings p).1 = .ok prepared) :
    prepared.MeaningOf u bindings source ∧ prepared.chunk.isSome = withCode := by
  cases hresolve : source.resolve u bindings with
  | error e =>
    rw [RuleExpr.prepare_of_error hresolve] at h
    exact absurd h nofun
  | ok found =>
    cases withCode with
    | false =>
      rw [RuleExpr.prepare_of_ok_off hresolve] at h
      rw [← Except.ok.inj h]
      exact ⟨⟨hresolve, rfl⟩, rfl⟩
    | true =>
      rw [RuleExpr.prepare_of_ok hresolve] at h
      obtain ⟨chunk, -, rfl⟩ := eq_ok_of_map h
      exact ⟨⟨hresolve, rfl⟩, rfl⟩

/-- The same of several expressions. -/
theorem prepareExprs_eq_ok {exprs : List RuleExpr} {prepared : List PreparedExpr}
    (h : (prepareExprs u withCode bindings exprs p).1 = .ok prepared) :
    List.Forall₂ (PreparedExpr.MeaningOf u bindings) exprs prepared ∧
      ∀ e ∈ prepared, e.chunk.isSome = withCode := by
  induction exprs generalizing p prepared with
  | nil =>
    rw [← Except.ok.inj h]
    exact ⟨.nil, by simp⟩
  | cons source rest ih =>
    cases hsource : (source.prepare u withCode bindings p).1 with
    | error e =>
      rw [prepareExprs_of_error hsource] at h
      exact absurd h nofun
    | ok first =>
      rw [prepareExprs_of_ok hsource] at h
      obtain ⟨others, hothers, rfl⟩ := eq_ok_of_map h
      obtain ⟨hmeaning, hchunk⟩ := RuleExpr.prepare_eq_ok hsource
      obtain ⟨hmeanings, hchunks⟩ := ih hothers
      exact ⟨.cons hmeaning hmeanings, List.forall_mem_cons.mpr ⟨hchunk, hchunks⟩⟩

/-! ### Alone -/

/-- Every pool is related to the one without constants. -/
theorem Comparison.upToIndices_empty (hp : p.Lawful) : upToIndices.Pools p .empty := by
  refine ⟨⟨hp, ConstantPool.lawful_empty⟩, fun c hc => ?_⟩
  obtain ⟨i, hi⟩ := hc
  simp [ConstantPool.get?, ConstantPool.empty] at hi

/-- An expression has the outcome that it has over the pool without constants, whatever the pool
was. -/
theorem RuleExpr.sameOutcome_empty (source : RuleExpr) (hp : p.Lawful)
    (hsize : (source.prepare u withCode bindings p).2.size ≤ 65536) :
    (source.prepare u withCode bindings p).2.Lawful ∧
      SameOutcome (fun _ _ => True) (source.prepare u withCode bindings p).1
        (source.prepare u withCode bindings .empty).1 := by
  have hruns := Comparison.upToIndices.runs_source u withCode bindings source
  have hempty := Comparison.upToIndices_empty hp
  exact ⟨(hruns.pools hempty hsize).1.1, (hruns.outcome hempty hsize).mono fun _ _ _ => trivial⟩

theorem RuleExpr.failsWith_of_error {source : RuleExpr} {e : RuleError} (hp : p.Lawful)
    (hsize : (source.prepare u withCode bindings p).2.size ≤ 65536)
    (h : (source.prepare u withCode bindings p).1 = .error e) :
    source.FailsWith u withCode bindings e := by
  obtain ⟨-, hsame⟩ := source.sameOutcome_empty hp hsize
  rw [h] at hsame
  generalize halone : (source.prepare u withCode bindings .empty).1 = alone at hsame
  cases hsame
  exact failsWith_of_prepare halone

theorem RuleExpr.succeeds_of_ok {source : RuleExpr} {prepared : PreparedExpr} (hp : p.Lawful)
    (hsize : (source.prepare u withCode bindings p).2.size ≤ 65536)
    (h : (source.prepare u withCode bindings p).1 = .ok prepared) :
    source.Succeeds u withCode bindings := by
  obtain ⟨-, hsame⟩ := source.sameOutcome_empty hp hsize
  rw [h] at hsame
  generalize halone : (source.prepare u withCode bindings .empty).1 = alone at hsame
  cases hsame
  exact ⟨_, halone⟩

/-- If all expressions fit into a lawful pool, the first one does, and leaves a lawful pool. -/
theorem lawful_of_prepareExprs {source : RuleExpr} {rest : List RuleExpr}
    {prepared : PreparedExpr} (hp : p.Lawful)
    (h : (source.prepare u withCode bindings p).1 = .ok prepared)
    (hsize : (prepareExprs u withCode bindings (source :: rest) p).2.size ≤ 65536) :
    (source.prepare u withCode bindings p).2.size ≤ 65536 ∧
      (source.prepare u withCode bindings p).2.Lawful := by
  rw [prepareExprs_of_ok h] at hsize
  have hfirst : (source.prepare u withCode bindings p).2.size ≤ 65536 :=
    Comparison.upToIndices.fits_of_within
      ((Comparison.upToIndices.runs_exprs u withCode bindings rest).grows _).within hsize
  exact ⟨hfirst, (source.sameOutcome_empty hp hfirst).1⟩

/-- **A disabled rule has the error of its first failure**, whatever the pool was. -/
theorem Rule.failsWith_of_prepare {rule : Rule} {e : RuleError} (hp : p.Lawful)
    (hsize : (rule.prepare u withCode p).2.size ≤ 65536)
    (h : (rule.prepare u withCode p).1 = .error e) : rule.FailsWith u withCode e := by
  have hexprs := eq_error_of_map h
  unfold Rule.FailsWith
  replace hsize : (prepareExprs u withCode rule.bindings rule.exprs p).2.size ≤ 65536 := hsize
  generalize rule.exprs = exprs at hexprs hsize ⊢
  clear h
  induction exprs generalizing p with
  | nil => exact absurd hexprs nofun
  | cons source rest ih =>
    cases hsource : (source.prepare u withCode rule.bindings p).1 with
    | error e' =>
      rw [prepareExprs_of_error hsource] at hexprs hsize
      rw [Except.error.inj hexprs] at hsource
      exact ⟨[], source, rest, rfl, by simp, RuleExpr.failsWith_of_error hp hsize hsource⟩
    | ok prepared =>
      obtain ⟨hfirst, hlawful⟩ := lawful_of_prepareExprs hp hsource hsize
      rw [prepareExprs_of_ok hsource] at hexprs hsize
      obtain ⟨before, failing, after, heq, hbefore, hfails⟩ :=
        ih hlawful (eq_error_of_map hexprs) hsize
      refine ⟨source :: before, failing, after, by rw [heq]; rfl, ?_, hfails⟩
      exact List.forall_mem_cons.mpr ⟨RuleExpr.succeeds_of_ok hp hfirst hsource, hbefore⟩

/-- Expressions that are all prepared succeed. -/
theorem succeeds_of_prepareExprs {exprs : List RuleExpr} {prepared : List PreparedExpr}
    (hp : p.Lawful) (hsize : (prepareExprs u withCode bindings exprs p).2.size ≤ 65536)
    (h : (prepareExprs u withCode bindings exprs p).1 = .ok prepared) :
    ∀ source ∈ exprs, source.Succeeds u withCode bindings := by
  induction exprs generalizing p prepared with
  | nil => simp
  | cons source rest ih =>
    cases hsource : (source.prepare u withCode bindings p).1 with
    | error e =>
      rw [prepareExprs_of_error hsource] at h
      exact absurd h nofun
    | ok first =>
      obtain ⟨hfirst, hlawful⟩ := lawful_of_prepareExprs hp hsource hsize
      rw [prepareExprs_of_ok hsource] at h hsize
      obtain ⟨others, hothers, -⟩ := eq_ok_of_map h
      exact List.forall_mem_cons.mpr
        ⟨RuleExpr.succeeds_of_ok hp hfirst hsource, ih hlawful hsize hothers⟩

/-- **A rule that is ready has the meanings of its expressions**, and none of them fails. -/
theorem Rule.succeedsAs_of_prepare {rule : Rule} {ready : PreparedRule} (hp : p.Lawful)
    (hsize : (rule.prepare u withCode p).2.size ≤ 65536)
    (h : (rule.prepare u withCode p).1 = .ok ready) : rule.SucceedsAs u withCode ready := by
  obtain ⟨exprs, hexprs, rfl⟩ := eq_ok_of_map h
  refine ⟨rfl, rfl, (prepareExprs_eq_ok hexprs).1, fun source hsource e hfails => ?_⟩
  obtain ⟨prepared, hprepared⟩ := succeeds_of_prepareExprs hp hsize hexprs source hsource
  rw [hfails.prepare_eq] at hprepared
  exact absurd hprepared nofun

/-- The outcome is the one that the rule has when it is prepared alone: the same error, which is the
one of its first failure, or the same expressions, with the same code but for the indices of
fields.  In the second case no expression of the rule fails, and each has the meaning of its
source. -/
def OutcomeAlone (u : Universe) (withCode : Bool) (constants : ConstantPool) (rule : Rule) :
    Except RuleError PreparedRule → Prop
  | .error e => (prepare u withCode [rule]).ready = [] ∧
      (prepare u withCode [rule]).disabled = [⟨rule.name, e⟩] ∧ rule.FailsWith u withCode e
  | .ok ready => rule.SucceedsAs u withCode ready ∧ (prepare u withCode [rule]).disabled = [] ∧
      ∃ alone, (prepare u withCode [rule]).ready = [alone] ∧
        ready.Alike (Option.Rel (Chunk.SameCode constants (prepare u withCode [rule]).constants))
          alone

theorem prepare_singleton_of_error {rule : Rule} {e : RuleError}
    (h : (rule.prepare u withCode .empty).1 = .error e) :
    (prepare u withCode [rule]).ready = [] ∧
      (prepare u withCode [rule]).disabled = [⟨rule.name, e⟩] := by
  obtain ⟨-, hready, hdisabled⟩ := collects_prepare u withCode [rule]
  have houts : (outcomes u withCode [rule] {}).1 = [.error e] := congrArg ([·]) h
  rw [hready, hdisabled, houts]
  exact ⟨rfl, rfl⟩

theorem prepare_singleton_of_ok {rule : Rule} {alone : PreparedRule}
    (h : (rule.prepare u withCode .empty).1 = .ok alone) :
    (prepare u withCode [rule]).disabled = [] ∧ (prepare u withCode [rule]).ready = [alone] := by
  obtain ⟨-, hready, hdisabled⟩ := collects_prepare u withCode [rule]
  have houts : (outcomes u withCode [rule] {}).1 = [.ok alone] := congrArg ([·]) h
  rw [hready, hdisabled, houts]
  exact ⟨rfl, rfl⟩

/-- **The rules of a list have the outcomes that they have alone.** -/
theorem outcomes_alone (rules : List Rule) (hp : p.Lawful)
    (hsize : (outcomes u withCode rules p).2.size ≤ 65536) :
    List.Forall₂ (OutcomeAlone u withCode (outcomes u withCode rules p).2) rules
      (outcomes u withCode rules p).1 := by
  induction rules generalizing p with
  | nil => exact .nil
  | cons rule rest ih =>
    have hruns := Comparison.upToIndices.runs_rule u withCode rule
    have hfirst : (rule.prepare u withCode p).2.size ≤ 65536 :=
      Comparison.upToIndices.fits_of_within (grows_outcomes u withCode rest _).within hsize
    have hlawful := (hruns.pools (Comparison.upToIndices_empty hp) hfirst).1.1
    refine .cons ?_ (ih hlawful hsize)
    have hsame := hruns.outcome (Comparison.upToIndices_empty hp) hfirst
    show OutcomeAlone u withCode _ rule (rule.prepare u withCode p).1
    generalize hx : (rule.prepare u withCode p).1 = x at hsame
    generalize hy : (rule.prepare u withCode .empty).1 = y at hsame
    cases hsame with
    | error =>
      obtain ⟨hready, hdisabled⟩ := prepare_singleton_of_error hy
      exact ⟨hready, hdisabled, Rule.failsWith_of_prepare hp hfirst hx⟩
    | ok halike =>
      obtain ⟨hdisabled, hready⟩ := prepare_singleton_of_ok hy
      refine ⟨Rule.succeedsAs_of_prepare hp hfirst hx, hdisabled, _, hready,
        halike.mono fun c d hcode => ?_⟩
      -- the rest of the rules only adds to the pool
      have hfinal := Comparison.Code.mono Comparison.upToIndices
        (grows_outcomes u withCode rest _).within (.refl _) c d hcode
      rw [constants_prepare]
      exact Comparison.Code.sameCode c d hfinal

/-- A rule with an expression that fails is among those with an error. -/
theorem mem_disabledOf_of_failsWith {constants : ConstantPool} {rules : List Rule}
    {outs : List (Except RuleError PreparedRule)}
    (h : List.Forall₂ (OutcomeAlone u withCode constants) rules outs) {rule : Rule}
    (hrule : rule ∈ rules) {source : RuleExpr} (hsource : source ∈ rule.exprs) {e : RuleError}
    (hfails : source.FailsWith u withCode rule.bindings e) :
    ∃ first, rule.FailsWith u withCode first ∧ ⟨rule.name, first⟩ ∈ disabledOf rules outs := by
  induction h with
  | nil => simp at hrule
  | @cons head out rules outs halone hrest ih =>
    rcases List.mem_cons.mp hrule with rfl | hrule
    · cases out with
      | error first => exact ⟨first, halone.2.2, List.mem_cons_self⟩
      | ok ready => exact absurd hfails (halone.1.not_fails source hsource e)
    · obtain ⟨first, hfirst, hmem⟩ := ih hrule
      refine ⟨first, hfirst, ?_⟩
      cases out with
      | error e => exact List.mem_cons_of_mem _ hmem
      | ok ready => exact hmem

/-! ### With and without code -/

/-- The expressions of a preparation have code exactly if code is wanted. -/
theorem isSome_chunk_of_mem_ready {rules : List Rule} {ready : PreparedRule}
    (h : ready ∈ (prepare u withCode rules).ready) :
    ∀ e ∈ ready.exprs, e.chunk.isSome = withCode := by
  rw [(collects_prepare u withCode rules).ready] at h
  obtain ⟨out, hout, hready⟩ := List.mem_filterMap.mp h
  have hrule : ∀ rule ∈ rules, ∀ p r, (rule.prepare u withCode p).1 = .ok r →
      ∀ e ∈ r.exprs, e.chunk.isSome = withCode := by
    intro rule _ p r hr
    obtain ⟨exprs, hexprs, rfl⟩ := eq_ok_of_map hr
    exact (prepareExprs_eq_ok hexprs).2
  have hall : ∀ out ∈ (outcomes u withCode rules {}).1, ∀ r, out = .ok r →
      ∀ e ∈ r.exprs, e.chunk.isSome = withCode := forall_mem_outcomes u withCode hrule {}
  cases out with
  | error e => exact absurd hready nofun
  | ok r => exact hall _ hout ready (congrArg _ (Option.some.inj hready))

/-- Without code the pool stays as it is. -/
theorem prepare_off (source : RuleExpr) (p : ConstantPool) :
    (source.prepare u false bindings p).2 = p := by
  cases hresolve : source.resolve u bindings with
  | error e => rw [RuleExpr.prepare_of_error hresolve]
  | ok found => rw [RuleExpr.prepare_of_ok_off hresolve]

theorem prepareExprs_off (exprs : List RuleExpr) (p : ConstantPool) :
    (prepareExprs u false bindings exprs p).2 = p := by
  induction exprs with
  | nil => rfl
  | cons source rest ih =>
    have hpool : (source.prepare u false bindings p).2 = p := prepare_off source p
    cases hsource : (source.prepare u false bindings p).1 with
    | error e => rw [prepareExprs_of_error hsource, hpool]
    | ok prepared => rw [prepareExprs_of_ok hsource, hpool, ih]

theorem outcomes_off (rules : List Rule) (p : ConstantPool) :
    (outcomes u false rules p).2 = p := by
  induction rules with
  | nil => rfl
  | cons rule rest ih =>
    have hpool : (rule.prepare u false p).2 = p := prepareExprs_off rule.exprs p
    rw [outcomes]
    simp only [hpool, ih]

/-- The first outcome, with code, is a failed emission, or the second one is the same but for the
code. -/
def DiffersInCode {α : Type} (S : α → α → Prop) (on off : Except RuleError α) : Prop :=
  (∃ e, on = .error (.codegen e)) ∨ SameOutcome S on off

theorem differsInCode_prepare (u : Universe) (bindings : Bindings) (source : RuleExpr)
    (p q : ConstantPool) :
    DiffersInCode (PreparedExpr.Alike fun _ _ => True) (source.prepare u true bindings p).1
      (source.prepare u false bindings q).1 := by
  cases hresolve : source.resolve u bindings with
  | error e =>
    rw [RuleExpr.prepare_of_error hresolve, RuleExpr.prepare_of_error hresolve]
    exact Or.inr .error
  | ok found =>
    rw [RuleExpr.prepare_of_ok hresolve, RuleExpr.prepare_of_ok_off hresolve]
    cases ((source.role.emission found.1).chunkOf p).1 with
    | error e => exact Or.inl ⟨e, rfl⟩
    | ok chunk => exact Or.inr (.ok ⟨rfl, rfl, rfl, trivial⟩)

theorem differsInCode_prepareExprs (u : Universe) (bindings : Bindings) (exprs : List RuleExpr)
    (p q : ConstantPool) :
    DiffersInCode (List.Forall₂ (PreparedExpr.Alike fun _ _ => True))
      (prepareExprs u true bindings exprs p).1 (prepareExprs u false bindings exprs q).1 := by
  induction exprs generalizing p q with
  | nil => exact Or.inr (.ok .nil)
  | cons source rest ih =>
    have hfirst := differsInCode_prepare u bindings source p q
    generalize hx : (source.prepare u true bindings p).1 = x at hfirst
    generalize hy : (source.prepare u false bindings q).1 = y at hfirst
    rcases hfirst with ⟨e, rfl⟩ | hsame
    · rw [prepareExprs_of_error hx]
      exact Or.inl ⟨e, rfl⟩
    · cases hsame with
      | error =>
        rw [prepareExprs_of_error hx, prepareExprs_of_error hy]
        exact Or.inr .error
      | ok halike =>
        rw [prepareExprs_of_ok hx, prepareExprs_of_ok hy]
        rcases ih (source.prepare u true bindings p).2 (source.prepare u false bindings q).2 with
          ⟨e, he⟩ | hrest
        · exact Or.inl ⟨e, by rw [he]; rfl⟩
        · exact Or.inr (hrest.map fun _ _ h => .cons halike h)

/-- A failed emission is the only failure of a rule that depends on whether code is wanted. -/
theorem differsInCode_outcomes (rules : List Rule) (p q : ConstantPool) :
    List.Forall₂ (DiffersInCode (PreparedRule.Alike fun _ _ => True)) (outcomes u true rules p).1
      (outcomes u false rules q).1 := by
  induction rules generalizing p q with
  | nil => exact .nil
  | cons rule rest ih =>
    refine .cons ?_ (ih _ _)
    rcases differsInCode_prepareExprs u rule.bindings rule.exprs p q with ⟨e, he⟩ | hsame
    · exact Or.inl ⟨e, congrArg (Except.map _) he⟩
    · exact Or.inr (hsame.map fun _ _ h => ⟨rfl, rfl, h⟩)

end Rules

/-! ### Preparations -/

/-- Every rule is ready or disabled, in the order of the rules, and has the outcome that it has
alone. -/
structure Independent (u : Universe) (withCode : Bool) (rules : List Rule) : Prop where
  /-- The rules are sorted by their outcomes. -/
  collects : (prepare u withCode rules).Collects rules (outcomes u withCode rules {}).1
  /-- The outcomes are those of the rules alone. -/
  alone : List.Forall₂ (OutcomeAlone u withCode (prepare u withCode rules).constants) rules
    (outcomes u withCode rules {}).1
  /-- A rule with an expression that fails is disabled, for the first of its failures. -/
  disabled : ∀ rule ∈ rules, ∀ source ∈ rule.exprs, ∀ e,
    source.FailsWith u withCode rule.bindings e →
      ∃ first, rule.FailsWith u withCode first ∧
        ⟨rule.name, first⟩ ∈ (prepare u withCode rules).disabled
  /-- There is code exactly if it is wanted. -/
  code : ∀ ready ∈ (prepare u withCode rules).ready, ∀ e ∈ ready.exprs, e.chunk.isSome = withCode

/-- Without code there are no chunks and no constants, and the outcomes are the same except where
the emission fails. -/
structure CodeOptional (u : Universe) (rules : List Rule) : Prop where
  /-- There are no chunks. -/
  chunks : ∀ ready ∈ (prepare u false rules).ready, ∀ e ∈ ready.exprs, e.chunk = none
  /-- There are no constants. -/
  constants : (prepare u false rules).constants = .empty
  /-- The rules are sorted by their outcomes, with code and without. -/
  collects : ∀ withCode,
    (prepare u withCode rules).Collects rules (outcomes u withCode rules {}).1
  /-- Only failed emissions make a difference. -/
  differs : List.Forall₂ (DiffersInCode (PreparedRule.Alike fun _ _ => True))
    (outcomes u true rules {}).1 (outcomes u false rules {}).1

/-- **The rules of a preparation do not depend on each other.** -/
theorem prepare_independent (u : Universe) (withCode : Bool) (rules : List Rule)
    (hsize : (prepare u withCode rules).constants.size ≤ 65536) :
    Independent u withCode rules ∧ CodeOptional u rules := by
  have halone : List.Forall₂ (OutcomeAlone u withCode (prepare u withCode rules).constants) rules
      (outcomes u withCode rules {}).1 := by
    rw [constants_prepare] at hsize ⊢
    exact outcomes_alone rules ConstantPool.lawful_empty hsize
  have hdisabled : ∀ rule ∈ rules, ∀ source ∈ rule.exprs, ∀ e,
      source.FailsWith u withCode rule.bindings e →
        ∃ first, rule.FailsWith u withCode first ∧
          ⟨rule.name, first⟩ ∈ (prepare u withCode rules).disabled := by
    rw [(collects_prepare u withCode rules).disabled]
    exact fun _ hrule _ hsource _ => mem_disabledOf_of_failsWith halone hrule hsource
  refine ⟨⟨collects_prepare u withCode rules, halone, hdisabled,
      fun _ h => isSome_chunk_of_mem_ready h⟩,
    ⟨fun _ h e he => ?_, ?_, fun withCode => collects_prepare u withCode rules,
      differsInCode_outcomes rules _ _⟩⟩
  · have hnone := isSome_chunk_of_mem_ready h e he
    simpa using hnone
  · rw [constants_prepare, outcomes_off]
    rfl

namespace LinkedList

/-- A field of the binding is read. -/
def readOf (field : String) : RuleExpr :=
  ⟨Dotted.join (["n"] ++ [field]), ⟨1, 1, 2 + field.utf8ByteSize⟩, .undefined, .read⟩

/-- A rule that reads a field, and then one that there is not. -/
def lost (field : String) : Rule := ⟨"lost", bindings, [readOf field, readOf "lost"]⟩

/-- A rule that counts. -/
def counting : Rule := ⟨"counting", bindings, [readOf "count"]⟩

/-- The field for the next node. -/
def nextFound : ResolvedField :=
  ⟨.instanceField ⟨"list.Node"⟩ "next" (.named ⟨"list.Node"⟩), .object nodeType⟩

/-- The field that counts. -/
def countFound : ResolvedField :=
  ⟨.instanceField ⟨"list.Node"⟩ "count" (.primitive .long), .primitive .long⟩

/-- A field of the binding. -/
def memberOf (found : ResolvedField) : Expr :=
  .member (.binding "n" ⟨1, 1, 1⟩ (.object nodeType) (some 0)) found.field.name
    ⟨1, 1, 2 + found.field.name.utf8ByteSize⟩ (some found)

theorem resolve_next : (readOf "next").resolve table.toUniverse bindings =
    .ok (memberOf nextFound, .object nodeType) := by
  rw [RuleExpr.resolve_eq, readOf, Expr.parse_join (by simp) (by decide +kernel)]
  simp only [Except.bind, Expr.bind, lookup_eq]
  rfl

theorem resolve_count : (readOf "count").resolve table.toUniverse bindings =
    .ok (memberOf countFound, .primitive .long) := by
  rw [RuleExpr.resolve_eq, readOf, Expr.parse_join (by simp) (by decide +kernel)]
  simp only [Except.bind, Expr.bind, lookup_eq]
  rfl

theorem resolve_lost : ∃ e, (readOf "lost").resolve table.toUniverse bindings = .error e := by
  rw [RuleExpr.resolve_eq, readOf, Expr.parse_join (by simp) (by decide +kernel)]
  simp only [Except.bind, Expr.bind, lookup_eq]
  exact ⟨_, rfl⟩

variable {field : String} {found : ResolvedField} {ty : Ty} {p : ConstantPool}

/-- The code of a field refers to it by its index in the pool. -/
theorem chunkOf_memberOf (hindex : (p.add (Emit.fieldConstant found.field)).1 < 65536) :
    ∃ chunk, Emit.chunkOf (memberOf found).compile p =
      (.ok chunk, (p.add (Emit.fieldConstant found.field)).2) := by
  -- the owner takes one slot
  obtain ⟨owner, hrun, rfl, howner⟩ : ∃ owner, (memberOf found).compile (.new p) =
      (Emit.getField found.field found.ty.width >>= fun _ =>
        Emit.verify 0 (Emit.slots found.ty.width) "field read") owner ∧ owner.pool = p ∧
        owner.height = 1 :=
    ⟨⟨⟨#[⟨9, 1⟩, ⟨0, 1⟩]⟩, p, ⟨1, 1⟩, 1⟩, rfl, rfl, show (1 : Int32).toInt = 1 by decide⟩
  obtain ⟨next, hget, hpool, hheight⟩ : ∃ next,
      Emit.getField found.field found.ty.width owner = .ok () next ∧
        next.pool = (owner.pool.add (Emit.fieldConstant found.field)).2 ∧
        next.height = signed32 (0 + Emit.slots found.ty.width) := by
    refine ⟨_, by rw [Emit.getField, Emit.onField_eq, if_pos hindex], rfl, ?_⟩
    have hsum : 1 + (Emit.slots found.ty.width - 1) = 0 + Emit.slots found.ty.width := by omega
    have howner' : Emitter.height
        { owner with pool := (owner.pool.add (Emit.fieldConstant found.field)).2 } = 1 := howner
    rw [Emitter.height_write, howner', hsum]
  rw [Emit.bind_of_ok hget, Emit.verify_eq, if_pos hheight] at hrun
  exact ⟨next.chunk, by rw [Emit.chunkOf, EStateM.run, hrun, ← hpool]⟩

theorem prepare_readOf
    (hresolve : (readOf field).resolve table.toUniverse bindings = .ok (memberOf found, ty))
    (hindex : (p.add (Emit.fieldConstant found.field)).1 < 65536) :
    ∃ prepared, (readOf field).prepare table.toUniverse true bindings p =
      (.ok prepared, (p.add (Emit.fieldConstant found.field)).2) := by
  obtain ⟨chunk, hchunk⟩ := chunkOf_memberOf hindex
  refine ⟨⟨memberOf found, ty, .read, some chunk⟩, ?_⟩
  rw [RuleExpr.prepare_of_ok hresolve]
  show (((Emit.chunkOf (memberOf found).compile p).1.mapError _).map _,
    (Emit.chunkOf (memberOf found).compile p).2) = _
  rw [hchunk]
  rfl

/-- The rule fails, and leaves the reference of the field that it could read. -/
theorem prepare_lost
    (hresolve : (readOf field).resolve table.toUniverse bindings = .ok (memberOf found, ty))
    (hindex : (p.add (Emit.fieldConstant found.field)).1 < 65536) :
    ∃ e, (lost field).prepare table.toUniverse true p =
      (.error e, (p.add (Emit.fieldConstant found.field)).2) := by
  obtain ⟨prepared, hfirst⟩ := prepare_readOf hresolve hindex
  obtain ⟨e, hlost⟩ := resolve_lost
  refine ⟨.resolution e, ?_⟩
  rw [Rule.prepare, lost, prepareExprs_of_ok (congrArg Prod.fst hfirst), hfirst,
    prepareExprs_of_error (congrArg Prod.fst (RuleExpr.prepare_of_error hlost _)),
    RuleExpr.prepare_of_error hlost]
  rfl

theorem prepare_counting (hindex : (p.add (Emit.fieldConstant countFound.field)).1 < 65536) :
    ∃ ready, counting.prepare table.toUniverse true p =
      (.ok ready, (p.add (Emit.fieldConstant countFound.field)).2) := by
  obtain ⟨prepared, hfirst⟩ := prepare_readOf resolve_count hindex
  refine ⟨⟨"counting", bindings, [prepared]⟩, ?_⟩
  rw [Rule.prepare, counting, prepareExprs_of_ok (congrArg Prod.fst hfirst), hfirst]
  rfl

theorem index_lt {c : Constant} (hp : p.Lawful) (hsize : p.size ≤ 1) : (p.add c).1 < 65536 := by
  have hlt := hp.add_lt_size c
  have hle := p.size_add_le c
  omega

/-- The reference of the one field that is read. -/
theorem constants_counting : (prepare table.toUniverse true [counting]).constants =
    (ConstantPool.empty.add (Emit.fieldConstant countFound.field)).2 := by
  obtain ⟨ready, hready⟩ := prepare_counting (index_lt ConstantPool.lawful_empty (by decide))
  rw [constants_prepare]
  exact congrArg Prod.snd hready

/-- The reference that the failing rule left comes first. -/
theorem constants_lost_counting :
    (prepare table.toUniverse true [lost "next", counting]).constants =
      ((ConstantPool.empty.add (Emit.fieldConstant nextFound.field)).2.add
        (Emit.fieldConstant countFound.field)).2 := by
  obtain ⟨e, hlost⟩ := prepare_lost resolve_next (index_lt ConstantPool.lawful_empty (by decide))
  obtain ⟨ready, hready⟩ := prepare_counting (index_lt
    (ConstantPool.lawful_empty.add (Emit.fieldConstant nextFound.field))
    (ConstantPool.size_add_le _ _))
  rw [constants_prepare]
  show (counting.prepare table.toUniverse true
    ((lost "next").prepare table.toUniverse true .empty).2).2 = _
  rw [hlost, hready]

end LinkedList

/-- A rule that fails when it has read a field, and one that reads another field. -/
theorem prepare_independent_linkedList :
    (prepare LinkedList.table.toUniverse true
      [LinkedList.lost "next", LinkedList.counting]).constants.size ≤ 65536 ∧
    Independent LinkedList.table.toUniverse true [LinkedList.lost "next", LinkedList.counting] ∧
    CodeOptional LinkedList.table.toUniverse [LinkedList.lost "next", LinkedList.counting] := by
  have hsize : (prepare LinkedList.table.toUniverse true
      [LinkedList.lost "next", LinkedList.counting]).constants.size ≤ 65536 := by
    rw [LinkedList.constants_lost_counting]
    have hfirst := ConstantPool.empty.size_add_le (Emit.fieldConstant LinkedList.nextFound.field)
    have hsecond := (ConstantPool.empty.add
      (Emit.fieldConstant LinkedList.nextFound.field)).2.size_add_le
        (Emit.fieldConstant LinkedList.countFound.field)
    have hzero : ConstantPool.empty.size = 0 := rfl
    omega
  exact ⟨hsize, prepare_independent _ _ _ hsize⟩

end FieldPath
