import FieldPath.Proofs.Machine.ExprCalls
import FieldPath.Proofs.Path.History

/-!
# The lifecycle of expressions

An expression only moves forward.  A bind or a check may give a path its meaning and may record a
field or a binding, whether the call succeeds or not; no call takes a meaning back or replaces what
is recorded.  An expression with a field recorded at a node has its whole meaning beneath that node.
Once the whole expression has its meaning it stays as it is, and neither evaluation nor the emission
of code finds it unresolved.

## Main definitions

* `Expr.nodes`, `Expr.recorded?` — the nodes of an expression, and the field recorded at one.
* `Expr.Advances` — the second expression is the first one, moved forward.
* `Expr.Complete` — a node has its meaning, and the field of it is one of the right kind.
* `Expr.answer` — the type that a check of a resolved expression answers.
* `Understood` — an evaluation that does not fail for want of a meaning.
* `Expr.Usable` — what a successful check leaves.

## Main results

* `Expr.Faithful.advances_after` — **every call moves an expression forward.**
* `Expr.Faithful.recorded` — what is beneath a recorded field is resolved.
* `Expr.HasType.usable` — **a typed expression is complete, and is never found unresolved.**
* `lifecycle` — all of this, for every expression that can be made.
-/

namespace FieldPath

namespace Expr

/-! ### Nodes -/

/-- The node and all nodes beneath it. -/
def nodes : Expr → List Expr
  | .binding name span ty slot => [.binding name span ty slot]
  | .static r => [.static r]
  | .path segments field span => [.path segments field span]
  | .member owner field span recorded => .member owner field span recorded :: owner.nodes
  | .qualified target field span recorded =>
      [.qualified target field span recorded, .static target]

/-- The field that is recorded at a node. -/
def recorded? : Expr → Option ResolvedField
  | .binding _ _ _ _ => none
  | .static r => r.resolved
  | .path _ _ _ => none
  | .member _ _ _ recorded => recorded
  | .qualified _ _ _ recorded => recorded

/-- The node is a path without a meaning. -/
def isPath : Expr → Bool
  | .path _ _ _ => true
  | _ => false

/-- The node has its meaning: a binding is the one of its name, and a field is recorded that belongs
to the class or to the instances, as the node needs; a field of a value has an object for owner. -/
def Complete (bindings : Bindings) : Expr → Prop
  | .binding name _ ty slot =>
      ∃ b, bindings.lookup name = some b ∧ ty = b.ty ∧ slot = some b.slot
  | .static r => ∃ found, r.resolved = some found ∧ found.field.isStatic = true
  | .path _ _ _ => False
  | .member owner _ _ recorded => ∃ found, recorded = some found ∧ found.field.isStatic = false ∧
      ∃ o, owner.ty.deref = .object o
  | .qualified target _ _ recorded => ∃ found, recorded = some found ∧
      target.resolved = some found ∧ found.field.isStatic = true

/-- The type that a check of a resolved expression answers: the type of the binding, or that of the
field without aliases. -/
def answer : Expr → Ty
  | .binding _ _ ty _ => ty
  | e => e.ty.deref

variable {u : Universe} {bindings : Bindings}

/-- Every node of a typed expression is typed. -/
theorem HasType.nodes {e : Expr} {t : Ty} (h : HasType u bindings e t) :
    ∀ n ∈ e.nodes, ∃ t', HasType u bindings n t' := by
  induction h with
  | binding hb =>
    intro n hn
    obtain rfl := List.mem_singleton.mp hn
    exact ⟨_, .binding hb⟩
  | static hfind hres =>
    intro n hn
    obtain rfl := List.mem_singleton.mp hn
    exact ⟨_, .static hfind hres⟩
  | qualified hfind hres =>
    intro n hn
    rcases List.mem_cons.mp hn with rfl | hn
    · exact ⟨_, .qualified hfind hres⟩
    · obtain rfl := List.mem_singleton.mp hn
      exact ⟨_, .static hfind hres⟩
  | member howner hfind ih =>
    intro n hn
    rcases List.mem_cons.mp hn with rfl | hn
    · exact ⟨_, .member howner hfind⟩
    · exact ih n hn

/-- A typed node has its meaning. -/
theorem HasType.complete {e : Expr} {t : Ty} (h : HasType u bindings e t) :
    e.Complete bindings := by
  cases h with
  | binding hb => exact ⟨_, hb, rfl, rfl⟩
  | static hfind hres =>
    obtain ⟨o, -, -, hstatic, -⟩ := Universe.findStatic_eq_ok hfind
    exact ⟨_, hres, hstatic⟩
  | qualified hfind hres =>
    obtain ⟨o, -, -, hstatic, -⟩ := Universe.findStatic_eq_ok hfind
    exact ⟨_, rfl, hres, hstatic⟩
  | member howner hfind =>
    obtain ⟨o, hobject, -, hinstance, -⟩ := Universe.findMember_eq_ok hfind
    exact ⟨_, rfl, hinstance, o, by rw [howner.ty_eq, hobject]⟩

theorem HasType.isResolved {e : Expr} {t : Ty} (h : HasType u bindings e t) :
    e.isResolved = true := by
  induction h with
  | binding _ => rfl
  | static _ hres => simp only [Expr.isResolved, hres, Option.isSome_some]
  | qualified _ hres => simp only [Expr.isResolved, hres, Option.isSome_some, Bool.and_self]
  | member _ _ ih => simp only [Expr.isResolved, ih, Option.isSome_some, Bool.and_self]

theorem HasType.isPath {e : Expr} {t : Ty} (h : HasType u bindings e t) : e.isPath = false := by
  cases h <;> rfl

/-- What is resolved and was found by the rules is typed. -/
theorem Faithful.hasType_of_isResolved {e : Expr} (h : Faithful u bindings e)
    (hres : e.isResolved = true) : ∃ t, HasType u bindings e t := by
  cases h with
  | binding => simp [Expr.isResolved] at hres
  | static hnone => simp [Expr.isResolved, hnone] at hres
  | path => simp [Expr.isResolved] at hres
  | member _ => simp [Expr.isResolved] at hres
  | qualified _ => simp [Expr.isResolved] at hres
  | typed ht => exact ⟨_, ht⟩

/-- **What is beneath a recorded field is resolved.** -/
theorem Faithful.recorded {e : Expr} (h : Faithful u bindings e) :
    ∀ n ∈ e.nodes, n.recorded?.isSome = true →
      n.isPath = false ∧ ∀ m ∈ n.nodes, m.isResolved = true := by
  have htyped : ∀ {n : Expr} {t : Ty}, HasType u bindings n t →
      n.isPath = false ∧ ∀ m ∈ n.nodes, m.isResolved = true := by
    intro n t ht
    refine ⟨ht.isPath, fun m hm => ?_⟩
    obtain ⟨t', ht'⟩ := ht.nodes m hm
    exact ht'.isResolved
  induction h with
  | binding =>
    intro n hn hrec
    obtain rfl := List.mem_singleton.mp hn
    simp [recorded?] at hrec
  | static hnone =>
    intro n hn hrec
    obtain rfl := List.mem_singleton.mp hn
    simp [recorded?, hnone] at hrec
  | path =>
    intro n hn hrec
    obtain rfl := List.mem_singleton.mp hn
    simp [recorded?] at hrec
  | member _ ih =>
    intro n hn hrec
    rcases List.mem_cons.mp hn with rfl | hn
    · simp [recorded?] at hrec
    · exact ih n hn hrec
  | qualified _ ih =>
    intro n hn hrec
    rcases List.mem_cons.mp hn with rfl | hn
    · simp [recorded?] at hrec
    · exact ih n hn hrec
  | typed ht =>
    intro n hn _
    obtain ⟨t', ht'⟩ := ht.nodes n hn
    exact htyped ht'

/-! ### Moving forward -/

/-- The second expression is the first one, moved forward.  A path may have been given a meaning;
what is no path stays the node that it is.  What is recorded stays recorded, and what is beneath it
stays as it is; elsewhere owners and targets move forward in their places. -/
inductive Advances : Expr → Expr → Prop where
  /-- A name, which is looked up once at most. -/
  | binding {name : String} {span : Span} {ty ty' : Ty} {slot slot' : Option Nat} :
      (slot.isSome = true → ty' = ty ∧ slot' = slot) →
      Advances (.binding name span ty slot) (.binding name span ty' slot')
  /-- A field of a class. -/
  | static {r r' : StaticRef} :
      r'.bare = r.bare → (r.resolved.isSome = true → r' = r) → Advances (.static r) (.static r')
  /-- A path that is still without a meaning. -/
  | path {segments : List String} {field : String} {span : Span} :
      Advances (.path segments field span) (.path segments field span)
  /-- A path that has become a field of a value. -/
  | pathMember {segments : List String} {field : String} {span : Span} {owner : Expr}
      {recorded : Option ResolvedField} :
      Advances (.path segments field span) (.member owner field span recorded)
  /-- A path that has become a field of a class as a whole. -/
  | pathQualified {segments : List String} {field : String} {span : Span} {target : StaticRef}
      {recorded : Option ResolvedField} :
      Advances (.path segments field span) (.qualified target field span recorded)
  /-- A field of a value, whose owner moves forward. -/
  | member {owner owner' : Expr} {field : String} {span : Span}
      {recorded recorded' : Option ResolvedField} :
      Advances owner owner' → (recorded.isSome = true → owner' = owner ∧ recorded' = recorded) →
      Advances (.member owner field span recorded) (.member owner' field span recorded')
  /-- A path that is a field of a class as a whole, whose target moves forward. -/
  | qualified {target target' : StaticRef} {field : String} {span : Span}
      {recorded recorded' : Option ResolvedField} :
      Advances (.static target) (.static target') →
      (recorded.isSome = true → target' = target ∧ recorded' = recorded) →
      Advances (.qualified target field span recorded) (.qualified target' field span recorded')

theorem Advances.refl (e : Expr) : Advances e e := by
  induction e with
  | binding name span ty slot => exact .binding fun _ => ⟨rfl, rfl⟩
  | static r => exact .static rfl fun _ => rfl
  | path segments field span => exact .path
  | member owner field span recorded ih => exact .member ih fun _ => ⟨rfl, rfl⟩
  | qualified target field span recorded =>
    exact .qualified (.static rfl fun _ => rfl) fun _ => ⟨rfl, rfl⟩

theorem Advances.trans {e e' : Expr} (h : Advances e e') :
    ∀ {e''}, Advances e' e'' → Advances e e'' := by
  induction h with
  | binding hkeep =>
    intro e'' h'
    cases h' with
    | binding hkeep' =>
      refine .binding fun hslot => ?_
      obtain ⟨rfl, rfl⟩ := hkeep hslot
      exact hkeep' hslot
  | static hbare hkeep =>
    intro e'' h'
    cases h' with
    | static hbare' hkeep' =>
      refine .static (hbare'.trans hbare) fun hres => ?_
      obtain rfl := hkeep hres
      exact hkeep' hres
  | path => exact fun h' => h'
  | pathMember =>
    intro e'' h'
    cases h' with
    | member _ _ => exact .pathMember
  | pathQualified =>
    intro e'' h'
    cases h' with
    | qualified _ _ => exact .pathQualified
  | member _ hkeep ih =>
    intro e'' h'
    cases h' with
    | member howner hkeep' =>
      refine .member (ih howner) fun hrec => ?_
      obtain ⟨rfl, rfl⟩ := hkeep hrec
      exact hkeep' hrec
  | qualified _ hkeep ih =>
    intro e'' h'
    cases h' with
    | qualified htarget hkeep' =>
      refine .qualified (ih htarget) fun hrec => ?_
      obtain ⟨rfl, rfl⟩ := hkeep hrec
      exact hkeep' hrec

/-- What is no path becomes none. -/
theorem Advances.isPath {e e' : Expr} (h : Advances e e') (he : e.isPath = false) :
    e'.isPath = false := by
  cases h <;> first | rfl | exact he

/-- What a look-up fills in moves the expression forward. -/
theorem Filled.advances {e e' : Expr} (h : Filled bindings e e') : Advances e e' := by
  induction h with
  | refl => exact .refl _
  | binding _ => exact .binding (by simp)
  | static hnone hbare => exact .static hbare (by simp [hnone])
  | member _ ih => exact .member ih (by simp)
  | qualified _ ih => exact .qualified ih (by simp)

/-- Spelling a path out moves the expression forward. -/
theorem advances_spellOut {e : Expr} : ∀ {e'}, e.spellOut u = .ok e' → Advances e e' := by
  induction e with
  | path segments field span =>
    intro e' h
    rcases ofClassPath_cases h with ⟨name, rfl⟩ | ⟨name, first, here, count, rest, rfl⟩
    · exact .pathQualified
    · exact .pathMember
  | member owner field span recorded ih =>
    intro e' h
    cases recorded with
    | some found =>
      obtain rfl := Except.ok.inj h
      exact .refl _
    | none =>
      obtain ⟨owner', hown, rfl⟩ := eq_ok_of_map h
      exact .member (ih hown) (by simp)
  | _ =>
    intro e' h
    obtain rfl := Except.ok.inj h
    exact .refl _

theorem advances_check (e : Expr) (required : Ty) :
    Advances e (e.check u bindings required).1 := by
  unfold Expr.check
  split
  · exact .refl _
  · next e' he' =>
    have hfilled : Filled bindings e' (e'.infer u bindings required).1 := filled_infer e' required
    exact (advances_spellOut he').trans hfilled.advances

/-- Binding moves the expression forward. -/
theorem Faithful.advances_bind {e : Expr} (h : Faithful u bindings e) :
    ∀ {e'}, e.bind bindings = .ok e' → Advances e e' := by
  induction h with
  | binding =>
    intro e' h
    simp only [Expr.bind] at h
    split at h
    · obtain rfl := Except.ok.inj h
      exact .binding (by simp)
    · simp at h
  | static _ =>
    intro e' h
    obtain rfl := Except.ok.inj h
    exact .refl _
  | @path segments field span =>
    intro e' h
    cases segments with
    | nil =>
      obtain rfl := Except.ok.inj h
      exact .path
    | cons root rest =>
      simp only [Expr.bind] at h
      split at h
      · obtain rfl := Except.ok.inj h
        exact .pathMember
      · obtain rfl := Except.ok.inj h
        exact .path
  | member _ ih =>
    intro e' h
    obtain ⟨owner', hown, rfl⟩ := eq_ok_of_map h
    exact .member (ih hown) (by simp)
  | qualified _ _ =>
    intro e' h
    obtain rfl := Except.ok.inj h
    exact .refl _
  | typed ht =>
    intro e' h
    rw [ht.bind_eq] at h
    obtain rfl := Except.ok.inj h
    exact .refl _

/-- **Every call moves an expression forward.** -/
theorem Faithful.advances_after {e : Expr} (h : Faithful u bindings e) (passes : List Pass) :
    Advances e (e.after u bindings passes) := by
  have hafter : Faithful u bindings (e.after u bindings passes) ∧
      Advances e (e.after u bindings passes) := by
    refine after_induction (P := fun e' => Faithful u bindings e' ∧ Advances e e') ?_ ?_
      ⟨h, .refl e⟩ passes
    · intro e₁ e₂ ⟨hfaithful, hadvances⟩ hbind
      exact ⟨hfaithful.bind hbind, hadvances.trans (hfaithful.advances_bind hbind)⟩
    · intro e₁ required ⟨hfaithful, hadvances⟩
      exact ⟨(hfaithful.check required).1, hadvances.trans (advances_check e₁ required)⟩
  exact hafter.2

theorem after_append (e : Expr) (passes later : List Pass) :
    e.after u bindings (passes ++ later) = (e.after u bindings passes).after u bindings later :=
  List.foldl_append

/-- Calls on an expression that is made make an expression. -/
theorem Made.after {e : Expr} (h : Made u bindings e) (passes : List Pass) :
    Made u bindings (e.after u bindings passes) :=
  after_induction (fun _ _ h hbind => h.bind hbind) (fun _ required h => h.check required) h passes

/-! ### Answers of checks -/

/-- Where a typed expression answers at all, it answers its own type. -/
theorem HasType.infer_answer {e : Expr} {t required ty : Ty} (h : HasType u bindings e t)
    (hok : (e.infer u bindings required).2 = .ok ty) : ty = e.answer := by
  cases h with
  | binding _ =>
    obtain ⟨_, _, rfl⟩ := eq_ok_of_map hok
    rfl
  | @static r found _ hres =>
    simp only [infer, inferStatic, hres] at hok
    have hty : r.ty = found.ty := by rw [StaticRef.ty, hres]
    rw [require_eq_ok hok, ← hty]
    rfl
  | qualified _ _ => exact require_eq_ok hok
  | member _ _ => exact require_eq_ok hok

/-- A check that succeeds answers the type of the expression that it leaves. -/
theorem Faithful.check_answer {e final : Expr} {required ty : Ty} (h : Faithful u bindings e)
    (ha : e.Aligned) (hcheck : e.check u bindings required = (final, .ok ty)) :
    ty = final.answer := by
  have hsound := h.check required
  have haligned : (e.check u bindings required).1.Aligned := ha.check required
  have hanswer := h.check_snd ha required
  rw [hcheck] at hsound haligned hanswer
  obtain ⟨t, ht, -⟩ := hsound.2 ty rfl
  -- the check had to find the type; once it is recorded, a second look at the same names answers it
  rw [bare_check hcheck] at hanswer
  have hinfer : (final.infer u bindings required).2 = .ok ty :=
    (ht.infer_bare haligned required).symm.trans hanswer.symm
  exact ht.infer_answer hinfer

end Expr

/-! ### Evaluation -/

/-- The evaluation does not fail for an expression without its meaning. -/
def Understood {α : Type} (outcome : Except ExecuteError α) : Prop :=
  ∀ span text, outcome ≠ .error ⟨span, .unresolved text⟩

theorem understood_ok {α : Type} (a : α) : Understood (.ok a) := by
  simp [Understood]

theorem understood_error {α : Type} {err : ExecuteError}
    (h : ∀ text, err.cause ≠ .unresolved text) : Understood (.error err : Except ExecuteError α) :=
  fun _ text heq => h text (congrArg ExecuteError.cause (Except.error.inj heq))

theorem understood_bind {α β : Type} {x : Except ExecuteError α} {f : α → Except ExecuteError β}
    (hx : Understood x) (hf : ∀ a, Understood (f a)) : Understood (x.bind f) := by
  cases x with
  | error err => exact fun span text h => hx span text (congrArg Except.error (Except.error.inj h))
  | ok a => exact hf a

theorem understood_map {α β : Type} {x : Except ExecuteError α} (f : α → β) (hx : Understood x) :
    Understood (x.map f) :=
  fun span text h => hx span text (eq_error_of_map h)

/-- What the object graph refuses is not for want of a meaning. -/
theorem understood_mapError {α : Type} {x : Except AccessError α} {g : AccessError → ExecuteError}
    (hg : ∀ err text, (g err).cause ≠ .unresolved text) : Understood (x.mapError g) := by
  intro span text h
  obtain ⟨err, -, herr⟩ := eq_error_of_mapError h
  exact hg err text (congrArg ExecuteError.cause herr)

theorem ExecuteCause.ofRead_ne_unresolved (f : Field) (err : AccessError) (text : String) :
    ofRead f err ≠ .unresolved text := by
  cases err <;> simp [ofRead]

theorem ExecuteCause.ofWrite_ne_unresolved (f : Field) (err : AccessError) (text : String) :
    ofWrite f err ≠ .unresolved text := by
  cases err <;> simp [ofWrite]

theorem understood_ownerHandle (text : String) (span : Span) (field : Field) (v : Value) :
    Understood (ownerHandle text span field v) := by
  cases v with
  | object hd => exact understood_ok hd
  | _ => exact understood_error (by simp)

section Evaluation

variable {γ : Type} [ObjectGraph γ] {u : Universe} {bindings : Bindings} {found : ResolvedField}

theorem StaticRef.understood_read (frame : Frame γ) {r : StaticRef}
    (hres : r.resolved = some found) : Understood (r.read frame) := by
  rw [read_eq hres]
  exact understood_mapError fun err text => ExecuteCause.ofRead_ne_unresolved _ err text

theorem StaticRef.understood_assign (frame : Frame γ) {r : StaticRef}
    (hres : r.resolved = some found) (v : Value) : Understood (r.assign frame v) := by
  rw [assign_eq hres]
  exact understood_map _
    (understood_mapError fun err text => ExecuteCause.ofWrite_ne_unresolved _ err text)

namespace Expr

/-- The evaluation of a typed expression finds every meaning that it needs, in every frame. -/
theorem HasType.understood_read (frame : Frame γ) {e : Expr} {t : Ty}
    (h : HasType u bindings e t) : Understood (e.read frame) := by
  induction h with
  | @binding name span b _ =>
    simp only [Expr.read]
    split
    · exact understood_ok _
    · exact understood_error (by simp)
  | static _ hres => exact StaticRef.understood_read frame hres
  | qualified _ hres => exact StaticRef.understood_read frame hres
  | @member owner t field span found _ _ ih =>
    refine understood_bind ih fun v => understood_bind (understood_ownerHandle _ _ _ v) fun hd => ?_
    exact understood_mapError fun err text => ExecuteCause.ofRead_ne_unresolved _ err text

/-- So does an assignment to it. -/
theorem HasType.understood_assign (frame : Frame γ) {e : Expr} {t : Ty}
    (h : HasType u bindings e t) (v : Value) : Understood (e.assign frame v) := by
  refine understood_map _ ?_
  cases h with
  | @binding name span b _ =>
    simp only [Expr.store]
    split
    · exact understood_ok _
    · exact understood_error (by simp)
  | static _ hres => exact StaticRef.understood_assign frame hres v
  | qualified _ hres => exact StaticRef.understood_assign frame hres v
  | @member owner t field span found howner _ =>
    refine understood_bind (howner.understood_read frame) fun w =>
      understood_bind (understood_ownerHandle _ _ _ w) fun hd => understood_bind ?_ fun _ => ?_
    · exact understood_mapError fun err text => ExecuteCause.ofWrite_ne_unresolved _ err text
    · exact understood_ok _

end Expr

end Evaluation

/-! ### Usable expressions -/

/-- The only failure of calls is an index that does not fit. -/
theorem Emit.calls_ne_unresolved (cs : List Call) (s s' : Emitter) (text : String) :
    calls cs s ≠ .error (.unresolved text) s' := by
  by_cases hfits : Fits s.pool cs
  · obtain ⟨s'', hok⟩ := calls_of_fits hfits
    simp [hok]
  · obtain ⟨role, index, s'', herror, -, -⟩ := calls_of_not_fits hfits
    simp [herror]

namespace Expr

variable {u : Universe} {bindings : Bindings}

/-- The expression has its whole meaning and keeps it, and no use of it finds it unresolved. -/
structure Usable (u : Universe) (bindings : Bindings) (e : Expr) : Prop where
  /-- No node is a path, and all of them are resolved. -/
  resolved : ∀ n ∈ e.nodes, n.isPath = false ∧ n.isResolved = true
  /-- Every field belongs to the class or to the instances, as its node needs. -/
  complete : ∀ n ∈ e.nodes, n.Complete bindings
  /-- No later call changes the expression. -/
  settled : ∀ later, e.after u bindings later = e
  /-- It is read. -/
  read : ∀ {γ : Type} [ObjectGraph γ] (frame : Frame γ), Understood (e.read frame)
  /-- It is assigned to. -/
  assign : ∀ {γ : Type} [ObjectGraph γ] (frame : Frame γ) v, Understood (e.assign frame v)
  /-- The code that reads it is emitted. -/
  compile : ∀ s s' text, e.compile s ≠ .error (.unresolved text) s'
  /-- The code that assigns to it is emitted. -/
  compileAssign : ∀ s s' text, e.compileAssign s ≠ .error (.unresolved text) s'

/-- **A typed expression is complete, and is never found unresolved.** -/
theorem HasType.usable {e : Expr} {t : Ty} (h : HasType u bindings e t) : e.Usable u bindings where
  resolved n hn := by
    obtain ⟨t', ht'⟩ := h.nodes n hn
    exact ⟨ht'.isPath, ht'.isResolved⟩
  complete n hn := by
    obtain ⟨t', ht'⟩ := h.nodes n hn
    exact ht'.complete
  settled := h.after_eq
  read frame := h.understood_read frame
  assign frame v := h.understood_assign frame v
  compile := by
    rw [h.compile_eq_calls]
    exact Emit.calls_ne_unresolved _
  compileAssign := by
    rw [h.compileAssign_eq_calls]
    exact Emit.calls_ne_unresolved _

end Expr

/-- **Expressions only move forward.**  Take an expression that is made in any way, and any calls on
it, of which some may fail.  Then a node with a field recorded is no path, and what is beneath it is
resolved; later calls move the expression forward, and change nothing once it is resolved.  A check
that succeeds leaves an expression that is resolved as a whole and can be used, and answers its
type. -/
theorem lifecycle {u : Universe} {bindings : Bindings} {e : Expr}
    (hmade : Expr.Made u bindings e) (passes : List Pass) :
    (∀ n ∈ (e.after u bindings passes).nodes, n.recorded?.isSome = true →
      n.isPath = false ∧ ∀ m ∈ n.nodes, m.isResolved = true) ∧
    (∀ later,
      Expr.Advances (e.after u bindings passes) (e.after u bindings (passes ++ later)) ∧
      ((e.after u bindings passes).isResolved = true →
        e.after u bindings (passes ++ later) = e.after u bindings passes)) ∧
    ∀ required final ty, (e.after u bindings passes).check u bindings required = (final, .ok ty) →
      final.Usable u bindings ∧ ty = final.answer := by
  have hafter := hmade.after passes
  have hfaithful := hafter.faithful
  refine ⟨hfaithful.recorded, fun later => ?_, fun required final ty hcheck => ?_⟩
  · rw [Expr.after_append]
    refine ⟨hfaithful.advances_after later, fun hres => ?_⟩
    obtain ⟨t, ht⟩ := hfaithful.hasType_of_isResolved hres
    exact ht.after_eq later
  · have hsound := hfaithful.check required
    rw [hcheck] at hsound
    obtain ⟨t, ht, -⟩ := hsound.2 ty rfl
    exact ⟨ht.usable, hfaithful.check_answer hafter.aligned hcheck⟩

/-- The count of the first node is no `int`.  The check for one fails, but it leaves every field
recorded, and the next check answers `long`. -/
theorem lifecycle_linkedList :
    let start : Expr := .path ["list", "Node", "first"] "count" ⟨1, 1, 21⟩
    let e := start.after LinkedList.table.toUniverse LinkedList.bindings
      [.check (.primitive .int), .bind]
    start.isPath = true ∧ e.isPath = false ∧
      (∀ later, Expr.Advances e (e.after LinkedList.table.toUniverse LinkedList.bindings later)) ∧
      ∃ final,
        e.check LinkedList.table.toUniverse LinkedList.bindings .undefined =
          (final, .ok (.primitive .long)) ∧
        final.Usable LinkedList.table.toUniverse LinkedList.bindings ∧
        final.answer = .primitive .long := by
  intro start e
  obtain ⟨-, hlater, hcheck⟩ := lifecycle (u := LinkedList.table.toUniverse)
    (.path ["list", "Node", "first"] "count" ⟨1, 1, 21⟩)
    [.check (.primitive .int), .bind]
  obtain ⟨husable, hanswer⟩ := hcheck .undefined _ _ rfl
  refine ⟨rfl, rfl, fun later => ?_, _, rfl, husable, hanswer.symm⟩
  have hadvances := (hlater later).1
  rwa [Expr.after_append] at hadvances

end FieldPath
