import FieldPath.Path.Attach
import FieldPath.Path.Typing
import FieldPath.Proofs.Outcome

/-!
# Typed expressions

Which expressions have a type is given by rules, one for each kind of node: a binding has the type
it was declared with, a field has the type that the universe gives to it, and a field of a value
needs an owner of a type.  Looking names and fields up follows these rules.  Whatever expression is
made, by building, binding and checking in any order and with any failures in between, what is
recorded in it was found by the rules; so an expression whose check succeeds has the type that the
check answers.

## Main definitions

* `Expr.HasType` — the typing rules.
* `Expr.Faithful` — what is recorded in an expression was found by the rules.
* `Expr.Made`, `Expr.Checked` — the expressions that can be made, and those that were checked.

## Main results

* `Expr.HasType.bind_eq` — a typed expression has nothing left to bind.
* `Expr.Faithful.check` — **a check records only what the rules give, and answers its type.**
* `Expr.Checked.hasType` — a checked expression has its type.
-/

namespace FieldPath

/-! ### Fields that are found -/

namespace Universe

/-- A field of a class that is found is one that the class has, and belongs to the class. -/
theorem findStatic_eq_ok {u : Universe} {r : StaticRef} {found : ResolvedField}
    (h : u.findStatic r = .ok found) :
    ∃ o, (u.typeOf (.named r.owner)).object? = some o ∧ u.fieldOf o r.field = some found.field ∧
      found.field.isStatic = true ∧ found.ty = u.typeOf found.field.valueClass := by
  unfold findStatic at h
  split at h
  · simp at h
  · next o ho =>
    split at h
    · simp at h
    · next f hf =>
      split at h
      · next hstatic =>
        rw [← Except.ok.inj h]
        exact ⟨o, ho, hf, hstatic, rfl⟩
      · simp at h

/-- A field of a value that is found is one that its class has, and belongs to the instances. -/
theorem findMember_eq_ok {u : Universe} {t : Ty} {field : String} {span : Span}
    {found : ResolvedField} (h : u.findMember t field span = .ok found) :
    ∃ o, t.deref = .object o ∧ u.fieldOf o field = some found.field ∧
      found.field.isStatic = false ∧ found.ty = u.typeOf found.field.valueClass := by
  unfold findMember at h
  split at h
  · simp at h
  · split at h
    · simp at h
    · next o ho =>
      have hd : t.deref = .object o := by
        unfold Ty.object? at ho
        split at ho
        · next hd => rw [hd, Option.some.inj ho]
        · simp at ho
      split at h
      · simp at h
      · next f hf =>
        split at h
        · simp at h
        · next hinst =>
          rw [← Except.ok.inj h]
          exact ⟨o, hd, hf, by simpa using hinst, rfl⟩

end Universe

/-- The same field is found for a type and for any other name of it. -/
theorem Universe.findMember_congr (u : Universe) {t t' : Ty} (h : t.deref = t'.deref)
    (field : String) (span : Span) : u.findMember t field span = u.findMember t' field span := by
  unfold findMember Ty.isUndefined Ty.object?
  rw [h]

namespace Expr

variable {u : Universe} {bindings : Bindings}

/-! ### The rules -/

/-- The typing rules. -/
inductive HasType (u : Universe) (bindings : Bindings) : Expr → Ty → Prop where
  /-- A binding has its declared type. -/
  | binding {name : String} {span : Span} {b : Binding} :
      bindings.lookup name = some b →
      HasType u bindings (.binding name span b.ty (some b.slot)) b.ty
  /-- A field of a class has the type of its values. -/
  | static {r : StaticRef} {found : ResolvedField} :
      u.findStatic r = .ok found → r.resolved = some found →
      HasType u bindings (.static r) found.ty
  /-- So does one that a whole path named. -/
  | qualified {target : StaticRef} {field : String} {span : Span} {found : ResolvedField} :
      u.findStatic target = .ok found → target.resolved = some found →
      HasType u bindings (.qualified target field span (some found)) found.ty
  /-- A field of a value has the type of its values, if the type of its owner has the field. -/
  | member {owner : Expr} {t : Ty} {field : String} {span : Span} {found : ResolvedField} :
      HasType u bindings owner t → u.findMember t field span = .ok found →
      HasType u bindings (.member owner field span (some found)) found.ty

/-- What is recorded in an expression was found by the rules. -/
inductive Faithful (u : Universe) (bindings : Bindings) : Expr → Prop where
  /-- A name that is not looked up. -/
  | binding {name : String} {span : Span} {ty : Ty} :
      Faithful u bindings (.binding name span ty none)
  /-- A field of a class that is not looked up. -/
  | static {r : StaticRef} : r.resolved = none → Faithful u bindings (.static r)
  /-- A path without a meaning. -/
  | path {segments : List String} {field : String} {span : Span} :
      Faithful u bindings (.path segments field span)
  /-- A field that is not looked up, of whatever is recorded in its owner. -/
  | member {owner : Expr} {field : String} {span : Span} :
      Faithful u bindings owner → Faithful u bindings (.member owner field span none)
  /-- A path that names a field of a class, which may have been looked up. -/
  | qualified {target : StaticRef} {field : String} {span : Span} :
      Faithful u bindings (.static target) → Faithful u bindings (.qualified target field span none)
  /-- An expression of some type. -/
  | typed {e : Expr} {t : Ty} : HasType u bindings e t → Faithful u bindings e

/-- The expressions that building, binding and checking make, in any order.  A check may fail; the
expression keeps what was recorded before the failure. -/
inductive Made (u : Universe) (bindings : Bindings) : Expr → Prop where
  /-- A name. -/
  | ofName (name : String) (span : Span) : Made u bindings (ofName name span)
  /-- A field of a class. -/
  | ofClass (owner : ClassName) (field : String) (span : Span) :
      Made u bindings (ofClass owner field span)
  /-- A path. -/
  | path (segments : List String) (field : String) (span : Span) :
      Made u bindings (.path segments field span)
  /-- A field of an expression. -/
  | ofOwner {owner : Expr} (field : String) (span : Span) :
      Made u bindings owner → Made u bindings (ofOwner owner field span)
  /-- The bindings are looked up. -/
  | bind {e e' : Expr} : Made u bindings e → e.bind bindings = .ok e' → Made u bindings e'
  /-- The fields are looked up, as far as they are found. -/
  | check {e : Expr} (required : Ty) :
      Made u bindings e → Made u bindings (e.check u bindings required).1

/-- The expression is the outcome of a bind and a successful check, which answered the type. -/
def Checked (u : Universe) (bindings : Bindings) (e : Expr) (ty : Ty) : Prop :=
  ∃ made bound required, Made u bindings made ∧ made.bind bindings = .ok bound ∧
    bound.check u bindings required = (e, .ok ty)

/-! ### Typed expressions -/

theorem HasType.faithful {e : Expr} {t : Ty} (h : HasType u bindings e t) :
    Faithful u bindings e := .typed h

/-- A field of a class that is recorded as found is typed. -/
theorem Faithful.hasType_static {r : StaticRef} {found : ResolvedField}
    (h : Faithful u bindings (.static r)) (hr : r.resolved = some found) :
    u.findStatic r = .ok found := by
  cases h with
  | static hnone => rw [hnone] at hr; simp at hr
  | typed ht =>
    cases ht with
    | static hfind hres =>
      rw [hres] at hr
      rw [hfind, Option.some.inj hr]

/-- A typed expression has nothing left to bind. -/
theorem HasType.bind_eq {e : Expr} {t : Ty} (h : HasType u bindings e t) :
    e.bind bindings = .ok e := by
  induction h with
  | binding hb => simp only [Expr.bind, hb, ofBinding]
  | static _ _ => rfl
  | qualified _ _ => rfl
  | member _ _ ih => simp only [Expr.bind, ih, Except.map]

theorem HasType.spellOut_eq {e : Expr} {t : Ty} (h : HasType u bindings e t) :
    e.spellOut u = .ok e := by
  cases h <;> rfl

/-! ### What the passes record -/

/-- A requirement is met or not, but the type is not changed by it. -/
theorem require_eq_ok {found : ResolvedField} {text : String} {span : Span} {required ty : Ty}
    (h : found.require text span required = .ok ty) : ty = found.ty.deref := by
  obtain ⟨_, _, rfl⟩ := eq_ok_of_map h
  rfl

theorem Faithful.chain {span : Span} {path : List String} : ∀ (rest : List String) {root : Expr}
    {index : Nat}, Faithful u bindings root →
      Faithful u bindings (chain span path root index rest) := by
  intro rest
  induction rest with
  | nil => intro root index h; exact h
  | cons segment rest ih => intro root index h; exact ih h.member

theorem hasType_ofBinding {b : Binding} {name : String} (hb : bindings.lookup name = some b)
    (span : Span) : HasType u bindings (ofBinding b name span) b.ty :=
  HasType.binding hb

/-- Binding records only what the rules give. -/
theorem Faithful.bind {e : Expr} (h : Faithful u bindings e) :
    ∀ {e'}, e.bind bindings = .ok e' → Faithful u bindings e' := by
  induction h with
  | @binding name span ty =>
    intro e' h
    simp only [Expr.bind] at h
    split at h
    · next b hb =>
      rw [← Except.ok.inj h]
      exact (hasType_ofBinding hb span).faithful
    · simp at h
  | @static r hr =>
    intro e' h
    rw [← Except.ok.inj h]
    exact .static hr
  | @path segments field span =>
    intro e' h
    cases segments with
    | nil =>
      rw [← Except.ok.inj h]
      exact .path
    | cons root rest =>
      simp only [Expr.bind] at h
      split at h
      · next b hb =>
        rw [← Except.ok.inj h]
        exact ((hasType_ofBinding hb _).faithful.chain rest).member
      · rw [← Except.ok.inj h]
        exact .path
  | @member owner field span _ ih =>
    intro e' h
    obtain ⟨owner', hown, rfl⟩ := eq_ok_of_map h
    exact (ih hown).member
  | @qualified target field span ht _ =>
    intro e' h
    rw [← Except.ok.inj h]
    exact ht.qualified
  | typed ht =>
    intro e' h
    rw [ht.bind_eq] at h
    rw [← Except.ok.inj h]
    exact ht.faithful

theorem faithful_of_ofClassPath {segments : List String} {field : String} {span : Span} {e : Expr}
    (h : ofClassPath u segments field span = .ok e) : Faithful u bindings e := by
  unfold ofClassPath at h
  split at h
  · simp at h
  · split at h
    · simp at h
    · split at h
      · rw [← Except.ok.inj h]
        exact (Faithful.static rfl).qualified
      · next first rest _ =>
        rw [← Except.ok.inj h]
        exact ((Faithful.static rfl).chain rest).member

theorem Faithful.spellOut {e : Expr} (h : Faithful u bindings e) :
    ∀ {e'}, e.spellOut u = .ok e' → Faithful u bindings e' := by
  induction h with
  | binding =>
    intro e' h
    rw [← Except.ok.inj h]
    exact .binding
  | static hr =>
    intro e' h
    rw [← Except.ok.inj h]
    exact .static hr
  | path => intro e' h; exact faithful_of_ofClassPath h
  | @member owner field span _ ih =>
    intro e' h
    obtain ⟨owner', hown, rfl⟩ := eq_ok_of_map h
    exact (ih hown).member
  | qualified ht _ =>
    intro e' h
    rw [← Except.ok.inj h]
    exact ht.qualified
  | typed ht =>
    intro e' h
    rw [ht.spellOut_eq] at h
    rw [← Except.ok.inj h]
    exact ht.faithful

/-- What a look-up leaves behind: an expression that is faithful, and typed if a type was
answered. -/
def Sound (u : Universe) (bindings : Bindings) (out : Expr × Except ResolutionError Ty) : Prop :=
  Faithful u bindings out.1 ∧
    ∀ ty, out.2 = .ok ty → ∃ t, HasType u bindings out.1 t ∧ ty.deref = t.deref

theorem sound_error {e : Expr} {err : ResolutionError} (h : Faithful u bindings e) :
    Sound u bindings (e, .error err) := ⟨h, by simp⟩

theorem sound_binding {b : Binding} {name : String} (hb : bindings.lookup name = some b)
    (span : Span) (required : Ty) :
    Sound u bindings
      (ofBinding b name span, (requireType name span b.ty required).map fun _ => b.ty) := by
  have ht : HasType u bindings (ofBinding b name span) b.ty := hasType_ofBinding hb span
  refine ⟨ht.faithful, fun ty hty => ⟨b.ty, ht, ?_⟩⟩
  obtain ⟨_, _, rfl⟩ := eq_ok_of_map hty
  rfl

theorem HasType.sound_require {e : Expr} {found : ResolvedField} {text : String} {span : Span}
    {required : Ty} (h : HasType u bindings e found.ty) :
    Sound u bindings (e, found.require text span required) := by
  refine ⟨h.faithful, fun ty hty => ⟨found.ty, h, ?_⟩⟩
  rw [require_eq_ok hty, Ty.deref_deref]

/-- Looking a field of a class up records the field that is found, and keeps the name. -/
theorem inferStatic_cases (u : Universe) (r : StaticRef) (required : Ty)
    (h : ∀ found, r.resolved = some found → u.findStatic r = .ok found) :
    (∃ err, inferStatic u r required = (r, .error err) ∧ r.resolved = none) ∨
      ∃ r' found, inferStatic u r required = (r', found.require r.text r.span required) ∧
        u.findStatic r' = .ok found ∧ r'.resolved = some found := by
  unfold inferStatic
  split
  · next found hfound => exact Or.inr ⟨r, found, rfl, h found hfound, hfound⟩
  · next hnone =>
    split
    · next err _ => exact Or.inl ⟨err, rfl, hnone⟩
    · next found hfind => exact Or.inr ⟨_, found, rfl, hfind, rfl⟩

/-- Looking the fields of a faithful expression up records only what the rules give. -/
theorem Faithful.infer {e : Expr} (h : Faithful u bindings e) :
    ∀ required, Sound u bindings (e.infer u bindings required) := by
  induction h with
  | @binding name span ty =>
    intro required
    simp only [Expr.infer, inferBinding]
    split
    · next b hb => exact sound_binding hb span required
    · exact sound_error .binding
  | @static r hr =>
    intro required
    simp only [Expr.infer]
    rcases inferStatic_cases u r required (by simp [hr]) with
      ⟨err, hinf, -⟩ | ⟨r', found, hinf, hfind, hres⟩
    · rw [hinf]
      exact sound_error (.static hr)
    · rw [hinf]
      exact (HasType.static hfind hres).sound_require
  | path => intro required; exact sound_error .path
  | @member owner field span _ ih =>
    intro required
    obtain ⟨hfaithful, htyped⟩ := ih .undefined
    simp only [Expr.infer]
    split
    · next owner' err hinf =>
      rw [hinf] at hfaithful
      exact sound_error hfaithful.member
    · next owner' t hinf =>
      rw [hinf] at hfaithful htyped
      -- the answered type may lack the aliases of the owner's type, which no look-up sees
      obtain ⟨t', ht', heq⟩ := htyped t rfl
      split
      · exact sound_error hfaithful.member
      · next found hfind =>
        rw [u.findMember_congr heq] at hfind
        exact (HasType.member ht' hfind).sound_require
  | @qualified target field span ht _ =>
    intro required
    simp only [Expr.infer]
    rcases inferStatic_cases u target required (fun found => ht.hasType_static) with
      ⟨err, hinf, hnone⟩ | ⟨r', found, hinf, hfind, hres⟩
    · rw [hinf]
      exact sound_error (Faithful.static hnone).qualified
    · rw [hinf]
      cases hreq : found.require target.text target.span required with
      | error err =>
        -- the requirement is not met: the field stays recorded in the target alone
        exact sound_error (HasType.static hfind hres).faithful.qualified
      | ok ty =>
        simp only
        rw [hres]
        refine ⟨(HasType.qualified hfind hres).faithful, fun ty' hty' => ⟨found.ty, ?_, ?_⟩⟩
        · exact HasType.qualified hfind hres
        · obtain rfl := Except.ok.inj hty'
          rw [require_eq_ok hreq, Ty.deref_deref]
  | typed ht =>
    intro required
    cases ht with
    | @binding name span b hb => exact sound_binding hb span required
    | @static r found hfind hres =>
      simp only [Expr.infer, inferStatic, hres]
      exact (HasType.static hfind hres).sound_require
    | qualified hfind hres => exact (HasType.qualified hfind hres).sound_require
    | member howner hfind => exact (HasType.member howner hfind).sound_require

/-- **A check records only what the rules give, and answers its type.** -/
theorem Faithful.check {e : Expr} (h : Faithful u bindings e) (required : Ty) :
    Sound u bindings (e.check u bindings required) := by
  unfold Expr.check
  split
  · exact sound_error h
  · next e' he' => exact (h.spellOut he').infer required

/-- Every expression that is made is faithful. -/
theorem Made.faithful {e : Expr} (h : Made u bindings e) : Faithful u bindings e := by
  induction h with
  | ofName name span => exact .binding
  | ofClass owner field span => exact .static rfl
  | path segments field span => exact .path
  | ofOwner field span _ ih => exact ih.member
  | bind _ hbind ih => exact ih.bind hbind
  | check required _ ih => exact (ih.check required).1

/-- **A checked expression has its type.**  The answer may leave out aliases. -/
theorem Checked.hasType {e : Expr} {ty : Ty} (h : Checked u bindings e ty) :
    ∃ t, HasType u bindings e t ∧ ty.deref = t.deref := by
  obtain ⟨made, bound, required, hmade, hbind, hcheck⟩ := h
  have hsound := (hmade.faithful.bind hbind).check required
  rw [hcheck] at hsound
  exact hsound.2 ty rfl

end Expr

end FieldPath
