import FieldPath.Path.Grammar
import FieldPath.Proofs.Path.Walk

/-!
# Histories of expressions

A check records in the expression what it finds, also when it fails later on, and the next check
uses what was recorded.  None of that can be told from the answers.  What is recorded was found by
rules that depend only on the names in the expression, so an expression answers as it would without
anything recorded, and two expressions that are fully recorded over the same names are the same.

## Main definitions

* `Pass`, `Expr.after` — bind and check calls, and what a sequence of them leaves.
* `Expr.bare` — the expression without what is recorded in it.
* `Expr.Filled` — the expression with more recorded in it.
* `Expr.Aligned` — a path that names a field of a class as a whole has the position of that field.
* `Expr.Retraces` — the expression is a later state of another one.

## Main results

* `Expr.filled_infer` — a look-up only fills in.
* `Expr.after_induction` — what every call keeps, a sequence of calls keeps.
* `Expr.Faithful.infer_bare` — **what is recorded changes no answer.**
* `Expr.HasType.eq_of_bare` — a typed expression is determined by its names.
* `Expr.Retraces.after` — bind and check calls only lead to later states of the expression.
* `check_after` — **the answer of a check does not depend on the calls before it, and the first
  successful one settles the expression.**
-/

namespace FieldPath

/-! ### Sequences of calls -/

/-- A call on an expression. -/
inductive Pass where
  /-- The bindings are looked up. -/
  | bind
  /-- The fields are looked up, and the type has to meet a requirement. -/
  | check (required : Ty)
  deriving DecidableEq, Repr

/-- The expression after a call.  A bind that fails changes nothing; a check that fails keeps what
was recorded before the failure. -/
def Pass.run (u : Universe) (bindings : Bindings) (e : Expr) : Pass → Expr
  | .bind =>
      match e.bind bindings with
      | .ok e' => e'
      | .error _ => e
  | .check required => (e.check u bindings required).1

/-- A reference without what is recorded in it. -/
def StaticRef.bare (r : StaticRef) : StaticRef := { r with resolved := none }

@[simp] theorem StaticRef.text_bare (r : StaticRef) : r.bare.text = r.text := rfl

theorem StaticRef.eq_of_bare {r r' : StaticRef} (h : r.bare = r'.bare)
    (hres : r.resolved = r'.resolved) : r = r' := by
  cases r
  cases r'
  simp_all [bare]

/-- The look-up of a field of a class does not use what is recorded. -/
@[simp] theorem Universe.findStatic_bare (u : Universe) (r : StaticRef) :
    u.findStatic r.bare = u.findStatic r := rfl

namespace Expr

/-- The expression after a sequence of calls. -/
def after (u : Universe) (bindings : Bindings) (e : Expr) (passes : List Pass) : Expr :=
  passes.foldl (Pass.run u bindings) e

/-- The expression without what is recorded in it. -/
def bare : Expr → Expr
  | .binding name span _ _ => ofName name span
  | .static r => .static r.bare
  | .path segments field span => .path segments field span
  | .member owner field span _ => ofOwner owner.bare field span
  | .qualified target field span _ => .qualified target.bare field span none

/-- Where a path names a field of a class as a whole, the two have one position. -/
def Aligned : Expr → Prop
  | .member owner _ _ _ => owner.Aligned
  | .qualified target _ span _ => target.span = span
  | _ => True

variable {u : Universe} {bindings : Bindings}

@[simp] theorem text_bare (e : Expr) : e.bare.text = e.text := by
  induction e with
  | member owner field span recorded ih => simp only [bare, text_ofOwner, ih, text]
  | _ => rfl

/-! ### What a look-up fills in -/

/-- The second expression is the first one with more recorded in it.  Nothing that was recorded is
replaced, and names and positions stay. -/
inductive Filled (bindings : Bindings) : Expr → Expr → Prop where
  /-- Nothing more is recorded. -/
  | refl {e : Expr} : Filled bindings e e
  /-- A name that is looked up. -/
  | binding {name : String} {span : Span} {ty : Ty} {b : Binding} :
      bindings.lookup name = some b →
      Filled bindings (.binding name span ty none) (ofBinding b name span)
  /-- A field of a class. -/
  | static {r r' : StaticRef} : r.resolved = none → r'.bare = r.bare →
      Filled bindings (.static r) (.static r')
  /-- A field of a value, in whose owner more may be recorded. -/
  | member {owner owner' : Expr} {field : String} {span : Span} {recorded : Option ResolvedField} :
      Filled bindings owner owner' →
      Filled bindings (.member owner field span none) (.member owner' field span recorded)
  /-- A path that names a field of a class as a whole. -/
  | qualified {target target' : StaticRef} {field : String} {span : Span}
      {recorded : Option ResolvedField} :
      Filled bindings (.static target) (.static target') →
      Filled bindings (.qualified target field span none) (.qualified target' field span recorded)

theorem filled_inferStatic (u : Universe) (bindings : Bindings) (r : StaticRef) (required : Ty) :
    Filled bindings (.static r) (.static (inferStatic u r required).1) := by
  unfold inferStatic
  split
  · exact .refl
  · next hnone =>
    split
    · exact .refl
    · exact .static hnone rfl

/-- **A look-up only fills in.** -/
theorem filled_infer (e : Expr) :
    ∀ required, Filled bindings e (e.infer u bindings required).1 := by
  induction e with
  | binding name span ty slot =>
    intro required
    cases slot with
    | some slot => exact .refl
    | none =>
      cases hb : bindings.lookup name with
      | some b =>
        simp only [infer, inferBinding, hb]
        exact .binding hb
      | none =>
        simp only [infer, inferBinding, hb]
        exact .refl
  | static r => intro required; exact filled_inferStatic u bindings r required
  | path segments field span => intro required; exact .refl
  | member owner field span recorded ih =>
    intro required
    cases recorded with
    | some found => exact .refl
    | none =>
      have hown := ih .undefined
      simp only [infer]
      split
      · next owner' err hinf =>
        rw [hinf] at hown
        exact hown.member
      · next owner' t hinf =>
        rw [hinf] at hown
        split <;> exact hown.member
  | qualified target field span recorded =>
    intro required
    cases recorded with
    | some found => exact .refl
    | none =>
      have htarget := filled_inferStatic u bindings target required
      simp only [infer]
      split <;> (next hinf => rw [hinf] at htarget; exact htarget.qualified)

theorem Filled.bare_eq {e e' : Expr} (h : Filled bindings e e') : e'.bare = e.bare := by
  induction h with
  | refl => rfl
  | binding _ => rfl
  | static _ hbare => rw [bare, bare, hbare]
  | member _ ih => rw [bare, bare, ih]
  | qualified _ ih => rw [bare, bare, Expr.static.inj ih]

theorem Filled.text_eq {e e' : Expr} (h : Filled bindings e e') : e'.text = e.text := by
  rw [← text_bare, h.bare_eq, text_bare]

theorem Filled.aligned {e e' : Expr} (h : Filled bindings e e') (ha : e.Aligned) : e'.Aligned := by
  induction h with
  | refl => exact ha
  | binding _ => trivial
  | static _ _ => trivial
  | member _ ih => exact ih ha
  | qualified htarget _ =>
    have hspan := congrArg StaticRef.span (Expr.static.inj htarget.bare_eq)
    exact hspan.trans ha

/-- What is filled in has as little to spell out as before. -/
theorem Filled.spellOut_eq {e e' : Expr} (h : Filled bindings e e') (he : e.spellOut u = .ok e) :
    e'.spellOut u = .ok e' := by
  induction h with
  | refl => exact he
  | binding _ => rfl
  | static _ _ => rfl
  | @member owner owner' field span recorded _ ih =>
    obtain ⟨owner₀, hown, heq⟩ := eq_ok_of_map he
    obtain rfl : owner₀ = owner := by simpa using heq
    cases recorded with
    | some found => rfl
    | none =>
      rw [spellOut, ih hown]
      rfl
  | qualified _ _ => rfl

/-- What is filled in has as little to bind as before. -/
theorem Filled.bind_eq {e e' : Expr} (h : Filled bindings e e') (he : e.bind bindings = .ok e) :
    e'.bind bindings = .ok e' := by
  induction h with
  | refl => exact he
  | binding hb =>
    rw [ofBinding, Expr.bind, hb]
    rfl
  | static _ _ => rfl
  | @member owner owner' field span recorded _ ih =>
    obtain ⟨owner₀, hown, heq⟩ := eq_ok_of_map he
    obtain rfl : owner₀ = owner := by simpa using heq
    rw [Expr.bind, ih hown]
    rfl
  | qualified _ _ => rfl

/-- A look-up keeps the text. -/
theorem text_infer (e : Expr) (required : Ty) : (e.infer u bindings required).1.text = e.text :=
  (filled_infer e required).text_eq

/-! ### Answers depend on names only -/

theorem HasType.ty_eq {e : Expr} {t : Ty} (h : HasType u bindings e t) : e.ty = t := by
  cases h with
  | binding _ => rfl
  | static _ hres => simp only [Expr.ty, StaticRef.ty, hres]
  | qualified _ _ => rfl
  | member _ _ => rfl

/-- **A typed expression is determined by its names.** -/
theorem HasType.eq_of_bare {e : Expr} {t : Ty} (h : HasType u bindings e t) :
    ∀ {e' t'}, HasType u bindings e' t' → e.bare = e'.bare → e = e' := by
  induction h with
  | @binding name span b hb =>
    intro e' t' h' heq
    cases h' <;> simp only [bare, ofName, ofOwner, Expr.binding.injEq, reduceCtorEq] at heq
    next hb' =>
      obtain ⟨rfl, rfl, -⟩ := heq
      rw [hb] at hb'
      rw [Option.some.inj hb']
  | @static r found hfind hres =>
    intro e' t' h' heq
    cases h' <;> simp only [bare, ofName, ofOwner, Expr.static.injEq, reduceCtorEq] at heq
    next r' found' hfind' hres' =>
      rw [← u.findStatic_bare, heq, u.findStatic_bare, hfind'] at hfind
      obtain rfl := Except.ok.inj hfind
      rw [StaticRef.eq_of_bare heq (hres.trans hres'.symm)]
  | @qualified target field span found hfind hres =>
    intro e' t' h' heq
    cases h' <;> simp only [bare, ofName, ofOwner, Expr.qualified.injEq, reduceCtorEq] at heq
    next target' field' span' found' hfind' hres' =>
      obtain ⟨hbare, rfl, rfl, -⟩ := heq
      rw [← u.findStatic_bare, hbare, u.findStatic_bare, hfind'] at hfind
      obtain rfl := Except.ok.inj hfind
      rw [StaticRef.eq_of_bare hbare (hres.trans hres'.symm)]
  | @member owner t field span found howner hfind ih =>
    intro e' t' h' heq
    cases h' <;> simp only [bare, ofName, ofOwner, Expr.member.injEq, reduceCtorEq] at heq
    next owner' t' field' span' found' howner' hfind' =>
      obtain ⟨hbare, rfl, rfl, -⟩ := heq
      obtain rfl := ih howner' hbare
      obtain rfl : t = t' := howner.ty_eq.symm.trans howner'.ty_eq
      rw [hfind] at hfind'
      rw [Except.ok.inj hfind']

/-- A path that names a field of a class as a whole answers as that field. -/
theorem infer_qualified_snd (target : StaticRef) (field : String) (span : Span) (required : Ty) :
    ((Expr.qualified target field span none).infer u bindings required).2 =
      (inferStatic u target required).2 := by
  simp only [infer]
  split <;> (next hinf => rw [hinf])

/-- A typed expression answers its type where nothing is required. -/
theorem HasType.infer_undefined {e : Expr} {t : Ty} (h : HasType u bindings e t) :
    ∃ ty, (e.infer u bindings .undefined).2 = .ok ty ∧ ty.deref = t.deref := by
  cases h with
  | binding hb => exact ⟨_, rfl, rfl⟩
  | @static r found hfind hres =>
    refine ⟨found.ty.deref, ?_, Ty.deref_deref _⟩
    simp only [infer, inferStatic, hres]
    rfl
  | qualified _ _ => exact ⟨_, rfl, Ty.deref_deref _⟩
  | member _ _ => exact ⟨_, rfl, Ty.deref_deref _⟩

/-- A typed expression answers as if nothing was recorded in it. -/
theorem HasType.infer_bare {e : Expr} {t : Ty} (h : HasType u bindings e t) (ha : e.Aligned) :
    ∀ required, (e.bare.infer u bindings required).2 = (e.infer u bindings required).2 := by
  induction h with
  | @binding name span b hb =>
    intro required
    simp only [bare, ofName, infer, inferBinding, hb]
  | @static r found hfind hres =>
    intro required
    have hnone : r.bare.resolved = none := rfl
    simp only [bare, infer, inferStatic, hnone, hres, u.findStatic_bare, hfind]
    rfl
  | @qualified target field span found hfind hres =>
    intro required
    have hnone : target.bare.resolved = none := rfl
    have hspan : target.span = span := ha
    rw [bare, infer_qualified_snd, inferStatic, hnone]
    simp only [u.findStatic_bare, hfind, infer, ← hspan]
    rfl
  | @member owner t field span found howner hfind ih =>
    intro required
    obtain ⟨ty, hty, hderef⟩ := howner.infer_undefined
    have hbare := ih ha .undefined
    rw [hty] at hbare
    have htext : (owner.bare.infer u bindings .undefined).1.text = owner.bare.text :=
      text_infer _ _
    rcases hinf : owner.bare.infer u bindings .undefined with ⟨owner', outcome⟩
    rw [hinf] at hbare htext
    obtain rfl : outcome = .ok ty := hbare
    rw [u.findMember_congr hderef.symm] at hfind
    simp only [bare, ofOwner, infer, hinf, hfind, htext, text_bare]

/-- **What is recorded changes no answer.** -/
theorem Faithful.infer_bare {e : Expr} (h : Faithful u bindings e) (ha : e.Aligned) :
    ∀ required, (e.bare.infer u bindings required).2 = (e.infer u bindings required).2 := by
  induction h with
  | @binding name span ty =>
    intro required
    simp only [bare, ofName, Expr.infer, inferBinding]
    cases bindings.lookup name <;> rfl
  | @static r hr =>
    intro required
    have hbare : r.bare = r := StaticRef.eq_of_bare rfl hr.symm
    rw [bare, hbare]
  | path => intro required; rfl
  | @member owner field span howner ih =>
    intro required
    have hanswer := ih ha .undefined
    have hnames : (owner.bare.infer u bindings .undefined).1.text =
        (owner.infer u bindings .undefined).1.text := by
      rw [text_infer, text_infer, text_bare]
    simp only [bare, ofOwner, Expr.infer]
    rcases hbare : owner.bare.infer u bindings .undefined with ⟨owner₀, outcome⟩
    rcases hinf : owner.infer u bindings .undefined with ⟨owner', outcome'⟩
    rw [hbare, hinf] at hanswer hnames
    obtain rfl : outcome = outcome' := hanswer
    cases outcome with
    | error err => rfl
    | ok t => cases hfind : u.findMember t field span <;> simp only [hfind, hnames]
  | @qualified target field span htarget _ =>
    intro required
    rw [bare, infer_qualified_snd, infer_qualified_snd]
    cases hres : target.resolved with
    | none =>
      have hbare : target.bare = target := StaticRef.eq_of_bare rfl hres.symm
      rw [hbare]
    | some found =>
      have hnone : target.bare.resolved = none := rfl
      simp only [inferStatic, hnone, u.findStatic_bare, htarget.hasType_static hres, hres]
      rfl
  | typed ht => exact ht.infer_bare ha

/-! ### Binding and spelling out -/

/-- A path that names a class is a field of the class as a whole, or a chain over one. -/
theorem ofClassPath_cases {segments : List String} {field : String} {span : Span} {e : Expr}
    (h : ofClassPath u segments field span = .ok e) :
    (∃ name, e = .qualified ⟨name, field, span, none⟩ field span none) ∨
      ∃ name first here count rest,
        e = ofOwner (chain span segments (ofClass name first here) count rest) field span := by
  unfold ofClassPath at h
  split at h
  · simp at h
  · split at h
    · simp at h
    · split at h
      · exact Or.inl ⟨_, (Except.ok.inj h).symm⟩
      · exact Or.inr ⟨_, _, _, _, _, (Except.ok.inj h).symm⟩

theorem aligned_chain {span : Span} {path : List String} {rest : List String} : ∀ {root : Expr}
    {count : Nat}, root.Aligned → (chain span path root count rest).Aligned := by
  induction rest with
  | nil => exact fun h => h
  | cons segment rest ih => exact fun h => ih h

theorem bind_chain {span : Span} {path : List String} {rest : List String} : ∀ {root : Expr}
    {count : Nat}, root.bind bindings = .ok root →
      (chain span path root count rest).bind bindings = .ok (chain span path root count rest) := by
  induction rest with
  | nil => exact fun h => h
  | cons segment rest ih =>
    intro root count h
    rw [chain_cons]
    refine ih ?_
    rw [ofOwner, Expr.bind, h]
    rfl

/-- What a path of a class stands for is spelled out, bound and aligned. -/
theorem of_ofClassPath (bindings : Bindings) {segments : List String} {field : String}
    {span : Span} {e : Expr} (h : ofClassPath u segments field span = .ok e) :
    e.spellOut u = .ok e ∧ e.bind bindings = .ok e ∧ e.Aligned := by
  rcases ofClassPath_cases h with ⟨name, rfl⟩ | ⟨name, first, here, count, rest, rfl⟩
  · exact ⟨rfl, rfl, rfl⟩
  · have hspell : (ofClass name first here).spellOut u = .ok (ofClass name first here) := rfl
    have hbind : (ofClass name first here).bind bindings = .ok (ofClass name first here) := rfl
    have haligned : (ofClass name first here).Aligned := trivial
    refine ⟨?_, ?_, aligned_chain haligned⟩
    · rw [ofOwner, spellOut, spellOut_chain hspell]
      rfl
    · rw [ofOwner, Expr.bind, bind_chain hbind]
      rfl

/-- What is spelled out has nothing left to spell out, and is bound and aligned if it was so
before. -/
theorem of_spellOut (bindings : Bindings) {e : Expr} : ∀ {e'}, e.spellOut u = .ok e' →
    e'.spellOut u = .ok e' ∧ (e.bind bindings = .ok e → e'.bind bindings = .ok e') ∧
      (e.Aligned → e'.Aligned) := by
  induction e with
  | path segments field span =>
    intro e' h
    obtain ⟨hspell, hbind, haligned⟩ := of_ofClassPath bindings h
    exact ⟨hspell, fun _ => hbind, fun _ => haligned⟩
  | member owner field span recorded ih =>
    intro e' h
    cases recorded with
    | some found =>
      obtain rfl := Except.ok.inj h
      exact ⟨rfl, id, id⟩
    | none =>
      obtain ⟨owner', hown, rfl⟩ := eq_ok_of_map h
      obtain ⟨hspell, hbind, haligned⟩ := ih hown
      refine ⟨by rw [spellOut, hspell]; rfl, fun hb => ?_, haligned⟩
      obtain ⟨owner₀, hown₀, heq⟩ := eq_ok_of_map hb
      obtain rfl : owner₀ = owner := by simpa using heq
      rw [Expr.bind, hbind hown₀]
      rfl
  | _ =>
    intro e' h
    obtain rfl := Except.ok.inj h
    exact ⟨rfl, id, id⟩

theorem bind_ofBinding {name : String} {b : Binding} (hb : bindings.lookup name = some b)
    (span : Span) : (ofBinding b name span).bind bindings = .ok (ofBinding b name span) := by
  rw [ofBinding, Expr.bind, hb]
  rfl

/-- What is bound has nothing left to bind, and is aligned if it was so before. -/
theorem of_bind {e : Expr} : ∀ {e'}, e.bind bindings = .ok e' →
    e'.bind bindings = .ok e' ∧ (e.Aligned → e'.Aligned) := by
  induction e with
  | binding name span ty slot =>
    intro e' h
    simp only [Expr.bind] at h
    split at h
    · next b hb =>
      obtain rfl := Except.ok.inj h
      exact ⟨bind_ofBinding hb span, fun _ => trivial⟩
    · simp at h
  | path segments field span =>
    intro e' h
    cases segments with
    | nil =>
      obtain rfl := Except.ok.inj h
      exact ⟨rfl, id⟩
    | cons root rest =>
      simp only [Expr.bind] at h
      split at h
      · next b hb =>
        obtain rfl := Except.ok.inj h
        refine ⟨?_, fun _ => aligned_chain trivial⟩
        rw [ofOwner, Expr.bind, bind_chain (bind_ofBinding hb _)]
        rfl
      · next hb =>
        obtain rfl := Except.ok.inj h
        exact ⟨by rw [Expr.bind, hb], id⟩
  | member owner field span recorded ih =>
    intro e' h
    obtain ⟨owner', hown, rfl⟩ := eq_ok_of_map h
    obtain ⟨hbind, haligned⟩ := ih hown
    exact ⟨by rw [Expr.bind, hbind]; rfl, haligned⟩
  | _ =>
    intro e' h
    obtain rfl := Except.ok.inj h
    exact ⟨rfl, id⟩

theorem Aligned.check {e : Expr} (h : e.Aligned) (required : Ty) :
    (e.check u bindings required).1.Aligned := by
  unfold Expr.check
  split
  · exact h
  · next e' he' =>
    exact (filled_infer e' required).aligned ((of_spellOut bindings he').2.2 h)

/-- Every expression that is made is aligned. -/
theorem Made.aligned {e : Expr} (h : Made u bindings e) : e.Aligned := by
  induction h with
  | ofName name span => trivial
  | ofClass owner field span => trivial
  | path segments field span => trivial
  | ofOwner field span _ ih => exact ih
  | bind _ hbind ih => exact (of_bind hbind).2 ih
  | check required _ ih => exact ih.check required

/-- Every text that is a path makes an expression. -/
theorem made_of_parse {text : String} {span : Span} {e : Expr} (h : parse text span = .ok e) :
    Made u bindings e := by
  unfold parse at h
  split at h
  · rw [← Except.ok.inj h]
    unfold ofSegments
    cases (Dotted.split text).dropLast with
    | nil => exact .ofName _ _
    | cons first rest => exact .path _ _ _
  · simp at h

/-! ### Answers -/

/-- **The answer of a check is found from the names that are spelled out.** -/
theorem Faithful.check_snd {e : Expr} (h : Faithful u bindings e) (ha : e.Aligned)
    (required : Ty) :
    (e.check u bindings required).2 =
      ((e.spellOut u).map bare).bind fun e₀ => (e₀.infer u bindings required).2 := by
  unfold Expr.check
  cases he' : e.spellOut u with
  | error err => rfl
  | ok e' =>
    have haligned := (of_spellOut bindings he').2.2 ha
    exact ((h.spellOut he').infer_bare haligned required).symm

/-- A check that succeeds keeps the names that are spelled out. -/
theorem bare_check {e e' : Expr} {required ty : Ty}
    (h : e.check u bindings required = (e', .ok ty)) : (e.spellOut u).map bare = .ok e'.bare := by
  unfold Expr.check at h
  cases hspell : e.spellOut u with
  | error err => rw [hspell] at h; simp at h
  | ok e₁ =>
    rw [hspell] at h
    have hfilled : Filled bindings e₁ (e₁.infer u bindings required).1 := filled_infer e₁ required
    simp only at h
    rw [h] at hfilled
    rw [Except.map, hfilled.bare_eq]

/-- A check of a typed expression changes nothing. -/
theorem HasType.check_fst {e : Expr} {t : Ty} (h : HasType u bindings e t) (required : Ty) :
    (e.check u bindings required).1 = e := by
  rw [Expr.check, h.spellOut_eq]
  cases h with
  | binding _ => rfl
  | static _ hres => simp only [infer, inferStatic, hres]
  | qualified _ _ => rfl
  | member _ _ => rfl

/-- What every bind and every check keeps, a sequence of calls keeps. -/
theorem after_induction {P : Expr → Prop} (hbind : ∀ e e', P e → e.bind bindings = .ok e' → P e')
    (hcheck : ∀ e required, P e → P (e.check u bindings required).1) {e : Expr} (h : P e)
    (passes : List Pass) : P (e.after u bindings passes) := by
  induction passes generalizing e with
  | nil => exact h
  | cons pass passes ih =>
    refine ih ?_
    cases pass with
    | bind =>
      simp only [Pass.run]
      split
      · next e' he' => exact hbind e e' h he'
      · exact h
    | check required => exact hcheck e required h

/-- No call changes a typed expression. -/
theorem HasType.after_eq {e : Expr} {t : Ty} (h : HasType u bindings e t) (passes : List Pass) :
    e.after u bindings passes = e := by
  refine after_induction (P := (· = e)) ?_ ?_ rfl passes
  · rintro _ e' rfl he'
    rw [h.bind_eq] at he'
    exact (Except.ok.inj he').symm
  · rintro _ required rfl
    exact h.check_fst required

/-! ### Histories -/

/-- The second expression is a later state of the first one: it is bound, what is recorded in it
was found by the rules, and the same names are spelled out from it. -/
structure Retraces (u : Universe) (bindings : Bindings) (start e : Expr) : Prop where
  /-- What is recorded was found by the rules. -/
  faithful : Faithful u bindings e
  /-- The positions of its two names for a field are the same. -/
  aligned : e.Aligned
  /-- Nothing is left to bind. -/
  bind_eq : e.bind bindings = .ok e
  /-- The names are those of the start. -/
  names : (e.spellOut u).map bare = (start.spellOut u).map bare

/-- What a first bind leaves is the start of a history. -/
theorem Made.retraces {made start : Expr} (h : Made u bindings made)
    (hbind : made.bind bindings = .ok start) : Retraces u bindings start start where
  faithful := h.faithful.bind hbind
  aligned := (of_bind hbind).2 h.aligned
  bind_eq := (of_bind hbind).1
  names := rfl

/-- One more check leads to a later state. -/
theorem Retraces.check {start e : Expr} (h : Retraces u bindings start e) (required : Ty) :
    Retraces u bindings start (e.check u bindings required).1 := by
  refine ⟨(h.faithful.check required).1, h.aligned.check required, ?_, ?_⟩
  all_goals
    unfold Expr.check
    split
  · exact h.bind_eq
  · next e' he' =>
    have hbind := (of_spellOut bindings he').2.1 h.bind_eq
    exact (filled_infer e' required).bind_eq hbind
  · exact h.names
  · next e' he' =>
    have hspell := (of_spellOut bindings he').1
    have hfilled : Filled bindings e' (e'.infer u bindings required).1 := filled_infer e' required
    rw [hfilled.spellOut_eq hspell, ← h.names, he', Except.map, Except.map, hfilled.bare_eq]

/-- **Bind and check calls only lead to later states.** -/
theorem Retraces.after {start e : Expr} (h : Retraces u bindings start e) (passes : List Pass) :
    Retraces u bindings start (e.after u bindings passes) := by
  refine after_induction (fun e e' h he' => ?_) (fun e required h => h.check required) h passes
  rw [h.bind_eq] at he'
  rwa [← Except.ok.inj he']

/-- Two later states of one expression answer a check alike. -/
theorem Retraces.check_snd {start e e' : Expr} (h : Retraces u bindings start e)
    (h' : Retraces u bindings start e') (required : Ty) :
    (e.check u bindings required).2 = (e'.check u bindings required).2 := by
  rw [h.faithful.check_snd h.aligned, h'.faithful.check_snd h'.aligned, h.names, h'.names]

/-- Two successful checks of later states of one expression leave the same expression. -/
theorem Retraces.check_fst {start e e' final final' : Expr} {required required' ty ty' : Ty}
    (h : Retraces u bindings start e) (h' : Retraces u bindings start e')
    (hcheck : e.check u bindings required = (final, .ok ty))
    (hcheck' : e'.check u bindings required' = (final', .ok ty')) : final' = final := by
  have hsound := h.faithful.check required
  have hsound' := h'.faithful.check required'
  rw [hcheck] at hsound
  rw [hcheck'] at hsound'
  obtain ⟨t, ht, -⟩ := hsound.2 ty rfl
  obtain ⟨t', ht', -⟩ := hsound'.2 ty' rfl
  have hnames : Except.ok (ε := ResolutionError) final'.bare = .ok final.bare := by
    rw [← bare_check hcheck', ← bare_check hcheck, h.names, h'.names]
  exact ht'.eq_of_bare ht (Except.ok.inj hnames)

end Expr

/-- **Checking does not depend on what was tried before.**  Take an expression that a first bind
succeeds on, and any sequence of calls on it after that.  Then a bind succeeds and changes nothing,
and a check answers as it would right after the first bind.  If it succeeds, it leaves the
expression that any other successful check would leave after any other calls, and no later call
changes that. -/
theorem check_after {u : Universe} {bindings : Bindings} {made start : Expr}
    (hmade : Expr.Made u bindings made) (hbind : made.bind bindings = .ok start)
    (passes : List Pass) :
    (start.after u bindings passes).bind bindings = .ok (start.after u bindings passes) ∧
      ∀ required,
        ((start.after u bindings passes).check u bindings required).2 =
          (start.check u bindings required).2 ∧
        ∀ final ty, (start.after u bindings passes).check u bindings required = (final, .ok ty) →
          (∀ later, final.after u bindings later = final) ∧
          ∀ others required' final' ty',
            (start.after u bindings others).check u bindings required' = (final', .ok ty') →
              final' = final := by
  have hstart := hmade.retraces hbind
  have hafter := hstart.after passes
  refine ⟨hafter.bind_eq, fun required => ⟨hafter.check_snd hstart required, ?_⟩⟩
  intro final ty hcheck
  have hsound := hafter.faithful.check required
  rw [hcheck] at hsound
  obtain ⟨t, ht, -⟩ := hsound.2 ty rfl
  exact ⟨ht.after_eq, fun others _ _ _ hother =>
    hafter.check_fst (hstart.after others) hcheck hother⟩

/-- The first node of the class is no number, but it is still found after a check for a number. -/
theorem check_after_linkedList :
    let start : Expr := .path ["list", "Node"] "first" ⟨1, 1, 15⟩
    let e := start.after LinkedList.table.toUniverse LinkedList.bindings
      [.check (.primitive .int), .bind]
    start ≠ e ∧
      ∃ final,
        e.check LinkedList.table.toUniverse LinkedList.bindings .undefined =
          (final, .ok (.object LinkedList.nodeType)) ∧
        (start.check LinkedList.table.toUniverse LinkedList.bindings .undefined).2 =
          .ok (.object LinkedList.nodeType) ∧
        ∀ later, final.after LinkedList.table.toUniverse LinkedList.bindings later = final := by
  intro start e
  have hbind : start.bind LinkedList.bindings = .ok start := by
    simp only [start, Expr.bind, LinkedList.lookup_eq]
    rfl
  obtain ⟨-, hcheck⟩ := check_after (u := LinkedList.table.toUniverse) (.path _ _ _) hbind
    [.check (.primitive .int), .bind]
  obtain ⟨hanswer, hfinal⟩ := hcheck .undefined
  refine ⟨by decide, _, rfl, ?_, (hfinal _ _ rfl).1⟩
  rw [← hanswer]
  rfl

end FieldPath
