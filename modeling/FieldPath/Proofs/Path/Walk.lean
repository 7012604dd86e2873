import FieldPath.Proofs.Path.Soundness
import FieldPath.Proofs.Path.Spelling
import FieldPath.Rule

/-!
# Resolution as a walk

Resolution builds a path up as a chain of fields, twice if no binding claims it, and then looks the
fields up from the innermost node outwards.  What comes out can be said without any chain: start at
the binding, or at the field of the class that the path spells, and take the segments that are left
one after the other.

## Main definitions

* `Walked` — an expression with its type and the number of segments it stands for.
* `Universe.walkStart` — the start: a binding, or else a field of a class.
* `Universe.walkStep` — one more segment.
* `Universe.walk` — the whole walk, with the requirement on its last type.

## Main results

* `Expr.inferred_chain` — looking a chain up is a fold of `walkStep` over its segments.
* `resolve_eq_walk` — **the meaning of a path is what the walk along it finds.**
-/

namespace FieldPath

/-! ### The walk -/

/-- The first `count` segments of a path as a position.  The whole path has the position of its
text, whatever the length of that text is. -/
def runSpan (span : Span) (path : List String) (count : Nat) : Span :=
  if count < path.length then headSpan span path count else span

/-- An expression on the way along a path. -/
structure Walked where
  /-- The expression. -/
  expr : Expr
  /-- The type of its value. -/
  ty : Ty
  /-- How many segments of the path it stands for. -/
  count : Nat
  deriving DecidableEq, Repr

/-- The expression with its type, if the type meets the requirement. -/
def Walked.finish (w : Walked) (span : Span) (required : Ty) : Except ResolutionError (Expr × Ty) :=
  (requireType w.expr.text span w.ty required).map fun _ => (w.expr, w.ty)

namespace Universe

/-- The field of a class at the start of a path.  All segments but the last may name the class, and
the segment after those that spell its name is the field. -/
def walkClass (u : Universe) (span : Span) (path : List String) : Except ResolutionError Walked :=
  let before := path.dropLast
  match (u.matchPath before).bind Ty.object? with
  | none => .error ⟨span, .invalidPath (Dotted.join before) (path.getLastD "")⟩
  | some matched =>
      match spelledSegments before matched.name with
      | none => .error ⟨span, .pathMismatch (Dotted.join before) matched.name⟩
      | some count =>
          let field := path.getD count ""
          let here := runSpan span path (count + 1)
          match (u.typeOf (.named matched.name)).object? with
          | none => .error ⟨here, .unboundOwner field⟩
          | some owner =>
              match u.fieldOf owner field with
              | none => .error ⟨here, .unknownField field owner.name⟩
              | some f =>
                  if f.isStatic then
                    let found : ResolvedField := ⟨f, u.typeOf f.valueClass⟩
                    let ref : StaticRef := ⟨matched.name, field, here, some found⟩
                    let expr : Expr :=
                      if count + 1 = path.length then .qualified ref field here (some found)
                      else .static ref
                    .ok ⟨expr, found.ty.deref, count + 1⟩
                  else .error ⟨here, .notStatic f.name owner.name⟩

/-- The start of a path.  A binding of the first segment comes before every class. -/
def walkStart (u : Universe) (bindings : Bindings) (span : Span) (path : List String) :
    Except ResolutionError Walked :=
  let first := path.headD ""
  match bindings.lookup first with
  | some b => .ok ⟨.ofBinding b first (runSpan span path 1), b.ty, 1⟩
  | none => u.walkClass span path

/-- One more segment, as a field of what was reached. -/
def walkStep (u : Universe) (span : Span) (path : List String) (w : Walked) (segment : String) :
    Except ResolutionError Walked :=
  let here := runSpan span path (w.count + 1)
  match w.ty.deref with
  | .undefined => .error ⟨here, .unboundOwner segment⟩
  | .object owner =>
      match u.fieldOf owner segment with
      | none => .error ⟨here, .unknownField segment owner.name⟩
      | some f =>
          if f.isStatic then .error ⟨here, .staticThroughInstance segment owner.name⟩
          else
            let found : ResolvedField := ⟨f, u.typeOf f.valueClass⟩
            .ok ⟨.member w.expr segment here (some found), found.ty.deref, w.count + 1⟩
  | other => .error ⟨here, .notAnObject segment other.text⟩

/-- The segments of the path that are left, one after the other. -/
def walkOn (u : Universe) (span : Span) (path : List String) (required : Ty) (w : Walked) :
    Except ResolutionError (Expr × Ty) :=
  ((path.drop w.count).foldlM (u.walkStep span path) w).bind (·.finish span required)

/-- The walk along a path, from left to right. -/
def walk (u : Universe) (bindings : Bindings) (span : Span) (path : List String) (required : Ty) :
    Except ResolutionError (Expr × Ty) :=
  (u.walkStart bindings span path).bind (u.walkOn span path required)

end Universe

/-! ### Positions -/

variable {u : Universe} {bindings : Bindings} {span : Span} {path before : List String}
  {last : String}

/-- The last segment does not count for the position of the others. -/
theorem runSpan_append {count : Nat} (h : count ≤ before.length) :
    runSpan span (before ++ [last]) count = headSpan span before count := by
  have hlt : count < (before ++ [last]).length := by
    rw [List.length_append, List.length_singleton]
    omega
  rw [runSpan, if_pos hlt, headSpan, headSpan, List.take_append_of_le_length h]

theorem runSpan_of_ge {count : Nat} (h : path.length ≤ count) : runSpan span path count = span :=
  if_neg (by omega)

/-! ### Steps -/

theorem Walked.finish_undefined (w : Walked) : w.finish span .undefined = .ok (w.expr, w.ty) := rfl

/-- A step is the look-up of a field in the type that was reached. -/
theorem Universe.walkStep_eq (u : Universe) (span : Span) (path : List String) (w : Walked)
    (segment : String) :
    u.walkStep span path w segment =
      (u.findMember w.ty segment (runSpan span path (w.count + 1))).map fun found =>
        ⟨.member w.expr segment (runSpan span path (w.count + 1)) (some found), found.ty.deref,
          w.count + 1⟩ := by
  unfold walkStep findMember Ty.object? Ty.isUndefined
  cases hd : w.ty.deref with
  | object owner =>
    cases hf : u.fieldOf owner segment with
    | none => simp [hf, Except.map]
    | some f => cases hs : f.isStatic <;> simp [hf, hs, Except.map]
  | undefined => rfl
  | void => rfl
  | primitive kind => rfl
  | synonym name target => exact absurd hd (Ty.deref_ne_synonym _ _ _)

theorem Universe.count_walkStep {w w' : Walked} {segment : String}
    (h : u.walkStep span path w segment = .ok w') : w'.count = w.count + 1 := by
  rw [walkStep_eq] at h
  obtain ⟨found, _, rfl⟩ := eq_ok_of_map h
  rfl

theorem Universe.count_foldlM_walkStep {rest : List String} : ∀ {w w' : Walked},
    rest.foldlM (u.walkStep span path) w = .ok w' → w'.count = w.count + rest.length := by
  induction rest with
  | nil =>
    intro w w' h
    rw [← Except.ok.inj h]
    rfl
  | cons segment rest ih =>
    intro w w' h
    rw [List.foldlM_cons] at h
    cases hstep : u.walkStep span path w segment with
    | error e => rw [hstep] at h; exact absurd h nofun
    | ok w₁ =>
      rw [hstep] at h
      rw [ih h, count_walkStep hstep, List.length_cons]
      omega

/-! ### Chains -/

namespace Expr

/-- The expression and its type after a look-up. -/
def inferred (u : Universe) (bindings : Bindings) (e : Expr) (required : Ty) :
    Except ResolutionError (Expr × Ty) :=
  (e.infer u bindings required).2.map fun ty => ((e.infer u bindings required).1, ty)

/-- If an owner is looked up as `start` says, a field of it is looked up by one step more. -/
theorem inferred_ofOwner {owner : Expr} {start : Except ResolutionError Walked} {here : Span}
    (howner : owner.inferred u bindings .undefined = start.bind (·.finish span .undefined))
    (hhere : ∀ w, start = .ok w → runSpan span path (w.count + 1) = here) (segment : String)
    (required : Ty) :
    (ofOwner owner segment here).inferred u bindings required =
      (start.bind (u.walkStep span path · segment)).bind (·.finish here required) := by
  unfold inferred at howner ⊢
  rw [ofOwner, infer]
  rcases hinfer : owner.infer u bindings .undefined with ⟨owner', outcome⟩
  rw [hinfer] at howner
  cases start with
  | error e =>
    obtain rfl : outcome = .error e := by
      cases outcome with
      | error e' => simpa [Except.map, Except.bind] using howner
      | ok ty => simp [Except.map, Except.bind] at howner
    rfl
  | ok w =>
    obtain ⟨rfl, rfl⟩ : owner' = w.expr ∧ outcome = .ok w.ty := by
      cases outcome with
      | error e' => simp [Except.map, Except.bind, Walked.finish_undefined] at howner
      | ok ty => simpa [Except.map, Except.bind, Walked.finish_undefined] using howner
    have hstep := u.walkStep_eq span path w segment
    rw [hhere w rfl] at hstep
    simp only [Except.bind, hstep]
    cases hfound : u.findMember w.ty segment here with
    | error e => rfl
    | ok found =>
      simp only [Except.map, Walked.finish, ResolvedField.require, text]
      cases requireType (w.expr.text ++ "." ++ segment) here found.ty.deref required <;> rfl

/-- Looking a chain up goes through its segments from left to right, as long as the path goes on
behind them. -/
theorem inferred_chain (last : String) {rest : List String} : ∀ {root : Expr}
    {start : Except ResolutionError Walked} {count : Nat},
      root.inferred u bindings .undefined = start.bind (·.finish span .undefined) →
      (∀ w, start = .ok w → w.count = count) → count + rest.length ≤ before.length →
      (chain span before root count rest).inferred u bindings .undefined =
        (start.bind fun w => rest.foldlM (u.walkStep span (before ++ [last])) w).bind
          (·.finish span .undefined) := by
  induction rest with
  | nil =>
    intro root start count hroot _ _
    rw [chain_nil, hroot]
    cases start <;> rfl
  | cons segment rest ih =>
    intro root start count hroot hcount hlen
    rw [List.length_cons] at hlen
    have hhere : ∀ w, start = .ok w →
        runSpan span (before ++ [last]) (w.count + 1) = headSpan span before (count + 1) := by
      intro w hw
      rw [hcount w hw, runSpan_append (by omega)]
    -- the requirement is void, so the position it would be reported at does not matter
    have hnode := inferred_ofOwner hroot hhere segment .undefined
    rw [chain_cons, ih hnode ?_ (by omega)]
    · cases start with
      | error e => rfl
      | ok w => rfl
    · intro w hw
      cases start with
      | error e => simp [Except.bind] at hw
      | ok w₀ => rw [Universe.count_walkStep hw, hcount w₀ rfl]

theorem spellOut_chain {rest : List String} : ∀ {root : Expr} {count : Nat},
    root.spellOut u = .ok root →
      (chain span before root count rest).spellOut u = .ok (chain span before root count rest) := by
  induction rest with
  | nil => exact fun h => h
  | cons segment rest ih =>
    intro root count h
    rw [chain_cons]
    refine ih ?_
    rw [ofOwner, spellOut, h]
    rfl

/-- A path that starts at a root is looked up by the walk on from the root. -/
theorem inferred_path {root : Expr} {start : Except ResolutionError Walked} {count : Nat}
    (hroot : root.inferred u bindings .undefined = start.bind (·.finish span .undefined))
    (hcount : ∀ w, start = .ok w → w.count = count) (hle : count ≤ before.length) (required : Ty) :
    (ofOwner (chain span before root count (before.drop count)) last span).inferred u bindings
        required =
      start.bind (u.walkOn span (before ++ [last]) required) := by
  have hlen : count + (before.drop count).length = before.length := by
    rw [List.length_drop]
    omega
  have hchain := inferred_chain last hroot hcount (Nat.le_of_eq hlen)
  -- the chain stands for all segments but the last, so the last node has the position of the text
  have hhere : ∀ w', (start.bind fun w =>
      (before.drop count).foldlM (u.walkStep span (before ++ [last])) w) = .ok w' →
        runSpan span (before ++ [last]) (w'.count + 1) = span := by
    intro w' hw'
    cases start with
    | error e => simp [Except.bind] at hw'
    | ok w =>
      have hcount' := Universe.count_foldlM_walkStep hw'
      rw [hcount w rfl, hlen] at hcount'
      exact runSpan_of_ge (by simp [hcount'])
  rw [inferred_ofOwner hchain hhere]
  cases start with
  | error e => rfl
  | ok w =>
    simp only [Except.bind, Universe.walkOn, hcount w rfl, List.drop_append_of_le_length hle,
      List.foldlM_append, List.foldlM_cons, List.foldlM_nil, bind_pure]
    rfl

end Expr

/-! ### Starts -/

namespace Universe

theorem walkClass_eq {matched : ObjectType} {count : Nat}
    (hmatch : (u.matchPath path.dropLast).bind Ty.object? = some matched)
    (hspell : spelledSegments path.dropLast matched.name = some count) :
    u.walkClass span path =
      (u.findStatic ⟨matched.name, path.getD count "", runSpan span path (count + 1), none⟩).map
        fun found =>
          let ref : StaticRef :=
            ⟨matched.name, path.getD count "", runSpan span path (count + 1), some found⟩
          ⟨if count + 1 = path.length then
              .qualified ref (path.getD count "") (runSpan span path (count + 1)) (some found)
            else .static ref, found.ty.deref, count + 1⟩ := by
  unfold walkClass findStatic
  simp only [hmatch, hspell]
  cases (u.typeOf (.named matched.name)).object? with
  | none => rfl
  | some owner =>
    cases hf : u.fieldOf owner (path.getD count "") with
    | none => simp only [hf, Except.map]
    | some f => cases hs : f.isStatic <;> simp only [hf, hs, Except.map] <;> rfl

/-- The class takes all segments but the last, which is its field. -/
theorem walkClass_whole {matched : ObjectType}
    (hmatch : (u.matchPath before).bind Ty.object? = some matched)
    (hspell : spelledSegments before matched.name = some before.length) :
    u.walkClass span (before ++ [last]) =
      (u.findStatic ⟨matched.name, last, span, none⟩).map fun found =>
        ⟨.qualified ⟨matched.name, last, span, some found⟩ last span (some found), found.ty.deref,
          before.length + 1⟩ := by
  have hdrop : (before ++ [last]).dropLast = before := List.dropLast_concat
  have hlast : (before ++ [last]).getD before.length "" = last := by simp
  have hend : (before ++ [last]).length = before.length + 1 := by simp
  rw [walkClass_eq (by rw [hdrop, hmatch]) (by rw [hdrop, hspell]), hlast,
    runSpan_of_ge (Nat.le_of_eq hend)]
  simp only [hend, if_true]

/-- The class leaves a segment for its field before the last. -/
theorem walkClass_part (span : Span) (last : String) {matched : ObjectType} {count : Nat}
    {first : String} {rest : List String}
    (hmatch : (u.matchPath before).bind Ty.object? = some matched)
    (hspell : spelledSegments before matched.name = some count)
    (hafter : before.drop count = first :: rest) :
    u.walkClass span (before ++ [last]) =
      (u.findStatic ⟨matched.name, first, headSpan span before (count + 1), none⟩).map fun found =>
        ⟨.static ⟨matched.name, first, headSpan span before (count + 1), some found⟩,
          found.ty.deref, count + 1⟩ := by
  have hdrop : (before ++ [last]).dropLast = before := List.dropLast_concat
  have hlt : count < before.length := by
    have hlen := congrArg List.length hafter
    rw [List.length_drop, List.length_cons] at hlen
    omega
  have hfirst : (before ++ [last]).getD count "" = first := by
    rw [List.getD_eq_getElem?_getD, List.getElem?_append_left hlt, ← List.head?_drop, hafter]
    rfl
  have hne : count + 1 ≠ (before ++ [last]).length := by
    rw [List.length_append, List.length_singleton]
    omega
  rw [walkClass_eq (by rw [hdrop, hmatch]) (by rw [hdrop, hspell]), hfirst, runSpan_append hlt]
  simp only [hne, if_false]

end Universe

namespace Expr

theorem inferred_static {r : StaticRef} (hr : r.resolved = none) :
    (Expr.static r).inferred u bindings .undefined =
      (u.findStatic r).map fun found =>
        (.static { r with resolved := some found }, found.ty.deref) := by
  unfold inferred
  rw [infer, inferStatic, hr]
  cases hfound : u.findStatic r with
  | error e => rfl
  | ok found => rfl

/-- A path that is a field of a class as a whole is looked up in the same way. -/
theorem inferred_qualified (r : StaticRef) (hr : r.resolved = none) (field : String)
    (required : Ty) (count : Nat) :
    (Expr.qualified r field r.span none).inferred u bindings required =
      (u.findStatic r).bind fun found =>
        Walked.finish ⟨.qualified { r with resolved := some found } field r.span (some found),
          found.ty.deref, count⟩ r.span required := by
  unfold inferred
  rw [infer, inferStatic, hr]
  cases hfound : u.findStatic r with
  | error e => rfl
  | ok found =>
    simp only [Except.bind, Walked.finish, ResolvedField.require, text, StaticRef.text]
    cases requireType (r.owner.qualified ++ "." ++ r.field) r.span found.ty.deref required <;> rfl

/-- A path that names a field of a class as a whole, or a field behind one, is looked up by the
walk from the class. -/
theorem inferred_ofClassPath (bindings : Bindings) (required : Ty) :
    ((ofClassPath u before last span).bind (·.inferred u bindings required)) =
      (u.walkClass span (before ++ [last])).bind (u.walkOn span (before ++ [last]) required) := by
  have hdrop : (before ++ [last]).dropLast = before := List.dropLast_concat
  -- before there is a root both sides give the same errors
  cases hmatch : (u.matchPath before).bind Ty.object? with
  | none => simp [ofClassPath, Universe.walkClass, hdrop, hmatch, Except.bind]
  | some matched =>
    cases hspell : spelledSegments before matched.name with
    | none => simp [ofClassPath, Universe.walkClass, hdrop, hmatch, hspell, Except.bind]
    | some count =>
      simp only [ofClassPath, hmatch, hspell]
      cases hafter : before.drop count with
      | nil =>
        obtain rfl : count = before.length :=
          Nat.le_antisymm (spelledSegments_le hspell) (List.drop_eq_nil_iff.mp hafter)
        rw [Universe.walkClass_whole hmatch hspell]
        show Expr.inferred u bindings _ required = _
        rw [inferred_qualified ⟨matched.name, last, span, none⟩ rfl last required
          (before.length + 1)]
        cases u.findStatic ⟨matched.name, last, span, none⟩ with
        | error e => rfl
        | ok found =>
          have hend : (before ++ [last]).drop (before.length + 1) = [] := by simp
          simp only [Except.map, Except.bind, Universe.walkOn, hend]
          rfl
      | cons first rest =>
        have hlt : count < before.length := by
          have hlen := congrArg List.length hafter
          rw [List.length_drop, List.length_cons] at hlen
          omega
        have hrest : before.drop (count + 1) = rest := by
          rw [← List.drop_drop, hafter]
          rfl
        have hstart := Universe.walkClass_part span last hmatch hspell hafter
        have hroot : (ofClass matched.name first (headSpan span before (count + 1))).inferred u
            bindings .undefined =
              (u.walkClass span (before ++ [last])).bind (·.finish span .undefined) := by
          rw [ofClass, inferred_static rfl, hstart]
          cases u.findStatic ⟨matched.name, first, headSpan span before (count + 1), none⟩ <;> rfl
        have hcount : ∀ w, u.walkClass span (before ++ [last]) = .ok w → w.count = count + 1 := by
          intro w hw
          obtain ⟨found, _, rfl⟩ := eq_ok_of_map (hstart.symm.trans hw)
          rfl
        rw [← inferred_path hroot hcount hlt required, hrest]
        rfl

/-- A path that starts at a binding is looked up by the walk from the binding. -/
theorem inferred_ofBinding {b : Binding} {first : String} {rest : List String}
    (hb : bindings.lookup first = some b) (required : Ty) :
    (ofOwner (chain span (first :: rest)
      (ofBinding b first (headSpan span (first :: rest) 1)) 1 rest) last span).inferred u bindings
        required =
      u.walk bindings span (first :: rest ++ [last]) required := by
  have hone : 1 ≤ (first :: rest).length := Nat.succ_le_succ (Nat.zero_le _)
  have hstart : u.walkStart bindings span (first :: rest ++ [last]) =
      .ok ⟨ofBinding b first (headSpan span (first :: rest) 1), b.ty, 1⟩ := by
    rw [Universe.walkStart, runSpan_append hone]
    simp only [List.cons_append, List.headD_cons, hb]
  have hroot : (ofBinding b first (headSpan span (first :: rest) 1)).inferred u bindings
      .undefined = (u.walkStart bindings span (first :: rest ++ [last])).bind
        (·.finish span .undefined) := by
    rw [hstart]
    rfl
  have hcount : ∀ w, u.walkStart bindings span (first :: rest ++ [last]) = .ok w → w.count = 1 := by
    intro w hw
    rw [← Except.ok.inj (hstart.symm.trans hw)]
  exact inferred_path hroot hcount hone required

end Expr

/-! ### Whole paths -/

/-- Segments that are identifiers are read as a field after the segments before it. -/
theorem Expr.parse_join (hbefore : before ≠ [])
    (hid : ∀ s ∈ before ++ [last], isIdentifier s.toList = true) :
    Expr.parse (Dotted.join (before ++ [last])) span = .ok (.path before last span) := by
  have hsplit : Dotted.split (Dotted.join (before ++ [last])) = before ++ [last] :=
    Dotted.split_join (by simp) fun s hs => plain_of_isIdentifier (hid s hs)
  have htext : isPathText (Dotted.join (before ++ [last])) = true := by
    rw [isPathText, hsplit]
    exact List.all_eq_true.mpr hid
  -- the last segment is taken with a proof that there is one, so the segments are generalized
  have hexpr : ∀ (segments : List String) (h : segments ≠ []), segments = before ++ [last] →
      Expr.ofSegments segments h span = .path before last span := by
    rintro segments h rfl
    cases before with
    | nil => exact absurd rfl hbefore
    | cons first rest => simp only [Expr.ofSegments, List.dropLast_concat, List.getLast_concat]
  rw [Expr.parse, if_pos htext, hexpr _ _ hsplit]

/-- The meaning of a source is found by four passes, one after the other. -/
theorem RuleExpr.resolve_eq (u : Universe) (bindings : Bindings) (source : RuleExpr) :
    source.resolve u bindings =
      (((Expr.parse source.text source.span).bind (·.bind bindings)).bind (·.spellOut u)).bind
        (·.inferred u bindings source.required) := by
  unfold resolve
  cases Expr.parse source.text source.span with
  | error e => rfl
  | ok parsed =>
    simp only [bind, Except.bind]
    cases parsed.bind bindings with
    | error e => rfl
    | ok bound =>
      simp only [Expr.check, Expr.inferred]
      cases bound.spellOut u with
      | error e => rfl
      | ok e =>
        rcases e.infer u bindings source.required with ⟨e, outcome⟩
        cases outcome <;> rfl

/-- **The meaning of a path is what the walk along its segments finds**, with the same expression,
the same type and the same error. -/
theorem resolve_eq_walk (u : Universe) (bindings : Bindings) (segments : List String) (span : Span)
    (required : Ty) (role : Role) (hid : ∀ s ∈ segments, isIdentifier s.toList = true)
    (hlen : 2 ≤ segments.length) :
    RuleExpr.resolve u bindings ⟨Dotted.join segments, span, required, role⟩ =
      u.walk bindings span segments required := by
  obtain ⟨before, last, rfl⟩ : ∃ before last, segments = before ++ [last] :=
    ⟨segments.dropLast, segments.getLast (by rintro rfl; simp at hlen),
      (List.dropLast_concat_getLast _).symm⟩
  obtain ⟨first, rest, rfl⟩ : ∃ first rest, before = first :: rest := by
    cases before with
    | nil => simp at hlen
    | cons first rest => exact ⟨first, rest, rfl⟩
  rw [RuleExpr.resolve_eq, Expr.parse_join (List.cons_ne_nil _ _) hid]
  -- only an unbound first segment leaves a path for the types to spell out
  cases hb : bindings.lookup first with
  | some b =>
    rw [← Expr.inferred_ofBinding hb required]
    have hroot : (Expr.ofBinding b first (headSpan span (first :: rest) 1)).spellOut u =
        .ok (.ofBinding b first (headSpan span (first :: rest) 1)) := rfl
    simp only [Except.bind, Expr.bind, hb, Expr.ofOwner, Expr.spellOut,
      Expr.spellOut_chain hroot, Except.map]
  | none =>
    have hstart : u.walkStart bindings span (first :: rest ++ [last]) =
        u.walkClass span (first :: rest ++ [last]) := by
      simp only [Universe.walkStart, List.cons_append, List.headD_cons, hb]
    rw [Universe.walk, hstart, ← Expr.inferred_ofClassPath bindings required]
    simp only [Except.bind, Expr.bind, hb, Expr.spellOut]

/-- The node behind the first one is found from the class of nodes. -/
theorem resolve_eq_walk_linkedList :
    ∃ e, RuleExpr.resolve LinkedList.table.toUniverse LinkedList.bindings
      ⟨Dotted.join ["list", "Node", "first", "next"], ⟨1, 1, 20⟩, .undefined, .read⟩ =
        .ok (e, .object LinkedList.nodeType) := by
  rw [resolve_eq_walk _ _ _ _ _ _ (by decide +kernel) (by decide)]
  simp only [Universe.walk, Universe.walkStart, List.headD_cons, LinkedList.lookup_eq]
  exact ⟨_, by rfl⟩

end FieldPath
