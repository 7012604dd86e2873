import FieldPath.Proofs.Path.History
import FieldPath.Proofs.Path.Matching

/-!
# No path is mismatched

A class that a table matches is always spelled by the segments that it was matched for, so something
is counted for it.  An expression that was read has only identifiers in its path, none of which has
a dot, and no bind or check call puts anything else there.  So the one error that tells of a class
that was matched and is not spelled never comes up with a table, though it may with another source
of classes.

## Main definitions

* `Expr.Plain` — no segment of a path in the expression has a dot.
* `NoMismatch` — an outcome is no such error.

## Main results

* `ClassTable.exists_spelledSegments` — what a table matches is spelled.
* `Expr.Plain.after` — bind and check calls keep paths plain.
* `Expr.Plain.noMismatch_check` — **checking plain paths with a table finds no mismatch.**
* `spelledSegments_longest` — **the segments that are counted are the longest spelling.**
-/

namespace FieldPath

/-- What a table matches is spelled by some leading segments. -/
theorem ClassTable.exists_spelledSegments {t : ClassTable} {path : List String}
    (hp : ∀ s ∈ path, Dotted.Plain s) {o : ObjectType}
    (h : (t.matchPath path).bind Ty.object? = some o) :
    ∃ count, spelledSegments path o.name = some count := by
  obtain ⟨ty, hty, ho⟩ := Option.bind_eq_some_iff.mp h
  obtain ⟨matched, o', rfl, hrun⟩ := matchPath_eq_some hty
  obtain rfl : o' = o := Option.some.inj ho
  rcases spelledSegments_cases hp o'.name with ⟨count, hcount, -⟩ | ⟨-, hnone⟩
  · exact ⟨count, hcount⟩
  · exact absurd (hrun.spells hp) (hnone matched)

/-! ### Plain paths -/

namespace Expr

/-- No segment of a path in the expression has a dot. -/
def Plain : Expr → Prop
  | .path segments _ _ => ∀ s ∈ segments, Dotted.Plain s
  | .member owner _ _ _ => owner.Plain
  | _ => True

variable {u : Universe} {bindings : Bindings}

theorem plain_chain {span : Span} {path : List String} {rest : List String} :
    ∀ (root : Expr) {count : Nat}, root.Plain → (chain span path root count rest).Plain := by
  induction rest with
  | nil => exact fun _ _ h => h
  | cons segment rest ih =>
    intro root count h
    exact ih _ h

/-- What was read is plain, since identifiers have no dots. -/
theorem plain_of_parse {text : String} {span : Span} {e : Expr} (h : parse text span = .ok e) :
    e.Plain := by
  unfold parse at h
  split at h
  · next htext =>
    rw [← Except.ok.inj h]
    unfold ofSegments
    cases hbefore : (Dotted.split text).dropLast with
    | nil => trivial
    | cons first rest =>
      intro s hs
      rw [← hbefore] at hs
      exact Dotted.plain_of_mem_split (List.dropLast_subset _ hs)
  · simp at h

theorem Filled.plain {e e' : Expr} (h : Filled bindings e e') (he : e.Plain) : e'.Plain := by
  induction h with
  | refl => exact he
  | binding _ => trivial
  | static _ _ => trivial
  | member _ ih => exact ih he
  | qualified _ _ => trivial

theorem Plain.bind {e : Expr} : ∀ {e'}, e.Plain → e.bind bindings = .ok e' → e'.Plain := by
  induction e with
  | path segments field span =>
    intro e' he h
    cases segments with
    | nil =>
      obtain rfl := Except.ok.inj h
      exact he
    | cons root rest =>
      simp only [Expr.bind] at h
      split at h
      · obtain rfl := Except.ok.inj h
        exact plain_chain (ofBinding _ _ _) trivial
      · obtain rfl := Except.ok.inj h
        exact he
  | member owner field span recorded ih =>
    intro e' he h
    obtain ⟨owner', hown, rfl⟩ := eq_ok_of_map h
    have howner' : owner'.Plain := ih he hown
    exact howner'
  | binding name span ty slot =>
    intro e' _ h
    simp only [Expr.bind] at h
    split at h
    · obtain rfl := Except.ok.inj h
      trivial
    · simp at h
  | _ =>
    intro e' _ h
    obtain rfl := Except.ok.inj h
    trivial

/-- Spelling a path out leaves no path. -/
theorem Plain.spellOut {e : Expr} : ∀ {e'}, e.Plain → e.spellOut u = .ok e' → e'.Plain := by
  induction e with
  | path segments field span =>
    intro e' _ h
    rcases ofClassPath_cases h with ⟨name, rfl⟩ | ⟨name, first, here, count, rest, rfl⟩
    · trivial
    · exact plain_chain (ofClass _ _ _) trivial
  | member owner field span recorded ih =>
    intro e' he h
    cases recorded with
    | some found =>
      obtain rfl := Except.ok.inj h
      exact he
    | none =>
      obtain ⟨owner', hown, rfl⟩ := eq_ok_of_map h
      have howner' : owner'.Plain := ih he hown
      exact howner'
  | _ =>
    intro e' _ h
    obtain rfl := Except.ok.inj h
    trivial

theorem Plain.check {e : Expr} (he : e.Plain) (required : Ty) :
    (e.check u bindings required).1.Plain := by
  unfold Expr.check
  split
  · exact he
  · next e' he' => exact (filled_infer e' required).plain (he.spellOut he')

/-- Bind and check calls keep paths plain. -/
theorem Plain.after {e : Expr} (he : e.Plain) (passes : List Pass) :
    (e.after u bindings passes).Plain :=
  after_induction (fun _ _ he hbind => he.bind hbind) (fun _ required he => he.check required) he
    passes

end Expr

/-! ### Mismatches -/

/-- A class was matched that the path does not spell. -/
def ResolutionCause.isMismatch : ResolutionCause → Bool
  | .pathMismatch _ _ => true
  | _ => false

section Outcomes

variable {α β : Type}

/-- The outcome is no mismatch. -/
def NoMismatch (outcome : Except ResolutionError α) : Prop :=
  ∀ err, outcome = .error err → err.cause.isMismatch = false

theorem noMismatch_ok (a : α) : NoMismatch (.ok a) := nofun

theorem noMismatch_error {err : ResolutionError} (h : err.cause.isMismatch = false) :
    NoMismatch (.error err : Except ResolutionError α) := by
  intro err' heq
  rwa [← Except.error.inj heq]

theorem NoMismatch.map {x : Except ResolutionError α} (h : NoMismatch x) (f : α → β) :
    NoMismatch (x.map f) := by
  cases x with
  | ok a => exact noMismatch_ok _
  | error err => exact noMismatch_error (h err rfl)

theorem noMismatch_requireType (text : String) (span : Span) (found required : Ty) :
    NoMismatch (requireType text span found required) := by
  unfold requireType
  simp only
  split
  · exact noMismatch_error rfl
  · exact noMismatch_ok _

theorem noMismatch_require (found : ResolvedField) (text : String) (span : Span) (required : Ty) :
    NoMismatch (found.require text span required) :=
  (noMismatch_requireType _ _ _ _).map _

theorem Universe.noMismatch_findStatic (u : Universe) (r : StaticRef) :
    NoMismatch (u.findStatic r) := by
  unfold findStatic
  split
  · exact noMismatch_error rfl
  · split
    · exact noMismatch_error rfl
    · split
      · exact noMismatch_ok _
      · exact noMismatch_error rfl

theorem Universe.noMismatch_findMember (u : Universe) (owner : Ty) (field : String) (span : Span) :
    NoMismatch (u.findMember owner field span) := by
  unfold findMember
  split
  · exact noMismatch_error rfl
  · split
    · exact noMismatch_error rfl
    · split
      · exact noMismatch_error rfl
      · split
        · exact noMismatch_error rfl
        · exact noMismatch_ok _

end Outcomes

namespace Expr

variable {u : Universe} {bindings : Bindings} {t : ClassTable}

theorem noMismatch_inferStatic (r : StaticRef) (required : Ty) :
    NoMismatch (inferStatic u r required).2 := by
  unfold inferStatic
  split
  · exact noMismatch_require _ _ _ _
  · split
    · next err herr => exact noMismatch_error (u.noMismatch_findStatic r err herr)
    · exact noMismatch_require _ _ _ _

/-- Looking fields up matches no class. -/
theorem noMismatch_infer (e : Expr) : ∀ required, NoMismatch (e.infer u bindings required).2 := by
  induction e with
  | binding name span ty slot =>
    intro required
    rw [infer]
    unfold inferBinding
    split
    · exact (noMismatch_requireType _ _ _ _).map _
    · split
      · exact (noMismatch_requireType _ _ _ _).map _
      · exact noMismatch_error rfl
  | static r => exact noMismatch_inferStatic r
  | path segments field span => exact fun _ => noMismatch_error rfl
  | member owner field span recorded ih =>
    intro required
    cases recorded with
    | some found => exact noMismatch_require _ _ _ _
    | none =>
      have hown := ih .undefined
      rw [infer]
      split
      · next err hinfer =>
        rw [hinfer] at hown
        exact noMismatch_error (hown err rfl)
      · split
        · next err herr => exact noMismatch_error (u.noMismatch_findMember _ _ _ err herr)
        · exact noMismatch_require _ _ _ _
  | qualified target field span recorded =>
    intro required
    cases recorded with
    | some found => exact noMismatch_require _ _ _ _
    | none =>
      rw [infer_qualified_snd]
      exact noMismatch_inferStatic target required

/-- A plain path that a table matches is spelled out. -/
theorem Plain.noMismatch_spellOut {e : Expr} (he : e.Plain) :
    NoMismatch (e.spellOut t.toUniverse) := by
  induction e with
  | path segments field span =>
    rw [Expr.spellOut, ofClassPath]
    split
    · exact noMismatch_error rfl
    · next o ho =>
      obtain ⟨count, hcount⟩ := ClassTable.exists_spelledSegments he ho
      rw [hcount]
      simp only
      split <;> exact noMismatch_ok _
  | member owner field span recorded ih =>
    cases recorded with
    | some found => exact noMismatch_ok _
    | none => exact (ih he).map _
  | _ => exact noMismatch_ok _

/-- **Checking plain paths with a table finds no mismatch.** -/
theorem Plain.noMismatch_check {e : Expr} (he : e.Plain) (required : Ty) :
    NoMismatch (e.check t.toUniverse bindings required).2 := by
  unfold Expr.check
  split
  · next err herr => exact noMismatch_error (he.noMismatch_spellOut err herr)
  · exact noMismatch_infer _ required

end Expr

/-- **The segments that are counted are the longest spelling.**  Of segments without dots, the
greatest number is counted that are the last segments of the name, and nothing is counted only if
there is no such number.  Where the count is found by bytes, the search for a suffix finds the same.
So an expression that was read is checked with a table without a mismatch, whatever bind and check
calls came before. -/
theorem spelledSegments_longest {path : List String} (hp : ∀ s ∈ path, Dotted.Plain s)
    (name : ClassName) :
    (∀ count, spelledSegments path name = some count ↔
      LongestSpelling path name.segments count) ∧
    (spelledSegments path name = none ↔ ∀ count, ¬ Spells path name.segments count) ∧
    (∀ count, fullRun? path name = some count →
      suffixRun path name.segments (min path.length name.segments.length) = some count) ∧
    (∀ (t : ClassTable) (bindings : Bindings) (text : String) (span : Span) (e : Expr)
      (passes : List Pass) (required : Ty) (err : ResolutionError),
      Expr.parse text span = .ok e →
      ((e.after t.toUniverse bindings passes).check t.toUniverse bindings required).2 =
        .error err →
      ∀ path' name', err.cause ≠ .pathMismatch path' name') := by
  refine ⟨fun count => ⟨longest_of_spelledSegments hp, fun hlongest => ?_⟩,
    ⟨fun hnone count hs => ?_, fun hno => ?_⟩,
    fun count hfull => (longest_of_fullRun? hp hfull).suffixRun_eq, ?_⟩
  · rcases spelledSegments_cases hp name with ⟨k, hk, hk'⟩ | ⟨-, hno⟩
    · rw [hk, hk'.unique hlongest]
    · exact absurd hlongest.spells (hno count)
  · rcases spelledSegments_cases hp name with ⟨k, hk, -⟩ | ⟨-, hno⟩
    · simp [hk] at hnone
    · exact hno count hs
  · rcases spelledSegments_cases hp name with ⟨k, -, hk⟩ | ⟨hnone, -⟩
    · exact absurd hk.spells (hno k)
    · exact hnone
  · intro t bindings text span e passes required err hparse hcheck path' name' hcause
    have hplain : (e.after t.toUniverse bindings passes).Plain :=
      (Expr.plain_of_parse hparse).after passes
    have hno := hplain.noMismatch_check required err hcheck
    rw [hcause] at hno
    exact absurd hno (by simp [ResolutionCause.isMismatch])

/-- All segments of a class of logs are counted where the path has them, though its last one is
repeated, and the two last ones where only they are there. -/
theorem spelledSegments_longest_nestedLog :
    (∀ s ∈ ["app", "log", "log", "level"], Dotted.Plain s) ∧
      LongestSpelling ["app", "log", "log", "level"] NestedLog.logType.name.segments 3 ∧
      suffixRun ["app", "log", "log", "level"] NestedLog.logType.name.segments 3 = some 3 ∧
      LongestSpelling ["log", "log", "level"] NestedLog.logType.name.segments 2 ∧
      ∀ count, ¬ Spells ["level"] NestedLog.logType.name.segments count := by
  have hplain : ∀ s ∈ ["app", "log", "log", "level"], Dotted.Plain s := by
    simp only [Dotted.Plain]
    decide +kernel
  have hfull := spelledSegments_longest hplain NestedLog.logType.name
  have hlast := spelledSegments_longest (fun s hs => hplain s (List.mem_cons_of_mem _ hs))
    NestedLog.logType.name
  have hlevel : ∀ s ∈ ["level"], Dotted.Plain s := fun s hs =>
    hplain s (by simp [List.mem_singleton.mp hs])
  have hnone := spelledSegments_longest hlevel NestedLog.logType.name
  exact ⟨hplain, (hfull.1 3).mp (by rfl), hfull.2.2.1 3 (by rfl), (hlast.1 2).mp (by rfl),
    hnone.2.1.mp (by rfl)⟩

end FieldPath
