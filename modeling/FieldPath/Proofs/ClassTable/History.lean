import FieldPath.Proofs.ClassTable.Order

/-!
# Tables with a history

A table is filled by attempts to register declarations, and an attempt that is refused leaves the
table as it was.  Since a declaration is refused if one of its supertypes leads back to its class,
no class is ever above itself: a cycle in the longer table would have to pass through the new class,
and the way back from one of its supertypes would be there before.  What is above a class stays
above it, whatever is attempted later.

## Main definitions

* `ClassTable.attempt`, `ClassTable.after` — the table after one attempt and after a history.

## Main results

* `Acyclic.snoc` — **one more declaration closes no cycle.**
* `ClassTable.acyclic_after` — no class of a table with a history is above itself.
* `ClassTable.register_eq_circular_iff` — which declarations are refused as circular.
* `ClassTable.objectType?_after_append` — a class keeps its ancestors in every later table.
-/

namespace FieldPath

/-! ### One more declaration -/

/-- One more declaration adds its supertypes to those of its class. -/
theorem supertypesIn_snoc {decls : List ClassDecl} {d : ClassDecl}
    (hnew : decls.find? (·.name == d.name) = none) (n : ClassName) :
    supertypesIn (decls ++ [d]) n =
      supertypesIn decls n ++ if d.name = n then d.supertypes else [] := by
  unfold supertypesIn
  rw [List.find?_append]
  by_cases hn : d.name = n
  · subst hn
    simp [hnew]
  · simp [hn]

/-- The new links of a longer list of declarations are those of the new class. -/
theorem above_snoc {decls : List ClassDecl} {d : ClassDecl}
    (hnew : decls.find? (·.name == d.name) = none) {n m : ClassName} :
    Above (decls ++ [d]) n m ↔ Above decls n m ∨ (n = d.name ∧ m ∈ d.supertypes) := by
  rw [Above, supertypesIn_snoc hnew, List.mem_append, Above]
  by_cases hn : d.name = n
  · simp [hn]
  · simp [hn, Ne.symm hn]

/-- A chain in the longer list goes through the old links alone, or through the new class. -/
theorem chain_snoc {decls : List ClassDecl} {d : ClassDecl}
    (hnew : decls.find? (·.name == d.name) = none) {n m : ClassName}
    (h : Relation.ReflTransGen (Above (decls ++ [d])) n m) :
    Relation.ReflTransGen (Above decls) n m ∨
      (Relation.ReflTransGen (Above decls) n d.name ∧
        ∃ s ∈ d.supertypes, Relation.ReflTransGen (Above decls) s m) := by
  induction h using Relation.ReflTransGen.head_induction_on with
  | refl => exact Or.inl .refl
  | head hstep _ ih =>
    rcases (above_snoc hnew).mp hstep with hold | ⟨rfl, hs⟩
    · exact ih.imp (.head hold) fun h => ⟨.head hold h.1, h.2⟩
    · rcases ih with hrest | ⟨-, hvia⟩
      · exact Or.inr ⟨.refl, _, hs, hrest⟩
      · exact Or.inr ⟨.refl, hvia⟩

/-- **One more declaration closes no cycle**, if none of its supertypes leads back to its class. -/
theorem Acyclic.snoc {decls : List ClassDecl} {d : ClassDecl} (h : Acyclic decls)
    (hnew : decls.find? (·.name == d.name) = none)
    (hback : ∀ s ∈ d.supertypes, ¬ Relation.ReflTransGen (Above decls) s d.name) :
    Acyclic (decls ++ [d]) := by
  intro n hcycle
  obtain ⟨m, hstep, hchain⟩ := Relation.TransGen.head'_iff.mp hcycle
  rcases (above_snoc hnew).mp hstep with hold | ⟨rfl, hs⟩
  · rcases chain_snoc hnew hchain with hrest | ⟨hto, s, hs, hfrom⟩
    · exact h n (.head' hold hrest)
    · -- the cycle leaves the new class by `s`, and the rest of it leads back
      exact hback s hs (hfrom.trans (.head hold hto))
  · rcases chain_snoc hnew hchain with hrest | ⟨hto, -⟩
    · exact hback m hs hrest
    · exact hback m hs hto

namespace ClassTable

/-! ### Attempts -/

/-- The table after an attempt to register a class.  A refusal leaves it as it was. -/
def attempt (t : ClassTable) (d : ClassDecl) : ClassTable :=
  match t.register d with
  | .ok next => next
  | .error _ => t

/-- The table after attempts to register some classes, one after the other. -/
def after (rules : NameRules) (history : List ClassDecl) : ClassTable :=
  history.foldl attempt { rules := rules }

theorem after_append (rules : NameRules) (history more : List ClassDecl) :
    after rules (history ++ more) = more.foldl attempt (after rules history) := List.foldl_append

/-- **What every registration keeps holds after any history.** -/
theorem foldl_attempt_induction {P : ClassTable → Prop} {t : ClassTable} (ht : P t)
    (hstep : ∀ t d next, P t → t.register d = .ok next → P next) (history : List ClassDecl) :
    P (history.foldl attempt t) := by
  induction history generalizing t with
  | nil => exact ht
  | cons d rest ih =>
    apply ih
    unfold attempt
    split
    · next next hreg => exact hstep t d next ht hreg
    · exact ht

/-! ### Refusals -/

/-- A successful registration checks that no supertype leads back to the class. -/
theorem not_chain_of_register {t t' : ClassTable} {d : ClassDecl} (h : t.register d = .ok t') :
    ∀ s ∈ d.supertypes, ¬ Relation.ReflTransGen (Above t.decls) s d.name := by
  intro s hs hchain
  obtain ⟨hnew, hfields, -⟩ := register_eq_ok h
  unfold register at h
  rw [hnew, if_neg Bool.false_ne_true, hfields] at h
  cases hcirc : t.circularSupertype? d with
  | some a => simp [hcirc] at h
  | none => exact List.find?_eq_none.mp hcirc s hs (reaches_iff.mpr hchain)

/-- A new class without a repeated field is refused for the first supertype that leads back to
it. -/
theorem register_eq_circular_iff {t : ClassTable} {d : ClassDecl}
    (hnew : t.contains d.name = false) (hfields : d.repeatedField? = none) {n s : ClassName} :
    t.register d = .error (.circularInheritance n s) ↔
      n = d.name ∧ ∃ earlier later, d.supertypes = earlier ++ s :: later ∧
        Relation.ReflTransGen (Above t.decls) s d.name ∧
        ∀ p ∈ earlier, ¬ Relation.ReflTransGen (Above t.decls) p d.name := by
  have hfirst : t.circularSupertype? d = some s ↔
      ∃ earlier later, d.supertypes = earlier ++ s :: later ∧
        Relation.ReflTransGen (Above t.decls) s d.name ∧
        ∀ p ∈ earlier, ¬ Relation.ReflTransGen (Above t.decls) p d.name := by
    rw [circularSupertype?, List.find?_eq_some_iff_append]
    simp only [reaches_iff, Bool.not_eq_true', ← Bool.not_eq_true]
    constructor
    · rintro ⟨hs, earlier, later, heq, hnot⟩
      exact ⟨earlier, later, heq, hs, hnot⟩
    · rintro ⟨earlier, later, heq, hs, hnot⟩
      exact ⟨hs, earlier, later, heq, hnot⟩
  unfold register
  rw [hnew, if_neg Bool.false_ne_true, hfields, ← hfirst]
  cases t.circularSupertype? d with
  | none => simp
  | some a => simp [eq_comm]

/-! ### Histories -/

theorem Acyclic.nil : Acyclic [] := by
  intro n h
  obtain ⟨m, hstep, -⟩ := Relation.TransGen.head'_iff.mp h
  simp [Above, supertypesIn] at hstep

/-- **No class of a table with a history is above itself.** -/
theorem acyclic_after (rules : NameRules) (history : List ClassDecl) :
    Acyclic (after rules history).decls := by
  refine foldl_attempt_induction (P := fun t => Acyclic t.decls) Acyclic.nil ?_ history
  intro t d next ht hreg
  obtain ⟨hnew, -, rfl⟩ := register_eq_ok hreg
  exact ht.snoc (find?_eq_none_of_contains hnew) (not_chain_of_register hreg)

/-- A later table has the declarations of an earlier one. -/
theorem decls_after_append (rules : NameRules) (history more : List ClassDecl) :
    ∃ added, (after rules (history ++ more)).decls = (after rules history).decls ++ added := by
  rw [after_append]
  refine foldl_attempt_induction
    (P := fun t => ∃ added, t.decls = (after rules history).decls ++ added) ⟨[], by simp⟩ ?_ more
  rintro t d next ⟨added, ht⟩ hreg
  obtain ⟨-, -, rfl⟩ := register_eq_ok hreg
  exact ⟨added ++ [d], by rw [ht, List.append_assoc]⟩

/-- **A class keeps its ancestors in every later table.** -/
theorem objectType?_after_append {rules : NameRules} {history : List ClassDecl} {n : ClassName}
    {o : ObjectType} (ho : (after rules history).objectType? n = some o) (more : List ClassDecl) :
    ∃ later, (after rules (history ++ more)).objectType? n = some later ∧
      o.lineage ⊆ later.lineage := by
  obtain ⟨hn, rfl⟩ := objectType?_eq_some ho
  obtain ⟨added, hadded⟩ := decls_after_append rules history more
  have hcontains : (after rules (history ++ more)).contains n = true := by
    obtain ⟨d, hd, hname⟩ := contains_iff.mp hn
    exact contains_iff.mpr ⟨d, by rw [hadded]; exact List.mem_append_left _ hd, hname⟩
  refine ⟨_, if_pos hcontains, fun m hm => ?_⟩
  have hlonger :
      Above (after rules history).decls ≤ Above (after rules (history ++ more)).decls := by
    rw [hadded]
    exact fun _ _ => above_append _
  exact mem_lineage_iff.mpr
    (Relation.ReflTransGen.mono hlonger _ _ (mem_lineage_iff.mp hm))

end ClassTable

end FieldPath
