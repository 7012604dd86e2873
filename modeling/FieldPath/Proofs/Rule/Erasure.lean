import FieldPath.Proofs.Rule.Independence

/-!
# Rules that are left out

A rule that is disabled by its first failing expression has put the references of the expressions
before it into the pool, and they stay there.  The rules after it find them, and a field that they
refer to may get another number than it would have without the disabled rule.  So leaving out a
disabled rule changes nothing exactly if the constants that it added are those that the rules after
it begin with anyway.  In any case the other rules keep their outcomes, up to these numbers.

## Main definitions

* `Preparation.NoTrace` — two preparations are the same but for one disabled rule.

## Main results

* `noTrace_iff` — when a disabled rule leaves no trace.
* `erase_disabled` — **what leaving out a disabled rule changes.**
-/

namespace FieldPath

/-- The preparations are the same, but that the first one has one more disabled rule. -/
structure Preparation.NoTrace (place : Nat) (d : DisabledRule) (kept erased : Preparation) :
    Prop where
  /-- The rules that can run are the same, with the same code. -/
  ready : kept.ready = erased.ready
  /-- The other rules that failed are the same. -/
  disabled : kept.disabled = erased.disabled.insertIdx place d
  /-- The constants are the same. -/
  constants : kept.constants.constants = erased.constants.constants

/-- The preparations are the same, but that the first one has one more disabled rule, and that
fields have other indices in the code. -/
structure Preparation.IndicesOnly (place : Nat) (d : DisabledRule) (kept erased : Preparation) :
    Prop where
  /-- The rules that can run are the same, with the same code but for the indices. -/
  ready : List.Forall₂
    (PreparedRule.Alike (Option.Rel (Chunk.SameCode kept.constants erased.constants)))
    kept.ready erased.ready
  /-- The other rules that failed are the same. -/
  disabled : kept.disabled = erased.disabled.insertIdx place d

variable {u : Universe} {withCode : Bool}

/-! ### Lists of outcomes -/

theorem insertIdx_length_append {α : Type} (l l' : List α) (a : α) :
    (l ++ l').insertIdx l.length a = l ++ a :: l' := by
  induction l with
  | nil => rfl
  | cons b l ih => rw [List.cons_append, List.length_cons, List.insertIdx_succ_cons, ih]; rfl

theorem disabledOf_congr {S : PreparedRule → PreparedRule → Prop} (rules : List Rule)
    {outs outs' : List (Except RuleError PreparedRule)}
    (h : List.Forall₂ (SameOutcome S) outs outs') :
    disabledOf rules outs = disabledOf rules outs' := by
  induction h generalizing rules with
  | nil => rfl
  | cons hsame _ ih =>
    cases rules with
    | nil => rfl
    | cons rule rest =>
      have hrest := ih rest
      unfold disabledOf at hrest ⊢
      cases hsame with
      | ok _ => simpa using hrest
      | error => simpa using hrest

theorem forall₂_ready {S : PreparedRule → PreparedRule → Prop}
    {outs outs' : List (Except RuleError PreparedRule)}
    (h : List.Forall₂ (SameOutcome S) outs outs') :
    List.Forall₂ S (outs.filterMap Except.toOption) (outs'.filterMap Except.toOption) := by
  induction h with
  | nil => exact .nil
  | cons hsame _ ih =>
    cases hsame with
    | ok hS => exact .cons hS ih
    | error => exact ih

/-- Outcomes with the same chunks are the same. -/
theorem eq_of_sameOutcome {outs outs' : List (Except RuleError PreparedRule)}
    (h : List.Forall₂ (SameOutcome (PreparedRule.Alike (Option.Rel (· = ·)))) outs outs') :
    outs = outs' := by
  refine List.forall₂_eq_eq_eq ▸ h.imp fun x y hsame => ?_
  cases hsame with
  | ok halike => rw [halike.eq]
  | error => rfl

/-! ### With and without a disabled rule -/

/-- A disabled rule goes to the end of the disabled ones, and leaves its constants. -/
theorem Preparation.add_of_error {start : Preparation} {bad : Rule} {e : RuleError}
    (hbad : (bad.prepare u withCode start.constants).1 = .error e) :
    start.add u withCode bad =
      { start with
        disabled := start.disabled ++ [⟨bad.name, e⟩]
        constants := (bad.prepare u withCode start.constants).2 } := by
  rcases hrun : bad.prepare u withCode start.constants with ⟨out, left⟩
  have hout : out = .error e := by rwa [hrun] at hbad
  rw [Preparation.add, hrun, hout]

/-- What is prepared after a disabled rule and without it: the constants that the rule left are
there already when the rules after it are done, and then they have made no difference. -/
theorem foldl_noTrace {start : Preparation} (hstart : start.constants.Lawful) {bad : Rule}
    {e : RuleError} (hbad : (bad.prepare u withCode start.constants).1 = .error e)
    (after : List Rule) :
    Preparation.NoTrace start.disabled.length ⟨bad.name, e⟩
        (after.foldl (.add u withCode) (start.add u withCode bad))
        (after.foldl (.add u withCode) start) ↔
      (bad.prepare u withCode start.constants).2.Within
        (outcomes u withCode after start.constants).2 := by
  have hgrows := bad.grows_prepare u withCode start.constants
  rw [foldl_add, foldl_add, Preparation.add_of_error hbad]
  generalize (bad.prepare u withCode start.constants).2 = left at hgrows ⊢
  constructor
  · intro h i c hc
    have hkept := (grows_outcomes u withCode after left).within i c hc
    rw [ConstantPool.get?] at hkept ⊢
    rw [← hkept]
    exact congrArg (·[i]?) h.constants.symm
  · intro h
    have hfinal := (grows_outcomes u withCode after start.constants).lawful hstart
    obtain ⟨hpools, houts⟩ := (Comparison.onTheWay _ hfinal).outcomes u withCode after
      (p := start.constants) (q := left)
      ⟨⟨hstart, hgrows.lawful hstart⟩, hgrows.within, h⟩ (.refl _)
    have hsame := eq_of_sameOutcome houts
    refine ⟨?_, ?_, ?_⟩
    · show start.ready ++ _ = start.ready ++ _
      rw [hsame]
    · show start.disabled ++ _ ++ _ = _
      rw [hsame, insertIdx_length_append, List.append_assoc]
      rfl
    · exact (hpools.2.1.antisymm hpools.2.2).symm

/-- The code of a preparation refers to the constants of its own pool. -/
theorem ready_self (rules : List Rule) (hsize : (prepare u withCode rules).constants.size ≤ 65536) :
    List.Forall₂ (PreparedRule.Alike (Comparison.upToIndices.Code
        (prepare u withCode rules).constants (prepare u withCode rules).constants))
      (prepare u withCode rules).ready (prepare u withCode rules).ready := by
  rw [constants_prepare] at hsize ⊢
  rw [(collects_prepare u withCode rules).ready]
  exact forall₂_ready (Comparison.upToIndices.outcomes u withCode rules
    (Comparison.upToIndices_empty ConstantPool.lawful_empty) hsize).2

/-- What is prepared after a disabled rule and without it, when the code of the rules before it is
known to refer to the constants by then. -/
theorem foldl_indicesOnly {start : Preparation} (hstart : start.constants.Lawful)
    (hready : List.Forall₂ (PreparedRule.Alike (Comparison.upToIndices.Code start.constants
      start.constants)) start.ready start.ready)
    {bad : Rule} {e : RuleError} (hbad : (bad.prepare u withCode start.constants).1 = .error e)
    (after : List Rule)
    (hsize : (after.foldl (.add u withCode) (start.add u withCode bad)).constants.size ≤ 65536) :
    Preparation.IndicesOnly start.disabled.length ⟨bad.name, e⟩
      (after.foldl (.add u withCode) (start.add u withCode bad))
      (after.foldl (.add u withCode) start) := by
  have hgrows := bad.grows_prepare u withCode start.constants
  rw [foldl_add, foldl_add, Preparation.add_of_error hbad] at *
  generalize (bad.prepare u withCode start.constants).2 = left at hgrows hsize ⊢
  have hafter := (Comparison.upToIndices.outcomes u withCode after (p := left)
    (q := start.constants) ⟨⟨hgrows.lawful hstart, hstart⟩, fun c ⟨i, hi⟩ =>
      ⟨i, hgrows.within i c hi⟩⟩ hsize).2
  have hkept := hgrows.trans (grows_outcomes u withCode after left)
  have herased := grows_outcomes u withCode after start.constants
  constructor
  · have hold := hready.imp fun _ _ h =>
      h.mono (Comparison.Code.mono Comparison.upToIndices hkept.within herased.within)
    have hall := List.rel_append hold (forall₂_ready hafter)
    exact hall.imp fun _ _ h => h.mono Comparison.Code.sameCode
  · show start.disabled ++ _ ++ _ = _
    rw [disabledOf_congr after hafter, insertIdx_length_append, List.append_assoc]
    rfl

/-- **What leaving out a disabled rule changes.**  It changes nothing exactly if the constants that
the rule left are those that the rules after it add first.  In any case, as long as there are not
too many constants, it changes nothing but the indices of fields. -/
theorem erase_disabled (u : Universe) (withCode : Bool) (before after : List Rule) {bad : Rule}
    {e : RuleError}
    (hbad : (bad.prepare u withCode (prepare u withCode before).constants).1 = .error e) :
    (Preparation.NoTrace (prepare u withCode before).disabled.length ⟨bad.name, e⟩
        (prepare u withCode (before ++ bad :: after)) (prepare u withCode (before ++ after)) ↔
      (prepare u withCode (before ++ [bad])).constants.Within
        (prepare u withCode (before ++ after)).constants) ∧
    ((prepare u withCode (before ++ bad :: after)).constants.size ≤ 65536 →
      Preparation.IndicesOnly (prepare u withCode before).disabled.length ⟨bad.name, e⟩
        (prepare u withCode (before ++ bad :: after)) (prepare u withCode (before ++ after))) := by
  have hkept : prepare u withCode (before ++ bad :: after) =
      after.foldl (.add u withCode) ((prepare u withCode before).add u withCode bad) := by
    rw [prepare, List.foldl_append, List.foldl_cons]
    rfl
  have herased : prepare u withCode (before ++ after) =
      after.foldl (.add u withCode) (prepare u withCode before) := List.foldl_append
  have hleft : (prepare u withCode (before ++ [bad])).constants =
      (bad.prepare u withCode (prepare u withCode before).constants).2 := by
    rw [constants_prepare, outcomes_append, constants_prepare]
    rfl
  have hlawful : (prepare u withCode before).constants.Lawful := by
    rw [constants_prepare]
    exact (grows_outcomes u withCode before _).lawful ConstantPool.lawful_empty
  rw [hkept, herased]
  refine ⟨?_, fun hsize => foldl_indicesOnly hlawful (ready_self before ?_) hbad after hsize⟩
  · rw [foldl_noTrace hlawful hbad, hleft, foldl_add]
  · have hgrows := (bad.grows_prepare u withCode (prepare u withCode before).constants).trans
      (grows_outcomes u withCode after _)
    rw [foldl_add, Preparation.add_of_error hbad] at hsize
    exact Nat.le_trans hgrows.within.size_le hsize

/-- The failing rule reads the field that the rule after it reads as well, so it leaves nothing that
would not be there without it. -/
theorem erase_disabled_linkedList : ∃ e,
    ((LinkedList.lost "count").prepare LinkedList.table.toUniverse true
      (prepare LinkedList.table.toUniverse true []).constants).1 = .error e ∧
    Preparation.NoTrace 0 ⟨"lost", e⟩
      (prepare LinkedList.table.toUniverse true [LinkedList.lost "count", LinkedList.counting])
      (prepare LinkedList.table.toUniverse true [LinkedList.counting]) := by
  obtain ⟨e, hlost⟩ := LinkedList.prepare_lost LinkedList.resolve_count
    (LinkedList.index_lt ConstantPool.lawful_empty (by decide))
  refine ⟨e, congrArg Prod.fst hlost, ?_⟩
  apply (erase_disabled LinkedList.table.toUniverse true [] [LinkedList.counting]
    (congrArg Prod.fst hlost)).1.mpr
  have hleft : (prepare LinkedList.table.toUniverse true
      ([] ++ [LinkedList.lost "count"])).constants =
        (ConstantPool.empty.add (Emit.fieldConstant LinkedList.countFound.field)).2 := by
    rw [constants_prepare]
    exact congrArg Prod.snd hlost
  rw [hleft, ← LinkedList.constants_counting]
  exact .refl _

/-- The failing rule reads another field than the rule after it, and its reference takes the first
place among the constants. -/
theorem not_noTrace_linkedList : ∃ e,
    ((LinkedList.lost "next").prepare LinkedList.table.toUniverse true
      (prepare LinkedList.table.toUniverse true []).constants).1 = .error e ∧
    ¬ Preparation.NoTrace 0 ⟨"lost", e⟩
      (prepare LinkedList.table.toUniverse true [LinkedList.lost "next", LinkedList.counting])
      (prepare LinkedList.table.toUniverse true [LinkedList.counting]) := by
  obtain ⟨e, hlost⟩ := LinkedList.prepare_lost LinkedList.resolve_next
    (LinkedList.index_lt ConstantPool.lawful_empty (by decide))
  refine ⟨e, congrArg Prod.fst hlost, fun h => ?_⟩
  have hsame := h.constants
  rw [LinkedList.constants_lost_counting, LinkedList.constants_counting] at hsame
  have hfirst : ∀ c : Constant, (ConstantPool.empty.add c).2.get? 0 = some c := by
    intro c
    have hindex : (ConstantPool.empty.add c).1 = 0 := by
      simp [ConstantPool.add, ConstantPool.empty, ConstantPool.size]
    have hget := ConstantPool.get?_add ConstantPool.lawful_empty c
    rwa [hindex] at hget
  have hnext := ConstantPool.within_add _ (Emit.fieldConstant LinkedList.countFound.field) 0 _
    (hfirst (Emit.fieldConstant LinkedList.nextFound.field))
  have hcount := hfirst (Emit.fieldConstant LinkedList.countFound.field)
  rw [ConstantPool.get?, hsame] at hnext
  rw [ConstantPool.get?, hnext] at hcount
  exact absurd hcount (by decide)

end FieldPath
