import FieldPath.Proofs.Store.Atomicity

/-!
# Values that are accepted

The types of a program say which values a slot takes: those of a type that the type of the slot
accepts, and null in a slot of a class.  The heap goes by the value instead, and converts it.  Both
say the same.

## Main definitions

* `Heap.typeOf?` — the type of a value.
* `Heap.Acceptable` — a value may be stored in a slot of a type, as the types tell.

## Main results

* `Value.isSome_widenTo` — **a value is converted to the kinds that its kind widens to.**
* `Heap.isSome_fit` — **the heap takes what is acceptable.**
* `Heap.acceptable_zero` — the value of a fresh field is acceptable.
* `acceptance_agrees` — **an operation refuses a value exactly if it is not acceptable.**
-/

namespace FieldPath

/-! ### Conversions -/

namespace Value

/-- Every kind that is wider than another takes integers. -/
theorem isSome_ofIntWide (n : Int) {source k : Kind} (hk : k ∈ source.wider) :
    (ofIntWide n k).isSome := by
  have hmem : k ∈ [Kind.short, .int, .long, .float, .double] := by
    cases source <;> simp_all [Kind.wider]
  cases k with
  | boolean | byte | char => simp at hmem
  | short | int | long | float | double => rfl

theorem isSome_convert {v : Value} {source k : Kind} (hsource : v.kind? = some source)
    (hk : k ∈ source.wider) : (v.convert k).isSome := by
  cases v with
  | null | object h => simp [kind?] at hsource
  | bool b | double bits =>
    obtain rfl := Option.some.inj hsource
    simp [Kind.wider] at hk
  | float bits =>
    obtain rfl := Option.some.inj hsource
    obtain rfl : k = .double := by simpa [Kind.wider] using hk
    rfl
  | byte n | short n | char n | int n | long n => exact isSome_ofIntWide _ hk

/-- **A value is converted to the kinds that its kind widens to, and to no other.** -/
theorem isSome_widenTo (v : Value) (k : Kind) :
    (v.widenTo k).isSome ↔ ∃ source, v.kind? = some source ∧ k.widensFrom source = true := by
  unfold widenTo
  cases hsource : v.kind? with
  | none => simp
  | some source =>
    simp only [Option.some.injEq, exists_eq_left']
    split
    · next heq => simp [heq]
    · next hne =>
      split
      · next hwidens =>
        have hwider : k ∈ source.wider := by
          rw [Kind.widensFrom, Bool.or_eq_true, beq_iff_eq, List.contains_iff_mem] at hwidens
          exact hwidens.resolve_left fun heq => hne heq.symm
        simp [isSome_convert hsource hwider, hwidens]
      · next hwidens => simpa using hwidens

end Value

/-! ### Types of values -/

namespace Heap

/-- The type of a value: the kind of a primitive value, or the class of a live object.  Null has
none, and neither has a reference to an object that is not live. -/
def typeOf? (heap : Heap) : Value → Option Ty
  | .object h => (heap.classOf h).map .object
  | v => v.kind?.map .primitive

/-- A value may be stored in a slot of a type.  If the type is known, the value is null and the type
is a class, or the type accepts the type of the value.  If it is not known, the value is a reference
that is not stale. -/
def Acceptable (heap : Heap) (t : Ty) (v : Value) : Prop :=
  if t.isDefined then
    (t.object?.isSome ∧ v = .null) ∨ ∃ u, heap.typeOf? v = some u ∧ t.accepts u = true
  else v = .null ∨ ∃ h, v = .object h ∧ (heap.get h).isSome

variable {heap : Heap} {t : Ty} {v : Value}

/-! One case for each form of a type. -/

theorem fit_primitive {k : Kind} (ht : t.deref = .primitive k) : heap.fit t v = v.widenTo k := by
  unfold fit
  rw [ht]

theorem fit_object {o : ObjectType} (ht : t.deref = .object o) :
    heap.fit t v =
      match v with
      | .null => some .null
      | .object h => if (heap.classOf h).any o.accepts then some (.object h) else none
      | _ => none := by
  unfold fit
  rw [ht]
  cases v <;> rfl

theorem fit_undefined (ht : t.deref = .undefined) :
    heap.fit t v =
      match v with
      | .null => some .null
      | .object h => if (heap.classOf h).isSome then some (.object h) else none
      | _ => none := by
  unfold fit
  rw [ht]
  cases v <;> rfl

theorem fit_void (ht : t.deref = .void) : heap.fit t v = none := by
  unfold fit
  rw [ht]

theorem acceptable_primitive {k : Kind} (ht : t.deref = .primitive k) :
    heap.Acceptable t v ↔ ∃ source, v.kind? = some source ∧ k.widensFrom source = true := by
  have hclass : t.object? = none := by rw [Ty.object?, ht]
  have hdefined : t.isDefined = true := by simp [Ty.isDefined, Ty.isUndefined, ht]
  rw [Acceptable, if_pos hdefined, hclass]
  cases v with
  | null => simp [typeOf?, Value.kind?]
  | object h => simp [typeOf?, Value.kind?, Ty.accepts, ht]
  | _ => simp [typeOf?, Value.kind?, Ty.accepts, ht]

theorem acceptable_object {o : ObjectType} (ht : t.deref = .object o) :
    heap.Acceptable t v ↔
      v = .null ∨ ∃ h c, v = .object h ∧ heap.classOf h = some c ∧ o.accepts c = true := by
  have hclass : t.object? = some o := by rw [Ty.object?, ht]
  have hdefined : t.isDefined = true := by simp [Ty.isDefined, Ty.isUndefined, ht]
  rw [Acceptable, if_pos hdefined, hclass]
  cases v with
  | null => simp
  | object h => simp [typeOf?, Ty.accepts, ht]
  | _ => simp [typeOf?, Value.kind?, Ty.accepts, ht]

theorem acceptable_undefined (ht : t.deref = .undefined) :
    heap.Acceptable t v ↔ v = .null ∨ ∃ h c, v = .object h ∧ heap.classOf h = some c := by
  have hdefined : ¬ t.isDefined = true := by simp [Ty.isDefined, Ty.isUndefined, ht]
  rw [Acceptable, if_neg hdefined]
  simp only [classOf, Option.map_eq_some_iff, Option.isSome_iff_exists]
  grind

/-- Nothing is acceptable for `void`. -/
theorem not_acceptable_void (ht : t.deref = .void) : ¬ heap.Acceptable t v := by
  have hclass : t.object? = none := by rw [Ty.object?, ht]
  have hdefined : t.isDefined = true := by simp [Ty.isDefined, Ty.isUndefined, ht]
  rw [Acceptable, if_pos hdefined, hclass]
  cases v <;> simp [typeOf?, Value.kind?, Ty.accepts, ht]

/-- **The heap takes what is acceptable.** -/
theorem isSome_fit (heap : Heap) (t : Ty) (v : Value) :
    (heap.fit t v).isSome ↔ heap.Acceptable t v := by
  cases ht : t.deref with
  | primitive k => rw [acceptable_primitive ht, fit_primitive ht, Value.isSome_widenTo]
  | object o =>
    rw [acceptable_object ht, fit_object ht]
    cases v with
    | null => simp
    | object h =>
      simp only [Option.isSome_ite, Option.any_eq_true, reduceCtorEq, false_or,
        Value.object.injEq, exists_and_left, exists_eq_left']
    | _ => simp
  | undefined =>
    rw [acceptable_undefined ht, fit_undefined ht]
    cases v with
    | null => simp
    | object h =>
      simp only [Option.isSome_ite, reduceCtorEq, false_or, Value.object.injEq, exists_and_left,
        exists_eq_left']
      exact Option.isSome_iff_exists
    | _ => simp
  | void => simp [fit_void ht, not_acceptable_void ht]
  | synonym name u => exact absurd ht (Ty.deref_ne_synonym t name u)

/-- **The value of a fresh field is acceptable**, unless the field has no values. -/
theorem acceptable_zero (heap : Heap) {t : Ty} (ht : t.deref ≠ .void) :
    heap.Acceptable t (.zero t) := by
  cases hd : t.deref with
  | primitive k =>
    rw [acceptable_primitive hd, Value.zero, Ty.kind?, hd]
    exact ⟨k, Value.kind?_zeroOf k, Kind.widensFrom_self k⟩
  | object o =>
    rw [acceptable_object hd, Value.zero, Ty.kind?, hd]
    exact Or.inl rfl
  | undefined =>
    rw [acceptable_undefined hd, Value.zero, Ty.kind?, hd]
    exact Or.inl rfl
  | void => exact absurd hd ht
  | synonym name u => exact absurd hd (Ty.deref_ne_synonym t name u)

/-- A value of a primitive type is of this kind, and a value of any other type is a reference. -/
theorem Holds.kind?_eq {heap : Heap} {t : Ty} {v : Value} (h : heap.Holds t v) :
    v.kind? = t.kind? := by
  have hshapes := h.shapes
  unfold Ty.Shapes at hshapes
  unfold Ty.kind?
  split at hshapes
  · next ht => rw [ht, hshapes]
  · next ht => rw [ht, hshapes]
  · next ht => rw [ht, hshapes]
  · exact hshapes.elim

end Heap

/-! ### Operations -/

namespace SlotOp

variable {heap : Heap} {op : SlotOp} {target : Slot}

/-- What an operation does to a heap is read off an arena that represents the heap. -/
theorem exists_does (heap : Heap) (op : SlotOp) :
    ∃ a out, a.Represents heap ∧ op.Does a out ∧
      SameOutcome Arena.Represents (Arena.outcome out) (op.perform heap) :=
  ⟨.ofHeap heap, _, Arena.represents_ofHeap heap, op.does_edit _,
    (Arena.represents_ofHeap heap).edit op⟩

/-- A value that does not fit the slot is refused, and no other is refused for the value. -/
theorem perform_eq_invalidArgument (htarget : op.target? heap.slotAt = some target) :
    (∃ field expected found, op.perform heap = .error (.invalidArgument field expected found)) ↔
      heap.fit target.ty op.value = none := by
  obtain ⟨a, out, hrep, hdoes, hsame⟩ := exists_does heap op
  rw [← hrep.slotAt_eq] at htarget
  rw [← Heap.fit_congr hrep.objects]
  generalize op.perform heap = done at hsame ⊢
  cases hdoes with
  | stored hslot =>
    obtain ⟨target', stored, htarget', hfit, -⟩ := hslot.filled
    obtain rfl := Option.some.inj (htarget.symm.trans htarget')
    cases hsame
    simp [hfit]
  | unfit htarget' hfit =>
    obtain rfl := Option.some.inj (htarget.symm.trans htarget')
    cases hsame
    simp [hfit]
  | stale hh ho hfits =>
    cases hsame
    simpa using Option.isSome_iff_ne_none.mp (hfits target htarget)
  | missing hnone _ => exact absurd (htarget.symm.trans hnone) (by simp)
  | final hnone _ => exact absurd (htarget.symm.trans hnone) (by simp)

/-- A value that fits is stored if the object is live. -/
theorem perform_of_fit (htarget : op.target? heap.slotAt = some target)
    (hown : ∀ h, op.owner? = some h → (heap.get h).isSome) {stored : Value}
    (hfit : heap.fit target.ty op.value = some stored) :
    ∃ next, op.perform heap = .ok next ∧
      next.slotAt op.owner? op.field = some { target with value := stored } := by
  obtain ⟨a, out, hrep, hdoes, hsame⟩ := exists_does heap op
  rw [← hrep.slotAt_eq] at htarget
  rw [← Heap.fit_congr hrep.objects] at hfit
  generalize op.perform heap = done at hsame ⊢
  cases hdoes with
  | stored hslot =>
    obtain ⟨target', stored', htarget', hfit', rfl⟩ := hslot.filled
    obtain rfl := Option.some.inj (htarget.symm.trans htarget')
    obtain rfl := Option.some.inj (hfit.symm.trans hfit')
    have hat := (Arena.onlyWrote_put hslot.owned hslot.isFor).slotAt op.owner? op.field
    cases hsame with
    | ok hnext =>
      refine ⟨_, rfl, ?_⟩
      rw [← hnext.slotAt, hat, if_pos ⟨rfl, by simp [Field.sameAs]⟩]
  | unfit htarget' hnone =>
    obtain rfl := Option.some.inj (htarget.symm.trans htarget')
    exact absurd (hfit.symm.trans hnone) (by simp)
  | stale hh ho hfits =>
    have hlive := hown _ hh
    rw [← hrep.object?, ho] at hlive
    simp at hlive
  | missing hnone _ => exact absurd (htarget.symm.trans hnone) (by simp)
  | final hnone _ => exact absurd (htarget.symm.trans hnone) (by simp)

end SlotOp

/-- **Types and heaps agree on the values that are accepted.**  An operation that fills a slot of
type `t`, whatever aliases it has, refuses a value for the value exactly if it is not acceptable for
`t`.  If it is acceptable, and the object is live, it is stored: as a value of the kind of `t` if
`t` has one, else as a reference.  So a value is converted to exactly the kinds that its own kind
widens to, and the value of a fresh field is acceptable whenever its type is not `void`. -/
theorem acceptance_agrees (heap : Heap) :
    (∀ op target, SlotOp.target? heap.slotAt op = some target →
      ((∃ field expected found,
          op.perform heap = .error (.invalidArgument field expected found)) ↔
        ¬ heap.Acceptable target.ty op.value) ∧
      (heap.Acceptable target.ty op.value →
        (∀ h, op.owner? = some h → (heap.get h).isSome) →
        ∃ next stored, op.perform heap = .ok next ∧
          next.slotAt op.owner? op.field = some { target with value := stored } ∧
          heap.fit target.ty op.value = some stored ∧ stored.kind? = target.ty.kind?)) ∧
    (∀ (v : Value) (k : Kind),
      (v.widenTo k).isSome ↔ ∃ source, v.kind? = some source ∧ k.widensFrom source = true) ∧
    ∀ t : Ty, t.deref ≠ .void → heap.Acceptable t (.zero t) := by
  refine ⟨fun op target htarget => ⟨?_, fun hacc hown => ?_⟩, Value.isSome_widenTo,
    fun t => heap.acceptable_zero⟩
  · rw [SlotOp.perform_eq_invalidArgument htarget, ← heap.isSome_fit]
    simp
  · obtain ⟨stored, hfit⟩ := Option.isSome_iff_exists.mp ((heap.isSome_fit _ _).mpr hacc)
    obtain ⟨next, hnext, hslot⟩ := SlotOp.perform_of_fit htarget hown hfit
    exact ⟨next, stored, hnext, hslot, hfit, (Heap.holds_of_fit hfit).kind?_eq⟩

namespace Tally

/-- The slot of the clients of the bank. -/
def slot : Slot := .new (clients "Bank") (.primitive .long) (.long 3)

/-- The clients are counted in halves. -/
def miscount : SlotOp := .setStatic (clients "Bank") (.double 0x4004000000000000)

end Tally

/-- An `int` is accepted for a `long`, a `double` is not, and an alias of `long` starts at zero. -/
theorem acceptance_agrees_tally :
    (∃ next stored, Tally.recount.perform Tally.heap = .ok next ∧
      next.slotAt none (Tally.clients "Bank") = some { Tally.slot with value := stored } ∧
      stored.kind? = some .long) ∧
    (∃ field expected found,
      Tally.miscount.perform Tally.heap = .error (.invalidArgument field expected found)) ∧
    Tally.heap.Acceptable (.synonym "Count" (.primitive .long)) (.long 0) := by
  obtain ⟨hops, -, hzero⟩ := acceptance_agrees Tally.heap
  have hslot : Tally.heap.slotAt none (Tally.clients "Bank") = some Tally.slot := by
    decide +kernel
  have htarget : ∀ op ∈ [Tally.recount, Tally.miscount],
      SlotOp.target? Tally.heap.slotAt op = some Tally.slot := by
    intro op hop
    rcases List.mem_pair.mp hop with rfl | rfl
    · rw [Tally.recount, SlotOp.target?, hslot]; rfl
    · rw [Tally.miscount, SlotOp.target?, hslot]; rfl
  refine ⟨?_, ?_, hzero _ (by simp [Ty.deref])⟩
  · have hacc : Tally.heap.Acceptable Tally.slot.ty Tally.recount.value :=
      (Heap.acceptable_primitive rfl).mpr ⟨.int, rfl, rfl⟩
    have hown : ∀ h, Tally.recount.owner? = some h → (Tally.heap.get h).isSome := by
      simp [Tally.recount, SlotOp.owner?]
    obtain ⟨next, stored, hnext, hat, -, hkind⟩ :=
      (hops _ _ (htarget Tally.recount List.mem_cons_self)).2 hacc hown
    exact ⟨next, stored, hnext, hat, hkind⟩
  · refine (hops _ _ (htarget Tally.miscount (by simp))).1.mpr fun hacc => ?_
    obtain ⟨source, hsource, hwidens⟩ := (Heap.acceptable_primitive rfl).mp hacc
    obtain rfl := Option.some.inj hsource
    exact absurd hwidens (by decide)

end FieldPath
