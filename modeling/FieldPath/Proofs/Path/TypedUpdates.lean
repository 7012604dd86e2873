import FieldPath.Proofs.Path.Updates
import FieldPath.Proofs.Store.Acceptance

/-!
# Assignments to typed expressions

A field converts what is stored in it, so an assignment to a checked field is refused unless the
value is acceptable for the type of the expression, and what is read afterwards is of this type.  A
binding has no type in a frame.  It takes any value as it is, also one that is not of the type that
the binding was declared with.

## Main definitions

* `Expr.FeedsBack` — the slot that an assignment writes is read to evaluate the owner of the field.
* `Expr.Refused` — an assignment is refused and has not changed anything.

## Main results

* `ClassTable.Sound.slotAt_typed` — a slot of a declared field has the type of the field.
* `Expr.HasType.not_feedsBack` — **a primitive field does not feed back.**
* `Expr.Checked.exists_fit_of_assign` — a checked field stores the value converted to its type.
* `assignment_typed` — **an assignment to a field respects its type**, and one to a binding does not
  look at it.
* `assignment_typed_fails_total` — a binding of type `long` becomes an `int`.
-/

namespace FieldPath

/-! ### What a slot of a declared field holds -/

theorem Heap.fit_of_deref {t u : Ty} (h : t.deref = u.deref) (heap : Heap) (v : Value) :
    heap.fit t v = heap.fit u v := by
  unfold Heap.fit
  rw [h]

/-- What is read is in a slot. -/
theorem Heap.exists_slotAt_of_readAt {heap : Heap} {owner : Option Handle} {f : Field} {w : Value}
    (h : ObjectGraph.readAt heap owner f = .ok w) :
    ∃ s, heap.slotAt owner f = some s ∧ s.value = w := by
  cases owner with
  | none =>
    change heap.getStatic f = .ok w at h
    unfold Heap.getStatic at h
    split at h
    · simp at h
    · next s hs => exact ⟨s, hs, Except.ok.inj h⟩
  | some hd =>
    change heap.getField hd f = .ok w at h
    unfold Heap.getField at h
    split at h
    · simp at h
    · next o ho =>
      split at h
      · simp at h
      · next s hs =>
        exact ⟨s, by rw [Heap.slotAt, ho, Option.bind_some, hs], Except.ok.inj h⟩

theorem Heap.EverySlot.slotAt {P : Slot → Prop} {heap : Heap} (hall : heap.EverySlot P)
    {owner : Option Handle} {f : Field} {s : Slot} (h : heap.slotAt owner f = some s) :
    P s ∧ s.isFor f = true := by
  cases owner with
  | none =>
    obtain ⟨hmem, hfor⟩ := Slots.mem_of_slot?_eq_some h
    exact ⟨hall.ofClass s hmem, hfor⟩
  | some hd =>
    obtain ⟨o, ho, hs⟩ := Option.bind_eq_some_iff.mp h
    obtain ⟨hmem, hfor⟩ := Slots.mem_of_slot?_eq_some hs
    exact ⟨hall.ofObject hd o ho s hmem, hfor⟩

/-- **A slot of a declared field has the type of the field**, and holds a value of it. -/
theorem ClassTable.Sound.slotAt_typed {t : ClassTable} (ht : t.WellFormed) {heap : Heap}
    (hs : t.Sound heap) {owner : Option Handle} {f : Field} (hf : t.Declares f) {s : Slot}
    (h : heap.slotAt owner f = some s) :
    s.ty = t.typeOf f.valueClass ∧ heap.Holds s.ty s.value := by
  obtain ⟨⟨hgives, hholds⟩, hfor⟩ := hs.slots.slotAt h
  exact ⟨by rw [hgives.eq_new ht hf hfor]; rfl, hholds⟩

/-! ### Places of typed expressions -/

section Sites

variable {γ : Type} [ObjectGraph γ] {frame : Frame γ}

theorem eq_object_of_ownerHandle {text : String} {span : Span} {f : Field} {w : Value}
    {h : Handle} (hobj : ownerHandle text span f w = .ok h) : w = .object h := by
  cases w with
  | object h' => rw [Except.ok.inj hobj]
  | _ => cases hobj

namespace Expr

/-- A field names a slot. -/
theorem exists_slot_of_locate {e : Expr} {site : Site} (hsite : e.locate frame = .ok site)
    (hfield : e.isBinding = false) : ∃ owner f, site = .slot owner f := by
  cases site with
  | slot owner f => exact ⟨owner, f, rfl⟩
  | binding name =>
    obtain ⟨span, ty, slot, rfl⟩ := eq_binding_of_locate hsite
    cases hfield

/-- What is read from a field is in its slot. -/
theorem readAt_of_read {e : Expr} {w : Value} (h : e.read frame = .ok w)
    (hfield : e.isBinding = false) :
    ∃ owner f, e.locate frame = .ok (.slot owner f) ∧
      ObjectGraph.readAt frame.objects owner f = .ok w := by
  rw [read_eq] at h
  obtain ⟨site, hsite, hread⟩ := eq_ok_of_bind h
  obtain ⟨owner, f, rfl⟩ := exists_slot_of_locate hsite hfield
  exact ⟨owner, f, hsite, eq_ok_of_mapError hread⟩

/-- **Every slot on the way to an object holds an object.** -/
theorem readAt_of_mem_ownerReads {e : Expr} {site : Site} (hsite : e.locate frame = .ok site) :
    ∀ p ∈ e.ownerReads frame,
      ∃ h, ObjectGraph.readAt frame.objects p.1 p.2 = .ok (.object h) := by
  induction e generalizing site with
  | member owner field span found ih =>
    cases found with
    | none => cases hsite
    | some found =>
      obtain ⟨w, hread, hobj⟩ := eq_ok_of_bind hsite
      obtain ⟨h, hhandle, -⟩ := eq_ok_of_map hobj
      obtain rfl := eq_object_of_ownerHandle hhandle
      rw [read_eq] at hread
      obtain ⟨place, hplace, hvalue⟩ := eq_ok_of_bind hread
      show ∀ p ∈ owner.reads frame, _
      rw [reads_eq, located_eq hplace]
      intro p hp
      rcases List.mem_append.mp hp with hp | hp
      · exact ih hplace p hp
      · cases place with
        | binding name => cases hp
        | slot o f =>
          obtain rfl := List.mem_singleton.mp hp
          exact ⟨h, eq_ok_of_mapError hvalue⟩
  | _ =>
    intro p hp
    cases hp

/-- The slot that an assignment writes is read to evaluate the owner of the field. -/
def FeedsBack (frame : Frame γ) (e : Expr) : Prop :=
  ∃ site, e.locate frame = .ok site ∧ ∃ p ∈ e.ownerReads frame, site.IsReadBy p

/-- The place of a typed field is a slot of a declared field of this type. -/
theorem HasType.declares {t : ClassTable} {bindings : Bindings} {e : Expr} {ty : Ty}
    (h : HasType t.toUniverse bindings e ty) {owner : Option Handle} {f : Field}
    (hsite : e.locate frame = .ok (.slot owner f)) :
    t.Declares f ∧ ty = t.typeOf f.valueClass := by
  cases h with
  | binding => cases hsite
  | static hfind hres | qualified hfind hres =>
    have hslot := (StaticRef.locate_eq hres).symm.trans hsite
    obtain ⟨-, rfl⟩ := Site.slot.inj (Except.ok.inj hslot)
    obtain ⟨o, -, hf, -, hty⟩ := Universe.findStatic_eq_ok hfind
    exact ⟨ClassTable.declares_of_fieldOf hf, hty⟩
  | member _ hfind =>
    obtain ⟨w, -, hobj⟩ := eq_ok_of_bind hsite
    obtain ⟨hd, -, heq⟩ := eq_ok_of_map hobj
    obtain ⟨-, rfl⟩ := Site.slot.inj heq
    obtain ⟨o, -, hf, -, hty⟩ := Universe.findMember_eq_ok hfind
    exact ⟨ClassTable.declares_of_fieldOf hf, hty⟩

end Expr

end Sites

/-! ### Typed fields over a populated heap -/

section Heaps

variable {t : ClassTable} {bindings : Bindings} {frame : Frame Heap} {e : Expr} {ty : Ty}

/-- What is read from a typed field is of its type. -/
theorem Expr.HasType.holds_of_read (ht : t.WellFormed) (hs : t.Sound frame.objects)
    (h : HasType t.toUniverse bindings e ty) (hfield : e.isBinding = false) {w : Value}
    (hread : e.read frame = .ok w) : frame.objects.Holds ty w := by
  obtain ⟨owner, f, hsite, hat⟩ := readAt_of_read hread hfield
  obtain ⟨hf, rfl⟩ := h.declares hsite
  obtain ⟨s, hslot, rfl⟩ := Heap.exists_slotAt_of_readAt hat
  obtain ⟨hty, hholds⟩ := hs.slotAt_typed ht hf hslot
  rwa [hty] at hholds

/-- **A field of a primitive type does not feed back**: the slots that are read for an owner hold
references. -/
theorem Expr.HasType.not_feedsBack (ht : t.WellFormed) (hs : t.Sound frame.objects)
    (h : HasType t.toUniverse bindings e ty) {k : Kind} (hk : ty.kind? = some k) :
    ¬ e.FeedsBack frame := by
  rintro ⟨site, hsite, p, hp, hreads⟩
  cases site with
  | binding name => exact hreads
  | slot owner f =>
    obtain ⟨howner, hsame⟩ := hreads
    obtain ⟨hd, hat⟩ := readAt_of_mem_ownerReads hsite p hp
    obtain ⟨s, hslot, hvalue⟩ := Heap.exists_slotAt_of_readAt hat
    rw [howner, ← Heap.slotAt_congr hsame] at hslot
    obtain ⟨hf, rfl⟩ := h.declares hsite
    obtain ⟨hty, hholds⟩ := hs.slotAt_typed ht hf hslot
    have hkind : s.value.kind? = some k := by rw [hholds.kind?_eq, hty, hk]
    rw [hvalue] at hkind
    cases hkind

/-! ### Outcomes of assignments -/

theorem Frame.set?_of_isSome {name : String} (h : (frame.value? name).isSome) (v : Value) :
    frame.set? name v = some (frame.give name v) := by
  rw [Frame.value?, Std.HashMap.isSome_getElem?_eq_contains] at h
  rw [Frame.set?, if_pos h]

theorem Frame.set?_of_eq_none {name : String} (h : frame.value? name = none) (v : Value) :
    frame.set? name v = none := by
  have hcontains := Std.HashMap.isSome_getElem?_eq_contains (m := frame.values) (a := name)
  rw [Frame.value?] at h
  rw [h] at hcontains
  rw [Frame.set?, ← hcontains]
  rfl

theorem Frame.objects_of_set? {frame' : Frame Heap} {name : String} {v : Value}
    (h : frame.set? name v = some frame') : frame'.objects = frame.objects := by
  unfold Frame.set? at h
  split at h
  · rw [← Option.some.inj h, Frame.objects_give]
  · cases h

/-- The assignment is refused, and in place it has not changed anything. -/
def Expr.Refused (frame : Frame Heap) (e : Expr) (v : Value) : Prop :=
  ∃ err, e.assign frame v = .error err ∧
    ∀ inPlace : Frame Arena, inPlace.Represents frame →
      (e.update v).run inPlace = .error err inPlace

theorem Expr.refused_of_error {v : Value} {err : ExecuteError}
    (h : e.assign frame v = .error err) : e.Refused frame v := by
  refine ⟨err, h, fun inPlace hrep => ?_⟩
  have hsame := hrep.assign e v
  rw [h] at hsame
  rw [e.run_update]
  generalize e.assign inPlace v = out at hsame ⊢
  cases hsame
  rfl

/-- An assignment to a field stores the value that is converted to the type of the slot, and it is
read back unless it feeds back. -/
theorem Expr.exists_stored_of_assign {v w : Value} {frame' : Frame Heap}
    (h : e.assign frame v = .ok (w, frame')) (hfield : e.isBinding = false) :
    ∃ owner f old stored, e.locate frame = .ok (.slot owner f) ∧
      frame.objects.slotAt owner f = some old ∧ frame.objects.fit old.ty v = some stored ∧
      (¬ e.FeedsBack frame → e.read frame' = .ok stored) := by
  obtain ⟨inPlace, hrep⟩ : ∃ inPlace : Frame Arena, inPlace.Represents frame :=
    ⟨⟨frame.values, .ofHeap frame.objects⟩, rfl, Arena.represents_ofHeap frame.objects⟩
  have hlocate : e.locate frame = e.locate inPlace := locate_congr (hrep.sameAt _)
  have hreads : e.ownerReads frame = e.ownerReads inPlace := ownerReads_congr (hrep.sameAt _)
  have hsame := hrep.assign e v
  rw [h] at hsame
  generalize hplaced : e.assign inPlace v = out at hsame
  cases hsame with
  | @ok next _ hnext =>
    obtain ⟨w', inPlace'⟩ := next
    obtain ⟨-, hrep'⟩ := hnext
    obtain ⟨-, site, hsite, hwrite⟩ := assign_eq_ok.mp hplaced
    obtain ⟨stored, hwrote⟩ := Frame.exists_wrote_of_write hwrite
    have hback : ¬ e.FeedsBack frame → e.read frame' = .ok stored := by
      intro hnot
      rw [read_congr (hrep'.sameAt _)]
      refine hwrote.read hsite fun p hp hread => hnot ⟨site, hlocate.trans hsite, p, ?_, hread⟩
      rwa [hreads]
    obtain ⟨owner, f, rfl⟩ := exists_slot_of_locate hsite hfield
    cases hwrote with
    | slot hold _ hfit _ _ =>
      rw [hrep.objects.slotAt] at hold
      rw [Heap.fit_congr hrep.objects.objects] at hfit
      exact ⟨owner, f, _, stored, hlocate.trans hsite, hold, hfit, hback⟩

/-- Assignments keep heaps populated. -/
theorem Expr.populated_of_assign {installed : Bool} (hpop : t.Populated installed frame.objects)
    {v w : Value} {frame' : Frame Heap} (h : e.assign frame v = .ok (w, frame')) :
    t.Populated installed frame'.objects := by
  obtain ⟨-, site, -, hwrite⟩ := assign_eq_ok.mp h
  cases site with
  | binding name => rwa [Frame.objects_of_set? (Site.set?_of_write hwrite)]
  | slot owner f =>
    obtain ⟨objects, hset, rfl⟩ := Site.write_slot_eq_ok.mp hwrite
    cases owner with
    | none => exact hpop.setStatic hset
    | some hd => exact hpop.setField hset

/-! ### Assignments to checked expressions -/

namespace Expr

/-- What is read from a checked field is of its type. -/
theorem Checked.holds_of_read (he : Checked t.toUniverse bindings e ty) (ht : t.WellFormed)
    (hs : t.Sound frame.objects) (hfield : e.isBinding = false) {u : Value}
    (hread : e.read frame = .ok u) : frame.objects.Holds ty u := by
  obtain ⟨ty', hty', hderef⟩ := he.hasType
  rw [Heap.holds_congr hderef]
  exact hty'.holds_of_read ht hs hfield hread

theorem Checked.not_feedsBack (he : Checked t.toUniverse bindings e ty) (ht : t.WellFormed)
    (hs : t.Sound frame.objects) (hkind : ty.kind?.isSome) : ¬ e.FeedsBack frame := by
  obtain ⟨ty', hty', hderef⟩ := he.hasType
  obtain ⟨k, hk⟩ := Option.isSome_iff_exists.mp hkind
  rw [Ty.kind?, hderef] at hk
  exact hty'.not_feedsBack ht hs hk

/-- What an assignment stores in a checked field is the value converted to its type. -/
theorem Checked.exists_fit_of_assign (he : Checked t.toUniverse bindings e ty)
    (ht : t.WellFormed) (hs : t.Sound frame.objects) (hfield : e.isBinding = false)
    {v w : Value} {frame' : Frame Heap} (hassign : e.assign frame v = .ok (w, frame')) :
    ∃ stored, frame.objects.fit ty v = some stored ∧
      (¬ e.FeedsBack frame → e.read frame' = .ok stored) := by
  obtain ⟨ty', hty', hderef⟩ := he.hasType
  obtain ⟨owner, f, old, stored, hsite, hold, hfit, hback⟩ :=
    exists_stored_of_assign hassign hfield
  obtain ⟨hf, hdeclared⟩ := hty'.declares hsite
  obtain ⟨htype, -⟩ := hs.slotAt_typed ht hf hold
  rw [htype, ← hdeclared, Heap.fit_of_deref hderef.symm] at hfit
  exact ⟨stored, hfit, hback⟩

/-- A value that is not acceptable for a checked field is refused. -/
theorem Checked.refused (he : Checked t.toUniverse bindings e ty) (ht : t.WellFormed)
    (hs : t.Sound frame.objects) (hfield : e.isBinding = false) {v : Value}
    (hnot : ¬ frame.objects.Acceptable ty v) : e.Refused frame v := by
  cases hassign : e.assign frame v with
  | error err => exact refused_of_error hassign
  | ok next =>
    obtain ⟨stored, hfit, -⟩ := he.exists_fit_of_assign ht hs hfield hassign
    refine absurd ?_ hnot
    rw [← Heap.isSome_fit, hfit]
    rfl

/-- A binding takes any value as it is. -/
theorem assign_binding {name : String} (hvalue : (frame.value? name).isSome) (span : Span)
    (ty : Ty) (slot : Option Nat) (v : Value) :
    (binding name span ty slot).assign frame v = .ok (v, frame.give name v) ∧
      (binding name span ty slot).read (frame.give name v) = .ok v := by
  constructor
  · simp only [assign, store, Frame.set?_of_isSome hvalue]
    rfl
  · simp only [read, Frame.value?_give, if_true]

/-- A binding without a value is refused. -/
theorem refused_binding {name : String} (hnone : frame.value? name = none) (span : Span) (ty : Ty)
    (slot : Option Nat) (v : Value) : (binding name span ty slot).Refused frame v := by
  have herror : (binding name span ty slot).assign frame v =
      .error ⟨span, .unboundVariable name⟩ := by
    simp only [assign, store, Frame.set?_of_eq_none hnone]
    rfl
  exact refused_of_error herror

end Expr

/-- **An assignment to a field respects its type, and one to a binding does not look at it.**  Let a
heap be populated from a class table, and let an expression be checked.  After an assignment to a
field of an object or a class, what is read is of the type of the expression.  It is the value
converted to the type, if the type is primitive or if the assignment does not feed back.  A value
that is not acceptable for the type is refused, and nothing is stored.  An assignment to a binding
that has a value stores any value as it is, and changes no object; without a value the binding is
refused. -/
theorem assignment_typed (ht : t.Registered) {installed : Bool}
    (hpop : t.Populated installed frame.objects)
    (he : Expr.Checked t.toUniverse bindings e ty) (v : Value) :
    (e.isBinding = false →
      (∀ w frame', e.assign frame v = .ok (w, frame') → ∀ u, e.read frame' = .ok u →
        frame'.objects.Holds ty u ∧
          (ty.kind?.isSome ∨ ¬ e.FeedsBack frame → frame.objects.fit ty v = some u)) ∧
      (¬ frame.objects.Acceptable ty v → e.Refused frame v)) ∧
    ∀ name, e.locate frame = .ok (.binding name) →
      ((frame.value? name).isSome → ∃ frame', e.assign frame v = .ok (v, frame') ∧
        e.read frame' = .ok v ∧ frame'.objects = frame.objects) ∧
      (frame.value? name = none → e.Refused frame v) := by
  have hwf := ht.wellFormed
  have hsound := hpop.laidOut.toSound
  constructor
  · intro hfield
    refine ⟨fun w frame' hassign u hread => ⟨?_, fun hback => ?_⟩,
      he.refused hwf hsound hfield⟩
    · have hsound' := (Expr.populated_of_assign hpop hassign).laidOut.toSound
      exact he.holds_of_read hwf hsound' hfield hread
    · have hnot : ¬ e.FeedsBack frame := hback.elim (he.not_feedsBack hwf hsound) id
      obtain ⟨stored, hfit, hstored⟩ := he.exists_fit_of_assign hwf hsound hfield hassign
      rw [hfit, Except.ok.inj ((hstored hnot).symm.trans hread)]
  · intro name hsite
    obtain ⟨span, ty, slot, rfl⟩ := Expr.eq_binding_of_locate hsite
    refine ⟨fun hvalue => ?_, fun hnone => Expr.refused_binding hnone span ty slot v⟩
    obtain ⟨hassign, hread⟩ := Expr.assign_binding hvalue span ty slot v
    exact ⟨frame.give name v, hassign, hread, rfl⟩

end Heaps

namespace Totals

/-- Two bindings, for a node and for a sum. -/
def bindings : Bindings :=
  (Bindings.empty.declare "n" (.object LinkedList.nodeType)).declare "total" (.primitive .long)

/-- The sum is zero. -/
def frame : Frame Heap := LinkedList.frame.give "total" (.long 0)

/-- The sum. -/
def total : Expr := .binding "total" ⟨1, 1, 5⟩ (.primitive .long) (some 1)

/-- The count of the node. -/
def count : Expr :=
  .member (.binding "n" ⟨1, 1, 1⟩ (.object LinkedList.nodeType) (some 0)) "count" ⟨1, 1, 7⟩
    (some ⟨.instanceField ⟨"list.Node"⟩ "count" (.primitive .long), .primitive .long⟩)

theorem lookup_eq (name : String) :
    bindings.lookup name =
      if "total" = name then some ⟨"total", .primitive .long, 1⟩
      else LinkedList.bindings.lookup name := by
  rw [bindings, Bindings.lookup_declare]
  rfl

theorem typed : frame.Typed LinkedList.table bindings := by
  refine ⟨LinkedList.populated, fun name b hb => ?_⟩
  rw [lookup_eq] at hb
  split at hb
  · next hname =>
    obtain rfl := Option.some.inj hb
    exact ⟨.long 0, by rw [frame, Frame.value?_give, if_pos hname], rfl⟩
  · next hname =>
    obtain ⟨v, hv, hholds⟩ := LinkedList.typed.fits name b hb
    exact ⟨v, by rw [frame, Frame.value?_give, if_neg hname, hv], hholds⟩

theorem checked_total :
    Expr.Checked LinkedList.table.toUniverse bindings total (.primitive .long) := by
  refine ⟨.ofName "total" ⟨1, 1, 5⟩, total, .undefined, .ofName _ _, ?_, by rfl⟩
  rw [Expr.ofName, Expr.bind, lookup_eq, if_pos rfl]
  rfl

theorem checked_count :
    Expr.Checked LinkedList.table.toUniverse bindings count (.primitive .long) := by
  refine ⟨.path ["n"] "count" ⟨1, 1, 7⟩,
    .ofOwner (.binding "n" ⟨1, 1, 1⟩ (.object LinkedList.nodeType) (some 0)) "count" ⟨1, 1, 7⟩,
    .undefined, .path _ _ _, ?_, by rfl⟩
  rw [Expr.bind, lookup_eq, if_neg (by decide), LinkedList.lookup_eq, if_pos rfl]
  rfl

end Totals

/-- An `int` that is assigned to the count of a node is read as a `long`, and a `double` is
refused. -/
theorem assignment_typed_totals :
    (∀ w frame', Totals.count.assign Totals.frame (.int 5) = .ok (w, frame') →
      ∀ u, Totals.count.read frame' = .ok u → u = .long 5) ∧
    Totals.count.Refused Totals.frame (.double 0) := by
  have htyped := fun v => (assignment_typed LinkedList.registered Totals.typed.populated
    Totals.checked_count v).1 rfl
  refine ⟨fun w frame' hassign u hread => ?_, (htyped (.double 0)).2 fun hacc => ?_⟩
  · have hfit := ((htyped (.int 5)).1 w frame' hassign u hread).2 (Or.inl rfl)
    exact Option.some.inj (hfit.symm.trans rfl)
  · obtain ⟨source, hsource, hwidens⟩ := (Heap.acceptable_primitive rfl).mp hacc
    obtain rfl := Option.some.inj hsource
    exact absurd hwidens (by decide)

/-- **A binding that was declared as `long` becomes an `int`.**  It would remain a `long` if
assignments respected the types of all expressions. -/
theorem assignment_typed_fails_total :
    LinkedList.table.Registered ∧ Totals.frame.Typed LinkedList.table Totals.bindings ∧
      Expr.Checked LinkedList.table.toUniverse Totals.bindings Totals.total (.primitive .long) ∧
      ¬ ∀ v w frame', Totals.total.assign Totals.frame v = .ok (w, frame') →
        ∀ u, Totals.total.read frame' = .ok u → frame'.objects.Holds (.primitive .long) u := by
  refine ⟨LinkedList.registered, Totals.typed, Totals.checked_total, fun hholds => ?_⟩
  have hvalue : (Totals.frame.value? "total").isSome := by
    rw [Totals.frame, Frame.value?_give, if_pos rfl]
    rfl
  obtain ⟨hassign, hread⟩ :=
    Expr.assign_binding hvalue ⟨1, 1, 5⟩ (.primitive .long) (some 1) (.int 5)
  have hlong : (Value.int 5).kind? = some .long := hholds _ _ _ hassign _ hread
  exact absurd hlong (by decide)

end FieldPath
