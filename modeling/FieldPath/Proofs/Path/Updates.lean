import FieldPath.Path.Update
import FieldPath.Proofs.Path.Soundness
import FieldPath.Proofs.Store.Atomicity

/-!
# Assignments write one place

An expression names a binding or the slot of a field.  To find the slot the owner of the field is
evaluated, and that reads slots on its way; then the slot is read or written.  So the evaluation of
an expression depends on nothing but the values of bindings and what is in the slots that it reads,
and an assignment changes nothing but the place that the expression names.  If the same expression
is read afterwards, its place is found anew.  It is the same one, with the value that was stored,
unless the slot that was written is one of those that are read for the owner.

## Main definitions

* `Site` — a place that can be read and written.
* `Expr.locate` — the place that an expression names.
* `Expr.reads`, `Expr.ownerReads` — the slots that are read to evaluate an expression or its owner.
* `Frame.Wrote` — one place of a frame was written, and nothing else was changed.

## Main results

* `Expr.read_eq`, `Expr.store_eq` — **an expression is evaluated by finding its place.**
* `Expr.locate_congr` — the place depends on the slots that are read for the owner.
* `Expr.assign_eq_ok` — an assignment writes the place of its expression.
* `Expr.run_update` — an assignment in place does what `Expr.assign` does, or nothing.
* `Frame.Wrote.read` — what was written is read back.
* `assignment_writes_one_place` — **an assignment writes one place or nothing, and is read back.**
-/

namespace FieldPath

/-! ### Places -/

/-- A place that can be read and written. -/
inductive Site where
  /-- The value of a binding. -/
  | binding (name : String)
  /-- The slot of a field of an object, or of a class if no object is named. -/
  | slot (owner : Option Handle) (field : Field)
  deriving DecidableEq

/-- The slots of a place: a binding has none. -/
def Site.slots : Site → List (Option Handle × Field)
  | .binding _ => []
  | .slot owner f => [(owner, f)]

/-- The place is the slot that is read for a field. -/
def Site.IsReadBy : Site → Option Handle × Field → Prop
  | .binding _, _ => False
  | .slot owner f, p => p.1 = owner ∧ f.sameAs p.2 = true

section Graphs

variable {γ : Type} [ObjectGraph γ]

/-- The value of a field of an object, or of a class if no object is named. -/
def ObjectGraph.readAt (g : γ) (owner : Option Handle) (f : Field) : Except AccessError Value :=
  match owner with
  | some h => ObjectGraph.getField g h f
  | none => ObjectGraph.getStatic g f

/-- The graph after a write to a field of an object, or of a class if no object is named. -/
def ObjectGraph.writeAt (g : γ) (owner : Option Handle) (f : Field) (v : Value) :
    Except AccessError γ :=
  match owner with
  | some h => ObjectGraph.setField g h f v
  | none => ObjectGraph.setStatic g f v

namespace Site

/-- The value in a place.  The span is for the messages. -/
def read (frame : Frame γ) (span : Span) : Site → Except ExecuteError Value
  | .binding name =>
      match frame.value? name with
      | some v => .ok v
      | none => .error ⟨span, .unboundVariable name⟩
  | .slot owner f =>
      (ObjectGraph.readAt frame.objects owner f).mapError fun e => ⟨span, .ofRead f e⟩

/-- The frame after a value is stored in a place. -/
def write (frame : Frame γ) (span : Span) (v : Value) : Site → Except ExecuteError (Frame γ)
  | .binding name =>
      match frame.set? name v with
      | some frame => .ok frame
      | none => .error ⟨span, .unboundVariable name⟩
  | .slot owner f =>
      ((ObjectGraph.writeAt frame.objects owner f v).mapError fun e =>
        ⟨span, .ofWrite f e⟩).map fun objects => { frame with objects := objects }

end Site

/-- The slot of a field of a class. -/
def StaticRef.locate (r : StaticRef) : Except ExecuteError Site := r.field?.map (.slot none ·)

namespace Expr

/-- The place that an expression names.  Its owner is evaluated to find it. -/
def locate (frame : Frame γ) : Expr → Except ExecuteError Site
  | .binding name _ _ _ => .ok (.binding name)
  | .static r => r.locate
  | .qualified target _ _ (some _) => target.locate
  | .member owner name span (some found) =>
      (owner.read frame).bind fun w =>
        (ownerHandle (owner.text ++ "." ++ name) span found.field w).map fun h =>
          .slot (some h) found.field
  | e => .error ⟨e.span, .unresolved e.text⟩

/-- The position of an access to the place. -/
def accessSpan : Expr → Span
  | .qualified target _ _ _ => target.span
  | e => e.span

/-- The slots of the place that is found. -/
def located (frame : Frame γ) (e : Expr) : List (Option Handle × Field) :=
  match e.locate frame with
  | .ok site => site.slots
  | .error _ => []

/-- The slots that are read to evaluate an expression, in the order in which they are read. -/
def reads (frame : Frame γ) : Expr → List (Option Handle × Field)
  | .member owner name span (some found) =>
      owner.reads frame ++ located frame (.member owner name span (some found))
  | e => located frame e

/-- The slots that are read to evaluate the owner of a field. -/
def ownerReads (frame : Frame γ) : Expr → List (Option Handle × Field)
  | .member owner _ _ (some _) => owner.reads frame
  | _ => []

end Expr

/-! ### Evaluation by place -/

variable {frame : Frame γ}

theorem StaticRef.locate_eq {r : StaticRef} {found : ResolvedField}
    (hres : r.resolved = some found) : r.locate = .ok (.slot none found.field) := by
  rw [locate, field?, hres]
  rfl

theorem StaticRef.read_eq_locate (r : StaticRef) :
    r.read frame = r.locate.bind (Site.read frame r.span) := by
  cases hres : r.resolved with
  | none =>
    simp only [read, locate, field?, hres]
    rfl
  | some found =>
    rw [read_eq hres, locate_eq hres]
    rfl

theorem StaticRef.assign_eq_locate (r : StaticRef) (v : Value) :
    r.assign frame v = r.locate.bind (Site.write frame r.span v) := by
  cases hres : r.resolved with
  | none =>
    simp only [assign, locate, field?, hres]
    rfl
  | some found =>
    rw [assign_eq hres, locate_eq hres]
    rfl

namespace Expr

/-- **An expression is read by finding its place.** -/
theorem read_eq (e : Expr) :
    e.read frame = (e.locate frame).bind (Site.read frame e.accessSpan) := by
  cases e with
  | binding name span ty slot => rfl
  | static r => exact r.read_eq_locate
  | path segments field span => rfl
  | qualified target field span found =>
    cases found with
    | none => rfl
    | some found => exact target.read_eq_locate
  | member owner field span found =>
    cases found with
    | none => rfl
    | some found =>
      simp only [locate]
      cases hread : owner.read frame with
      | error err =>
        rw [read_member_of_error hread]
        rfl
      | ok w =>
        rw [read_member_of_ok hread]
        cases w <;> rfl

/-- **It is assigned by finding its place, too.** -/
theorem store_eq (e : Expr) (v : Value) :
    e.store frame v = (e.locate frame).bind (Site.write frame e.accessSpan v) := by
  cases e with
  | binding name span ty slot => rfl
  | static r => exact r.assign_eq_locate v
  | path segments field span => rfl
  | qualified target field span found =>
    cases found with
    | none => rfl
    | some found => exact target.assign_eq_locate v
  | member owner field span found =>
    cases found with
    | none => rfl
    | some found =>
      simp only [locate]
      cases hread : owner.read frame with
      | error err =>
        rw [store_member_of_error hread]
        rfl
      | ok w =>
        rw [store_member_of_ok hread]
        cases w <;> rfl

/-- The last slot that is read is the one that the expression names. -/
theorem reads_eq (e : Expr) : e.reads frame = e.ownerReads frame ++ e.located frame := by
  cases e with
  | member owner field span found => cases found <;> rfl
  | _ => rfl

theorem located_eq {e : Expr} {site : Site} (h : e.locate frame = .ok site) :
    e.located frame = site.slots := by
  rw [located, h]

/-- Only a binding names a binding. -/
theorem eq_binding_of_locate {e : Expr} {name : String}
    (h : e.locate frame = .ok (.binding name)) :
    ∃ span ty slot, e = .binding name span ty slot := by
  have hstatic : ∀ r : StaticRef, r.locate ≠ .ok (.binding name) := by
    intro r hr
    obtain ⟨f, -, heq⟩ := eq_ok_of_map hr
    cases heq
  cases e with
  | binding other span ty slot =>
    obtain rfl := Site.binding.inj (Except.ok.inj h)
    exact ⟨span, ty, slot, rfl⟩
  | static r => exact absurd h (hstatic r)
  | path segments field span => cases h
  | qualified target field span found =>
    cases found with
    | none => cases h
    | some found => exact absurd h (hstatic target)
  | member owner field span found =>
    cases found with
    | none => cases h
    | some found =>
      obtain ⟨w, -, hobj⟩ := eq_ok_of_bind h
      obtain ⟨hd, -, heq⟩ := eq_ok_of_map hobj
      cases heq

end Expr

end Graphs

/-! ### What is read -/

section Reads

variable {γ γ' : Type} [ObjectGraph γ] [ObjectGraph γ'] {frame : Frame γ} {frame' : Frame γ'}

/-- Two frames, perhaps over graphs of different kinds, have the same values for bindings and for
some fields. -/
structure Frame.SameAt (frame : Frame γ) (frame' : Frame γ')
    (fields : List (Option Handle × Field)) : Prop where
  /-- The bindings. -/
  value? : ∀ name, frame'.value? name = frame.value? name
  /-- The fields. -/
  readAt : ∀ p ∈ fields,
    ObjectGraph.readAt frame'.objects p.1 p.2 = ObjectGraph.readAt frame.objects p.1 p.2

theorem Frame.sameAt_append {fields more : List (Option Handle × Field)} :
    frame.SameAt frame' (fields ++ more) ↔
      frame.SameAt frame' fields ∧ frame.SameAt frame' more := by
  constructor
  · intro h
    exact ⟨⟨h.value?, fun p hp => h.readAt p (List.mem_append_left _ hp)⟩,
      ⟨h.value?, fun p hp => h.readAt p (List.mem_append_right _ hp)⟩⟩
  · rintro ⟨h, hmore⟩
    exact ⟨h.value?, fun p hp => (List.mem_append.mp hp).elim (h.readAt p) (hmore.readAt p)⟩

theorem Frame.SameAt.symm {fields : List (Option Handle × Field)}
    (h : frame.SameAt frame' fields) : frame'.SameAt frame fields :=
  ⟨fun name => (h.value? name).symm, fun p hp => (h.readAt p hp).symm⟩

theorem Site.read_congr {site : Site} {span : Span} (h : frame.SameAt frame' site.slots) :
    site.read frame' span = site.read frame span := by
  cases site with
  | binding name => simp only [read, h.value?]
  | slot owner f =>
    have hat := h.readAt (owner, f) (List.mem_singleton.mpr rfl)
    simp only [read, hat]

namespace Expr

theorem read_congr_of_locate {e : Expr} (hlocate : e.locate frame' = e.locate frame)
    (h : frame.SameAt frame' (e.located frame)) : e.read frame' = e.read frame := by
  rw [read_eq, read_eq, hlocate]
  cases hsite : e.locate frame with
  | error err => rfl
  | ok site =>
    rw [located_eq hsite] at h
    exact Site.read_congr h

/-- **The place depends on the slots that are read for the owner.** -/
theorem locate_congr {e : Expr} (h : frame.SameAt frame' (e.ownerReads frame)) :
    e.locate frame' = e.locate frame := by
  induction e with
  | binding name span ty slot => rfl
  | static r => rfl
  | path segments field span => rfl
  | qualified target field span found => cases found <;> rfl
  | member owner field span found ih =>
    cases found with
    | none => rfl
    | some found =>
      -- the owner is found again by the hypothesis on it, then the slot of it is read
      have howner : frame.SameAt frame' (owner.reads frame) := h
      rw [reads_eq, Frame.sameAt_append] at howner
      have hread := read_congr_of_locate (ih howner.1) howner.2
      simp only [locate, hread]

/-- **An expression reads its slots and no other.** -/
theorem read_congr {e : Expr} (h : frame.SameAt frame' (e.reads frame)) :
    e.read frame' = e.read frame := by
  rw [reads_eq, Frame.sameAt_append] at h
  exact read_congr_of_locate (locate_congr h.1) h.2

/-- The slots that are read for the owner are the same, too. -/
theorem ownerReads_congr {e : Expr} (h : frame.SameAt frame' (e.ownerReads frame)) :
    e.ownerReads frame' = e.ownerReads frame := by
  induction e with
  | member owner field span found ih =>
    cases found with
    | none => rfl
    | some found =>
      have howner : frame.SameAt frame' (owner.reads frame) := h
      rw [reads_eq, Frame.sameAt_append] at howner
      show owner.reads frame' = owner.reads frame
      rw [reads_eq, reads_eq, ih howner.1, located, located, locate_congr howner.1]
  | _ => rfl

end Expr

end Reads

/-! ### What is written -/

section Writes

variable {γ : Type} [ObjectGraph γ] {frame frame' : Frame γ} {v : Value}

namespace Site

theorem set?_of_write {name : String} {span : Span}
    (h : (binding name).write frame span v = .ok frame') : frame.set? name v = some frame' := by
  cases hset : frame.set? name v with
  | none => simp [write, hset] at h
  | some next =>
    simp only [write, hset] at h
    rw [Except.ok.inj h]

theorem write_slot_eq_ok {owner : Option Handle} {f : Field} {span : Span} :
    (slot owner f).write frame span v = .ok frame' ↔
      ∃ objects, ObjectGraph.writeAt frame.objects owner f v = .ok objects ∧
        { frame with objects := objects } = frame' := by
  constructor
  · intro h
    obtain ⟨objects, hwrite, heq⟩ := eq_ok_of_map h
    exact ⟨objects, eq_ok_of_mapError hwrite, heq⟩
  · rintro ⟨objects, hwrite, rfl⟩
    simp only [write, hwrite]
    rfl

end Site

/-- **An assignment writes the place of its expression.** -/
theorem Expr.assign_eq_ok {e : Expr} {w : Value} :
    e.assign frame v = .ok (w, frame') ↔
      w = v ∧ ∃ site, e.locate frame = .ok site ∧
        site.write frame e.accessSpan v = .ok frame' := by
  rw [assign, store_eq]
  constructor
  · intro h
    obtain ⟨next, hstore, heq⟩ := eq_ok_of_map h
    obtain ⟨rfl, rfl⟩ := Prod.mk.inj heq
    exact ⟨rfl, eq_ok_of_bind hstore⟩
  · rintro ⟨rfl, site, hsite, hwrite⟩
    rw [hsite, Except.bind, hwrite]
    rfl

end Writes

/-! ### Arenas -/

namespace SlotOp

/-- The write to a field of an object, or of a class if no object is named. -/
def write (owner : Option Handle) (f : Field) (v : Value) : SlotOp :=
  match owner with
  | some h => .setField h f v
  | none => .setStatic f v

@[simp] theorem owner?_write (owner : Option Handle) (f : Field) (v : Value) :
    (write owner f v).owner? = owner := by cases owner <;> rfl

@[simp] theorem field_write (owner : Option Handle) (f : Field) (v : Value) :
    (write owner f v).field = f := by cases owner <;> rfl

@[simp] theorem value_write (owner : Option Handle) (f : Field) (v : Value) :
    (write owner f v).value = v := by cases owner <;> rfl

theorem target?_write (slotAt : Option Handle → Field → Option Slot) (owner : Option Handle)
    (f : Field) (v : Value) :
    (write owner f v).target? slotAt = (slotAt owner f).filter (!·.flags.isFinal) := by
  cases owner <;> rfl

end SlotOp

namespace Arena

theorem readAt_eq (a : Arena) (owner : Option Handle) (f : Field) :
    ObjectGraph.readAt a owner f = a.read owner f := by cases owner <;> rfl

theorem writeAt_eq (a : Arena) (owner : Option Handle) (f : Field) (v : Value) :
    ObjectGraph.writeAt a owner f v = outcome ((SlotOp.write owner f v).edit.run a) := by
  cases owner <;> rfl

/-- A write that succeeds writes the slot of its field, which is not final. -/
theorem onlyWrote_of_writeAt {a a' : Arena} {owner : Option Handle} {f : Field} {v : Value}
    (h : ObjectGraph.writeAt a owner f v = .ok a') :
    ∃ old stored, a.slotAt owner f = some old ∧ old.flags.isFinal = false ∧
      a.objects.fit old.ty v = some stored ∧
      a.OnlyWrote owner f { old with value := stored } a' := by
  rw [writeAt_eq] at h
  have hdoes := (SlotOp.write owner f v).does_edit a
  generalize (SlotOp.write owner f v).edit.run a = out at h hdoes
  cases hdoes with
  | stored hslot =>
    have honly := onlyWrote_put hslot.owned hslot.isFor
    obtain ⟨old, stored, htarget, hfit, rfl⟩ := hslot.filled
    rw [SlotOp.target?_write] at htarget
    obtain ⟨hold, hfinal⟩ := Option.filter_eq_some_iff.mp htarget
    obtain rfl := Except.ok.inj h
    simp only [SlotOp.owner?_write, SlotOp.field_write, SlotOp.value_write] at hfit honly ⊢
    exact ⟨old, stored, hold, by simpa using hfinal, hfit, honly⟩
  | unfit => cases h
  | stale => cases h
  | missing => cases h
  | final => cases h

end Arena

/-! ### Frames -/

/-- One place of a frame was written, and nothing else was changed.  A binding has the value as it
is, a slot has it converted to its type. -/
inductive Frame.Wrote (frame : Frame Arena) (v : Value) : Site → Value → Frame Arena → Prop
  /-- A binding, which had a value. -/
  | binding {name : String} {frame' : Frame Arena} : (frame.value? name).isSome →
      (∀ other, frame'.value? other = if name = other then some v else frame.value? other) →
      frame'.objects = frame.objects → Wrote frame v (.binding name) v frame'
  /-- A slot, which was there and is not final. -/
  | slot {owner : Option Handle} {f : Field} {old : Slot} {stored : Value}
      {frame' : Frame Arena} : frame.objects.slotAt owner f = some old →
      old.flags.isFinal = false → frame.objects.objects.fit old.ty v = some stored →
      frame.objects.OnlyWrote owner f { old with value := stored } frame'.objects →
      frame'.values = frame.values → Wrote frame v (.slot owner f) stored frame'

namespace Frame

variable {frame frame' : Frame Arena} {v : Value}

theorem wrote_of_set? {name : String} (h : frame.set? name v = some frame') :
    frame.Wrote v (.binding name) v frame' := by
  unfold Frame.set? at h
  split at h
  · next hname =>
    obtain rfl := Option.some.inj h
    refine .binding ?_ (fun other => frame.value?_give name other v) rfl
    rwa [Frame.value?, Std.HashMap.isSome_getElem?_eq_contains]
  · cases h

theorem exists_wrote_of_write {site : Site} {span : Span}
    (h : site.write frame span v = .ok frame') : ∃ stored, frame.Wrote v site stored frame' := by
  cases site with
  | binding name => exact ⟨v, wrote_of_set? (Site.set?_of_write h)⟩
  | slot owner f =>
    obtain ⟨objects, hwrite, rfl⟩ := Site.write_slot_eq_ok.mp h
    obtain ⟨old, stored, hold, hfinal, hfit, honly⟩ := Arena.onlyWrote_of_writeAt hwrite
    exact ⟨stored, .slot hold hfinal hfit honly rfl⟩

/-- A frame of which one slot was written is the same in all others. -/
theorem sameAt_of_onlyWrote {owner : Option Handle} {f : Field} {slot : Slot}
    (honly : frame.objects.OnlyWrote owner f slot frame'.objects)
    (hvalues : frame'.values = frame.values) {fields : List (Option Handle × Field)}
    (hfields : ∀ p ∈ fields, ¬ (Site.slot owner f).IsReadBy p) : frame.SameAt frame' fields := by
  refine ⟨fun name => by rw [Frame.value?, hvalues, Frame.value?], fun p hp => ?_⟩
  rw [Arena.readAt_eq, Arena.readAt_eq, honly.read]
  exact if_neg (hfields p hp)

namespace Wrote

variable {stored : Value} {site : Site} {e : Expr}

/-- The place has what was stored. -/
theorem read_site (h : frame.Wrote v site stored frame') (span : Span) :
    site.read frame' span = .ok stored := by
  cases h with
  | binding _ hvalues _ => simp only [Site.read, hvalues, if_true]
  | @slot owner f _ _ _ _ _ _ honly _ =>
    have hat : ObjectGraph.readAt frame'.objects owner f = .ok stored := by
      rw [Arena.readAt_eq, honly.read]
      exact if_pos ⟨rfl, by simp [Field.sameAs]⟩
    simp only [Site.read, hat]
    rfl

/-- The owner of a field is evaluated as before, if no slot that is read for it is the one that was
written. -/
theorem locate_eq (h : frame.Wrote v site stored frame') (hsite : e.locate frame = .ok site)
    (hreads : ∀ p ∈ e.ownerReads frame, ¬ site.IsReadBy p) : e.locate frame' = .ok site := by
  cases h with
  | binding =>
    obtain ⟨span, ty, slot, rfl⟩ := Expr.eq_binding_of_locate hsite
    rfl
  | slot _ _ _ honly hvalues =>
    rwa [Expr.locate_congr (sameAt_of_onlyWrote honly hvalues hreads)]

/-- **So what was written is read back.** -/
theorem read (h : frame.Wrote v site stored frame') (hsite : e.locate frame = .ok site)
    (hreads : ∀ p ∈ e.ownerReads frame, ¬ site.IsReadBy p) : e.read frame' = .ok stored := by
  rw [Expr.read_eq, h.locate_eq hsite hreads]
  exact h.read_site e.accessSpan

/-- It makes no difference whether the slots are those that are read before the write or after
it. -/
theorem ownerReads (h : frame.Wrote v site stored frame')
    (hreads : ∀ p ∈ e.ownerReads frame', ¬ site.IsReadBy p) :
    ∀ p ∈ e.ownerReads frame, ¬ site.IsReadBy p := by
  cases h with
  | binding => exact fun p _ hread => hread
  | slot _ _ _ honly hvalues =>
    have hsame := (sameAt_of_onlyWrote honly hvalues hreads).symm
    rwa [Expr.ownerReads_congr hsame]

end Wrote

end Frame

namespace Evaluation

variable {α : Type}

/-- An outcome as the result of steps: if it is an error, the frame is the one before the steps. -/
def settle (frame : Frame Arena) :
    Except ExecuteError (α × Frame Arena) → EStateM.Result ExecuteError (Frame Arena) α
  | .ok (w, frame') => .ok w frame'
  | .error err => .error err frame

/-- What steps lead to if they succeed. -/
def outcome :
    EStateM.Result ExecuteError (Frame Arena) α → Except ExecuteError (α × Frame Arena)
  | .ok w frame' => .ok (w, frame')
  | .error err _ => .error err

@[simp] theorem outcome_settle (frame : Frame Arena)
    (out : Except ExecuteError (α × Frame Arena)) : outcome (settle frame out) = out := by
  cases out <;> rfl

/-- An operation on a slot is a step that does not change the frame if it is refused. -/
theorem run_onObjects (op : SlotOp) (fail : AccessError → ExecuteError) (frame : Frame Arena) :
    (onObjects op.edit fail).run frame =
      settle frame (((Arena.outcome (op.edit.run frame.objects)).mapError fail).map
        fun objects => ((), { frame with objects := objects })) := by
  have hdoes := op.does_edit frame.objects
  simp only [onObjects, EStateM.run] at hdoes ⊢
  generalize op.edit frame.objects = out at hdoes ⊢
  cases hdoes <;> rfl

/-- A write that is the last step before the value is returned. -/
theorem run_write (owner : Option Handle) (f : Field) (v : Value)
    (fail : AccessError → ExecuteError) (frame : Frame Arena) :
    (onObjects (SlotOp.write owner f v).edit fail >>= fun _ => pure v).run frame =
      settle frame ((((ObjectGraph.writeAt frame.objects owner f v).mapError fail).map
        fun objects => { frame with objects := objects }).map fun frame' => (v, frame')) := by
  rw [EStateM.run_bind, run_onObjects, Arena.writeAt_eq]
  generalize Arena.outcome ((SlotOp.write owner f v).edit.run frame.objects) = out
  cases out <;> rfl

end Evaluation

theorem StaticRef.run_update (r : StaticRef) (v : Value) (frame : Frame Arena) :
    (r.update v).run frame =
      Evaluation.settle frame ((r.assign frame v).map fun frame' => (v, frame')) := by
  cases hres : r.resolved with
  | none =>
    simp only [StaticRef.update, StaticRef.assign, StaticRef.field?, hres]
    rfl
  | some found =>
    have hfield : r.field? = .ok found.field := by rw [StaticRef.field?, hres]
    rw [StaticRef.update, hfield, StaticRef.assign_eq hres]
    exact Evaluation.run_write none found.field v _ frame

/-- **An assignment in place does what an assignment does, or nothing.** -/
theorem Expr.run_update (frame : Frame Arena) (e : Expr) (v : Value) :
    (e.update v).run frame = Evaluation.settle frame (e.assign frame v) := by
  cases e with
  | binding name span ty slot =>
    simp only [update, assign, store]
    rw [EStateM.run_bind, EStateM.run_get]
    simp only
    cases frame.set? name v <;> rfl
  | static r => exact r.run_update v frame
  | path segments field span => rfl
  | qualified target field span found =>
    cases found with
    | none => rfl
    | some found => exact target.run_update v frame
  | member owner field span found =>
    cases found with
    | none => rfl
    | some found =>
      simp only [update, assign]
      rw [EStateM.run_bind, EStateM.run_get]
      simp only
      cases hread : owner.read frame with
      | error err =>
        rw [store_member_of_error hread]
        rfl
      | ok w =>
        rw [store_member_of_ok hread]
        cases w with
        | object hd => exact Evaluation.run_write (some hd) found.field v _ frame
        | _ => rfl

/-! ### Frames over heaps -/

theorem Arena.Represents.readAt {a : Arena} {heap : Heap} (hrep : a.Represents heap)
    (owner : Option Handle) (f : Field) :
    ObjectGraph.readAt heap owner f = ObjectGraph.readAt a owner f := by
  cases owner with
  | none =>
    have hslot := hrep.staticSlot? f
    show heap.getStatic f = a.getStatic f
    unfold Heap.getStatic Arena.getStatic
    cases hs : heap.statics.slot? f <;> simp only [hslot.trans hs]
  | some h =>
    show heap.getField h f = a.objects.getField h f
    rw [Heap.getField, Heap.getField, Heap.get_congr hrep.objects]

theorem Arena.Represents.writeAt {a : Arena} {heap : Heap} (hrep : a.Represents heap)
    (owner : Option Handle) (f : Field) (v : Value) :
    SameOutcome Arena.Represents (ObjectGraph.writeAt a owner f v)
      (ObjectGraph.writeAt heap owner f v) := by
  rw [Arena.writeAt_eq]
  have hsame := hrep.edit (SlotOp.write owner f v)
  cases owner <;> exact hsame

/-- A frame over an arena has the bindings of a frame over a heap, and the arena represents the
heap. -/
structure Frame.Represents (frame : Frame Arena) (frame' : Frame Heap) : Prop where
  /-- The bindings. -/
  values : frame'.values = frame.values
  /-- The objects. -/
  objects : frame.objects.Represents frame'.objects

namespace Frame.Represents

variable {frame : Frame Arena} {frame' : Frame Heap}

theorem sameAt (hrep : frame.Represents frame') (fields : List (Option Handle × Field)) :
    frame.SameAt frame' fields :=
  ⟨fun name => by rw [Frame.value?, hrep.values, Frame.value?],
    fun p _ => hrep.objects.readAt p.1 p.2⟩

theorem write (hrep : frame.Represents frame') (site : Site) (span : Span) (v : Value) :
    SameOutcome Frame.Represents (site.write frame span v) (site.write frame' span v) := by
  cases site with
  | binding name =>
    simp only [Site.write, Frame.set?, hrep.values]
    cases frame.values.contains name with
    | true =>
      have hgive : (frame.give name v).Represents (frame'.give name v) :=
        ⟨by rw [Frame.give, Frame.give, hrep.values], hrep.objects⟩
      exact .ok hgive
    | false => exact .error
  | slot owner f =>
    exact ((hrep.objects.writeAt owner f v).mapError _).map fun _ _ hobjects =>
      ⟨hrep.values, hobjects⟩

/-- **An assignment does the same to a frame over an arena and to the frame over a heap.** -/
theorem assign (hrep : frame.Represents frame') (e : Expr) (v : Value) :
    SameOutcome (fun p q => p.1 = q.1 ∧ p.2.Represents q.2) (e.assign frame v)
      (e.assign frame' v) := by
  have hstore : SameOutcome Frame.Represents (e.store frame v) (e.store frame' v) := by
    rw [Expr.store_eq, Expr.store_eq, Expr.locate_congr (hrep.sameAt _)]
    cases e.locate frame with
    | error err => exact .error
    | ok site => exact hrep.write site e.accessSpan v
  exact hstore.map fun _ _ hstored => ⟨rfl, hstored⟩

end Frame.Represents

/-- **An assignment writes one place or nothing, and is read back.**  If it is refused, the frame is
as it was.  If it succeeds, its result is the value, and it has written the place of its expression
alone: a binding has the value, or the slot of a field has it converted to its type.  Unless this
slot was read to evaluate the owner of the field, whether before the write or after it, the
expression now reads as what was stored.  An assignment in a frame over a heap that the arena
represents has the same outcome. -/
theorem assignment_writes_one_place (frame : Frame Arena) (e : Expr) (v : Value) :
    (match (e.update v).run frame with
      | .error _ frame' => frame' = frame
      | .ok w frame' => w = v ∧ ∃ site stored, e.locate frame = .ok site ∧
          frame.Wrote v site stored frame' ∧
          ((∀ p ∈ e.ownerReads frame, ¬ site.IsReadBy p) ∨
              (∀ p ∈ e.ownerReads frame', ¬ site.IsReadBy p) →
            e.read frame' = .ok stored)) ∧
    ∀ frame' : Frame Heap, frame.Represents frame' →
      SameOutcome (fun p q => p.1 = q.1 ∧ p.2.Represents q.2)
        (Evaluation.outcome ((e.update v).run frame)) (e.assign frame' v) := by
  rw [e.run_update, Evaluation.outcome_settle]
  refine ⟨?_, fun frame' hrep => hrep.assign e v⟩
  cases hassign : e.assign frame v with
  | error err => rfl
  | ok next =>
    obtain ⟨w, frame'⟩ := next
    obtain ⟨rfl, site, hsite, hwrite⟩ := Expr.assign_eq_ok.mp hassign
    obtain ⟨stored, hwrote⟩ := Frame.exists_wrote_of_write hwrite
    refine ⟨rfl, site, stored, hsite, hwrote, fun hreads => hwrote.read hsite ?_⟩
    exact hreads.elim id hwrote.ownerReads

namespace LinkedList

/-- The frame with the node, over an arena. -/
def inPlace : Frame Arena := ⟨frame.values, .ofHeap frame.objects⟩

theorem represents_inPlace : inPlace.Represents frame := ⟨rfl, Arena.represents_ofHeap _⟩

/-- The expression for the next node names a slot of the node. -/
theorem locate_next : next.locate frame = .ok (.slot (some ⟨0, 0⟩) nextField) := by
  show (head.read frame).bind _ = _
  rw [read_head]
  rfl

end LinkedList

/-- A node is made the next one of itself, and is read as such. -/
theorem assignment_writes_one_place_linkedList :
    ∃ frame' stored,
      (LinkedList.next.update (.object ⟨0, 0⟩)).run LinkedList.inPlace =
        .ok (.object ⟨0, 0⟩) frame' ∧
      LinkedList.inPlace.Wrote (.object ⟨0, 0⟩) (.slot (some ⟨0, 0⟩) LinkedList.nextField) stored
        frame' ∧
      LinkedList.next.read frame' = .ok stored := by
  obtain ⟨hwrites, hrepresented⟩ :=
    assignment_writes_one_place LinkedList.inPlace LinkedList.next (.object ⟨0, 0⟩)
  have hsame := hrepresented LinkedList.frame LinkedList.represents_inPlace
  obtain ⟨next, hassign⟩ := LinkedList.exists_assign
  rw [hassign] at hsame
  cases hrun : (LinkedList.next.update (.object ⟨0, 0⟩)).run LinkedList.inPlace with
  | error err frame' =>
    rw [hrun] at hsame
    cases hsame
  | ok w frame' =>
    rw [hrun] at hwrites
    obtain ⟨rfl, site, stored, hsite, hwrote, hread⟩ := hwrites
    have hreads : LinkedList.next.ownerReads LinkedList.inPlace = [] := rfl
    rw [← Expr.locate_congr (LinkedList.represents_inPlace.sameAt _),
      LinkedList.locate_next] at hsite
    obtain rfl := Except.ok.inj hsite
    exact ⟨frame', stored, rfl, hwrote, hread (Or.inl (by simp [hreads]))⟩

end FieldPath
