import FieldPath.Path.Evaluation
import FieldPath.Proofs.ClassTable.Populated
import FieldPath.Proofs.Path.Typed

/-!
# Evaluation of typed expressions

An expression that was checked against a class table is evaluated in a frame whose objects were
populated from that table and whose values are of the types of the bindings.  It answers a value of
its type, or an owner on the way is null; nothing else can go wrong.  An assignment to a field may
also be refused, because the field is final or the value does not fit.  Whatever an assignment
does, the frame is again one of this kind, so all of this holds along every run.

## Main definitions

* `ClassTable.Names`, `Bindings.Over` — types and bindings that come from a table.
* `Frame.Fits` — every binding has a value of its type.
* `Frame.Typed` — a frame over a populated heap whose values fit.
* `Frame.Runs` — a frame after some assignments to fields.

## Main results

* `Expr.HasType.read`, `Expr.HasType.assign` — progress and preservation of one evaluation.
* `Frame.Runs.typed` — assignments keep a frame typed.
* `evaluation_sound` — **checked expressions evaluate as their types say, along every run.**
-/

namespace FieldPath

/-! ### Types, bindings and frames -/

/-- A type that is a class is the class of that name in the table. -/
def ClassTable.Names (t : ClassTable) (ty : Ty) : Prop :=
  ∀ o, ty.deref = .object o → t.objectType? o.name = some o

/-- The classes among the types of the bindings are those of the table. -/
def Bindings.Over (bindings : Bindings) (t : ClassTable) : Prop :=
  ∀ name b, bindings.lookup name = some b → t.Names b.ty

/-- Every binding has a value of its type. -/
def Frame.Fits (frame : Frame Heap) (bindings : Bindings) : Prop :=
  ∀ name b, bindings.lookup name = some b →
    ∃ v, frame.value? name = some v ∧ frame.objects.Holds b.ty v

/-- The objects were populated from the table, and the values are of the types of the bindings. -/
structure Frame.Typed (frame : Frame Heap) (t : ClassTable) (bindings : Bindings) : Prop where
  /-- The heap is populated, and the fields of classes are installed. -/
  populated : t.Populated true frame.objects
  /-- Every binding has a value of its type. -/
  fits : frame.Fits bindings

/-- The expression is a binding, and so not a field of any kind. -/
def Expr.isBinding : Expr → Bool
  | .binding _ _ _ _ => true
  | _ => false

/-- The frames that assignments to fields lead to.  The expressions are checked, the values are
any. -/
inductive Frame.Runs (u : Universe) (bindings : Bindings) (start : Frame Heap) :
    Frame Heap → Prop where
  /-- No assignment. -/
  | refl : Runs u bindings start start
  /-- One more assignment. -/
  | assign {frame frame' : Frame Heap} {e : Expr} {ty : Ty} {v w : Value} :
      Runs u bindings start frame → Expr.Checked u bindings e ty → e.isBinding = false →
      e.assign frame v = .ok (w, frame') → Runs u bindings start frame'

namespace ExecuteCause

/-- The owner of a field is null. -/
def isNullIndirection : ExecuteCause → Bool
  | .nullIndirection _ => true
  | _ => false

/-- A write is refused, for the flags of the field or for the value. -/
def isWriteRefusal : ExecuteCause → Bool
  | .accessDenied _ _ => true
  | .invalidValue _ _ => true
  | _ => false

/-- A write that the heap refuses for flags or value is reported as such. -/
theorem isWriteRefusal_ofWrite {f : Field} {e : AccessError}
    (h : (∃ field reason, e = .denied field reason) ∨
      ∃ field expected found, e = .invalidArgument field expected found) :
    (ofWrite f e).isWriteRefusal = true := by
  rcases h with ⟨field, reason, rfl⟩ | ⟨field, expected, found, rfl⟩ <;> rfl

end ExecuteCause

/-! ### Types of expressions over a table -/

section Tables

variable {t : ClassTable} {bindings : Bindings}

theorem ClassTable.names_typeOf (c : ValueClass) : t.Names (t.typeOf c) := by
  intro o ho
  cases c with
  | void => simp [ClassTable.typeOf] at ho
  | primitive k => simp [ClassTable.typeOf] at ho
  | named name =>
    simp only [ClassTable.typeOf] at ho
    split at ho
    · next o' ho' =>
      obtain rfl : o' = o := by simpa using ho
      rw [ClassTable.name_of_objectType? ho', ho']
    · simp at ho

/-- The type of an expression is a type of the table. -/
theorem Expr.HasType.names (hb : bindings.Over t) {e : Expr} {ty : Ty}
    (h : HasType t.toUniverse bindings e ty) : t.Names ty := by
  cases h with
  | binding hlookup => exact hb _ _ hlookup
  | static hfind _ =>
    obtain ⟨o, -, -, -, hty⟩ := Universe.findStatic_eq_ok hfind
    rw [hty]
    exact ClassTable.names_typeOf _
  | qualified hfind _ =>
    obtain ⟨o, -, -, -, hty⟩ := Universe.findStatic_eq_ok hfind
    rw [hty]
    exact ClassTable.names_typeOf _
  | member _ hfind =>
    obtain ⟨o, -, -, -, hty⟩ := Universe.findMember_eq_ok hfind
    rw [hty]
    exact ClassTable.names_typeOf _

end Tables

/-! ### Equations of evaluation -/

section Equations

variable {γ : Type} [ObjectGraph γ] {frame : Frame γ} {owner : Expr} {field : String} {span : Span}
  {found : ResolvedField}

theorem StaticRef.read_eq {r : StaticRef} (hres : r.resolved = some found) :
    r.read frame = (ObjectGraph.getStatic frame.objects found.field).mapError fun e =>
      ⟨r.span, .ofRead found.field e⟩ := by
  simp only [StaticRef.read, StaticRef.field?, hres]
  rfl

theorem StaticRef.assign_eq {r : StaticRef} (hres : r.resolved = some found) (v : Value) :
    r.assign frame v =
      ((ObjectGraph.setStatic frame.objects found.field v).mapError fun e =>
        ⟨r.span, .ofWrite found.field e⟩).map fun objects => { frame with objects := objects } := by
  simp only [StaticRef.assign, StaticRef.field?, hres]
  show ((ObjectGraph.setStatic frame.objects found.field v).mapError _).bind _ = _
  cases ObjectGraph.setStatic frame.objects found.field v <;> rfl

namespace Expr

theorem read_member_of_error {err : ExecuteError} (h : owner.read frame = .error err) :
    (Expr.member owner field span (some found)).read frame = .error err := by
  simp only [read, h]
  rfl

theorem read_member_of_ok {v : Value} (h : owner.read frame = .ok v) :
    (Expr.member owner field span (some found)).read frame =
      (ownerHandle (owner.text ++ "." ++ field) span found.field v).bind fun hd =>
        (ObjectGraph.getField frame.objects hd found.field).mapError fun e =>
          ⟨span, .ofRead found.field e⟩ := by
  simp only [read, h]
  rfl

theorem store_member_of_error {err : ExecuteError} {v : Value}
    (h : owner.read frame = .error err) :
    (Expr.member owner field span (some found)).store frame v = .error err := by
  simp only [store, h]
  rfl

theorem store_member_of_ok {v w : Value} (h : owner.read frame = .ok w) :
    (Expr.member owner field span (some found)).store frame v =
      (ownerHandle (owner.text ++ "." ++ field) span found.field w).bind fun hd =>
        ((ObjectGraph.setField frame.objects hd found.field v).mapError fun e =>
          ⟨span, .ofWrite found.field e⟩).map fun objects => { frame with objects := objects } := by
  simp only [store, h]
  cases w with
  | object hd => cases hs : ObjectGraph.setField frame.objects hd found.field v <;> rfl
  | _ => rfl

end Expr

end Equations

/-! ### Evaluation over a populated heap -/

/-- A value of a class is null or a live object that may stand for the class. -/
theorem Heap.holds_object {heap : Heap} {ty : Ty} {o : ObjectType} {v : Value}
    (hty : ty.deref = .object o) (h : heap.Holds ty v) :
    v = .null ∨ ∃ hd obj, v = .object hd ∧ heap.get hd = some obj ∧ o.accepts obj.type = true := by
  unfold Heap.Holds at h
  rw [hty] at h
  cases v with
  | null => exact Or.inl rfl
  | object hd =>
    obtain ⟨c, hc, hacc⟩ := h
    obtain ⟨obj, hobj, rfl⟩ := Option.map_eq_some_iff.mp hc
    exact Or.inr ⟨hd, obj, rfl, hobj, hacc⟩
  | _ => exact h.elim

section Heaps

variable {t : ClassTable} {bindings : Bindings} {frame : Frame Heap}

/-- A field of a class that was found can be read, and its value is of its type. -/
theorem StaticRef.read_sound (ht : t.WellFormed) (hl : t.LaidOut true frame.objects)
    {r : StaticRef} {found : ResolvedField} (hfind : t.toUniverse.findStatic r = .ok found)
    (hres : r.resolved = some found) :
    ∃ v, r.read frame = .ok v ∧ frame.objects.Holds found.ty v := by
  obtain ⟨o, -, hfield, hstatic, hty⟩ := Universe.findStatic_eq_ok hfind
  obtain ⟨s, hslot, hsty, hholds⟩ := hl.exists_static ht hfield hstatic
  have hget : frame.objects.getStatic found.field = .ok s.value := by
    simp only [Heap.getStatic, hslot]
  refine ⟨s.value, ?_, ?_⟩
  · rw [read_eq hres]
    show (frame.objects.getStatic found.field).mapError _ = _
    rw [hget]
    rfl
  · rw [hsty] at hholds
    rw [hty]
    exact hholds

/-- A field of a class that was found can be written, but for its flags and for the value. -/
theorem StaticRef.assign_sound (ht : t.WellFormed) (hl : t.LaidOut true frame.objects)
    {r : StaticRef} {found : ResolvedField} (hfind : t.toUniverse.findStatic r = .ok found)
    (hres : r.resolved = some found) (v : Value) :
    (∃ heap, frame.objects.setStatic found.field v = .ok heap ∧
      r.assign frame v = .ok { frame with objects := heap }) ∨
      ∃ err, r.assign frame v = .error err ∧ err.cause.isWriteRefusal = true := by
  obtain ⟨o, -, hfield, hstatic, -⟩ := Universe.findStatic_eq_ok hfind
  obtain ⟨s, hslot, -, -⟩ := hl.exists_static ht hfield hstatic
  rw [assign_eq hres]
  show (∃ heap, _ ∧ ((frame.objects.setStatic found.field v).mapError _).map _ = _) ∨
    ∃ err, ((frame.objects.setStatic found.field v).mapError _).map _ = _ ∧ _
  cases hset : frame.objects.setStatic found.field v with
  | ok heap => exact Or.inl ⟨heap, rfl, rfl⟩
  | error e =>
    have hcause := Heap.setStatic_eq_error hset (Option.isSome_iff_exists.mpr ⟨s, hslot⟩)
    exact Or.inr ⟨_, rfl, ExecuteCause.isWriteRefusal_ofWrite hcause⟩

namespace Expr

/-- **A typed expression reads as a value of its type, or a null owner is in the way.** -/
theorem HasType.read (ht : t.WellFormed) (hash : t.HashesApart) (hb : bindings.Over t)
    (hl : t.LaidOut true frame.objects) (hf : frame.Fits bindings) {e : Expr} {ty : Ty}
    (h : HasType t.toUniverse bindings e ty) :
    (∃ v, e.read frame = .ok v ∧ frame.objects.Holds ty v) ∨
      ∃ err, e.read frame = .error err ∧ err.cause.isNullIndirection = true := by
  induction h with
  | @binding name span b hlookup =>
    obtain ⟨v, hv, hholds⟩ := hf name b hlookup
    exact Or.inl ⟨v, by simp only [Expr.read, hv], hholds⟩
  | static hfind hres => exact Or.inl (StaticRef.read_sound ht hl hfind hres)
  | qualified hfind hres => exact Or.inl (StaticRef.read_sound ht hl hfind hres)
  | @member owner tyo field span found howner hfind ih =>
    obtain ⟨o, ho, hfield, hinst, hty⟩ := Universe.findMember_eq_ok hfind
    rcases ih with ⟨v, hv, hholds⟩ | ⟨err, herr, hnull⟩
    · rw [read_member_of_ok hv]
      -- an owner that is not null is a live object, and its class has the field
      rcases Heap.holds_object ho hholds with rfl | ⟨hd, obj, rfl, hget, hacc⟩
      · exact Or.inr ⟨_, rfl, rfl⟩
      · obtain ⟨s, hslot, hsty, hheld⟩ :=
          hl.exists_slot ht hash (howner.names hb o ho) hfield hinst hget hacc
        have hread : frame.objects.getField hd found.field = .ok s.value := by
          simp only [Heap.getField, hget, hslot]
        rw [hsty] at hheld
        refine Or.inl ⟨s.value, ?_, by rw [hty]; exact hheld⟩
        show (frame.objects.getField hd found.field).mapError _ = _
        rw [hread]
        rfl
    · exact Or.inr ⟨err, read_member_of_error herr, hnull⟩

/-- **An assignment to a typed field writes a field of an object or of a class**, or a null owner
is in the way, or the write is refused for the flags of the field or for the value. -/
theorem HasType.store (ht : t.WellFormed) (hash : t.HashesApart) (hb : bindings.Over t)
    (hl : t.LaidOut true frame.objects) (hf : frame.Fits bindings) {e : Expr} {ty : Ty}
    (h : HasType t.toUniverse bindings e ty) (hfield : e.isBinding = false) (v : Value) :
    (∃ heap f, (frame.objects.setStatic f v = .ok heap ∨
        ∃ hd, frame.objects.setField hd f v = .ok heap) ∧
      e.store frame v = .ok { frame with objects := heap }) ∨
      ∃ err, e.store frame v = .error err ∧
        (err.cause.isNullIndirection = true ∨ err.cause.isWriteRefusal = true) := by
  cases h with
  | binding _ => simp [isBinding] at hfield
  | @static r found hfind hres =>
    rcases StaticRef.assign_sound ht hl hfind hres v with ⟨heap, hset, hok⟩ | ⟨err, herr, hcause⟩
    · exact Or.inl ⟨heap, found.field, Or.inl hset, hok⟩
    · exact Or.inr ⟨err, herr, Or.inr hcause⟩
  | @qualified target field span found hfind hres =>
    rcases StaticRef.assign_sound ht hl hfind hres v with ⟨heap, hset, hok⟩ | ⟨err, herr, hcause⟩
    · exact Or.inl ⟨heap, found.field, Or.inl hset, hok⟩
    · exact Or.inr ⟨err, herr, Or.inr hcause⟩
  | @member owner tyo field span found howner hfind =>
    obtain ⟨o, ho, hfound, hinst, -⟩ := Universe.findMember_eq_ok hfind
    rcases howner.read ht hash hb hl hf with ⟨w, hw, hholds⟩ | ⟨err, herr, hnull⟩
    · rw [store_member_of_ok hw]
      rcases Heap.holds_object ho hholds with rfl | ⟨hd, obj, rfl, hget, hacc⟩
      · exact Or.inr ⟨_, rfl, Or.inl rfl⟩
      · obtain ⟨s, hslot, -, -⟩ :=
          hl.exists_slot ht hash (howner.names hb o ho) hfound hinst hget hacc
        show (∃ heap f, _ ∧ ((frame.objects.setField hd found.field v).mapError _).map _ = _) ∨
          ∃ err, ((frame.objects.setField hd found.field v).mapError _).map _ = _ ∧ _
        cases hset : frame.objects.setField hd found.field v with
        | ok heap => exact Or.inl ⟨heap, found.field, Or.inr ⟨hd, hset⟩, rfl⟩
        | error e =>
          have hcause := Heap.setField_eq_error hset hget (Option.isSome_iff_exists.mpr ⟨s, hslot⟩)
          exact Or.inr ⟨_, rfl, Or.inr (ExecuteCause.isWriteRefusal_ofWrite hcause)⟩
    · exact Or.inr ⟨err, store_member_of_error herr, Or.inl hnull⟩

end Expr

/-! ### Assignments keep frames typed -/

theorem Frame.Typed.write (hf : frame.Typed t bindings) {heap : Heap} {f : Field}
    {v : Value} (hset : frame.objects.setStatic f v = .ok heap ∨
      ∃ hd, frame.objects.setField hd f v = .ok heap) :
    Frame.Typed { frame with objects := heap } t bindings := by
  have hkeeps : frame.objects.KeepsClasses heap := by
    rcases hset with hset | ⟨hd, hset⟩
    · exact Heap.keepsClasses_of_eq (Heap.classOf_setStatic hset)
    · exact Heap.keepsClasses_of_eq (Heap.classOf_setField hset)
  refine ⟨?_, fun name b hb => ?_⟩
  · rcases hset with hset | ⟨hd, hset⟩
    · exact hf.populated.setStatic hset
    · exact hf.populated.setField hset
  · -- the values of bindings are not written, and the objects they name keep their classes
    obtain ⟨w, hw, hholds⟩ := hf.fits name b hb
    exact ⟨w, hw, hholds.mono hkeeps⟩

/-- **An assignment to a typed field answers the value and keeps the frame typed**, or a null owner
is in the way, or the write is refused for the flags of the field or for the value. -/
theorem Expr.HasType.assign (ht : t.Registered) (hash : t.HashesApart) (hb : bindings.Over t)
    (hf : frame.Typed t bindings) {e : Expr} {ty : Ty} (h : HasType t.toUniverse bindings e ty)
    (hfield : e.isBinding = false) (v : Value) :
    (∃ frame', e.assign frame v = .ok (v, frame') ∧ frame'.values = frame.values ∧
        frame'.Typed t bindings) ∨
      ∃ err, e.assign frame v = .error err ∧
        (err.cause.isNullIndirection = true ∨ err.cause.isWriteRefusal = true) := by
  unfold Expr.assign
  rcases h.store ht.wellFormed hash hb hf.populated.laidOut hf.fits hfield v with
    ⟨heap, f, hset, hok⟩ | ⟨err, herr, hcause⟩
  · exact Or.inl ⟨{ frame with objects := heap }, by rw [hok]; rfl, rfl, hf.write hset⟩
  · exact Or.inr ⟨err, by rw [herr]; rfl, hcause⟩

/-- Assignments to fields keep a frame typed, however many there are. -/
theorem Frame.Runs.typed (ht : t.Registered) (hash : t.HashesApart) (hb : bindings.Over t)
    {start : Frame Heap} (hstart : start.Typed t bindings)
    (hruns : start.Runs t.toUniverse bindings frame) : frame.Typed t bindings := by
  induction hruns with
  | refl => exact hstart
  | @assign frame frame' e ty v w _ he hfield hassign ih =>
    obtain ⟨ty', hty', -⟩ := he.hasType
    rcases hty'.assign ht hash hb ih hfield v with ⟨final, hok, -, hfinal⟩ | ⟨err, herr, -⟩
    · rw [hok] at hassign
      obtain ⟨-, rfl⟩ := Prod.mk.inj (Except.ok.inj hassign)
      exact hfinal
    · rw [herr] at hassign
      simp at hassign

/-- **Checked expressions evaluate as their types say, along every run.**  After any assignments to
checked fields the frame is still typed.  A checked expression then reads as a value of its type,
or an owner is null; and an assignment of any value to a checked field answers the value and leaves
a typed frame with the same bindings, or an owner is null, or the write is refused for the flags of
the field or for the value. -/
theorem evaluation_sound (ht : t.Registered) (hash : t.HashesApart) (hb : bindings.Over t)
    {start : Frame Heap} (hstart : start.Typed t bindings)
    (hruns : start.Runs t.toUniverse bindings frame) {e : Expr} {ty : Ty}
    (he : Expr.Checked t.toUniverse bindings e ty) :
    frame.Typed t bindings ∧
      ((∃ v, e.read frame = .ok v ∧ frame.objects.Holds ty v) ∨
        ∃ err, e.read frame = .error err ∧ err.cause.isNullIndirection = true) ∧
      (e.isBinding = false → ∀ v,
        (∃ frame', e.assign frame v = .ok (v, frame') ∧ frame'.values = frame.values ∧
            frame'.Typed t bindings) ∨
          ∃ err, e.assign frame v = .error err ∧
            (err.cause.isNullIndirection = true ∨ err.cause.isWriteRefusal = true)) := by
  have hf := hruns.typed ht hash hb hstart
  obtain ⟨ty', hty', heq⟩ := he.hasType
  refine ⟨hf, ?_, fun hfield v => hty'.assign ht hash hb hf hfield v⟩
  rcases hty'.read ht.wellFormed hash hb hf.populated.laidOut hf.fits with ⟨v, hv, hholds⟩ | herr
  · exact Or.inl ⟨v, hv, (Heap.holds_congr heq).mpr hholds⟩
  · exact Or.inr herr

end Heaps

/-! ### A linked list -/

namespace LinkedList

/-- A class of list nodes, with a field for the first node of all. -/
def node : ClassDecl :=
  ((({ name := ⟨"list.Node"⟩ } : ClassDecl).withField
    (.instanceField ⟨"list.Node"⟩ "next" (.named ⟨"list.Node"⟩)) none).withField
    (.instanceField ⟨"list.Node"⟩ "count" (.primitive .long)) none).withField
    (.staticField ⟨"list.Node"⟩ "first" (.named ⟨"list.Node"⟩)) none

/-- The table with the class of nodes. -/
def table : ClassTable := { decls := [node] }

/-- The class of nodes. -/
def nodeType : ObjectType := ⟨⟨"list.Node"⟩, []⟩

/-- A heap with the field of the class. -/
def classHeap : Heap := (table.installStatics .empty).2

/-- A heap with one node. -/
def heap : Heap := (table.instantiate classHeap ⟨"list.Node"⟩).2

/-- One binding, for a node. -/
def bindings : Bindings := Bindings.empty.declare "n" (.object nodeType)

/-- The node is the value of the binding. -/
def frame : Frame Heap := (Frame.ofGraph heap).give "n" (.object ⟨0, 0⟩)

/-- The node. -/
def head : Expr := .binding "n" ⟨1, 1, 1⟩ (.object nodeType) (some 0)

/-- The field with the next node. -/
def nextField : Field := .instanceField ⟨"list.Node"⟩ "next" (.named ⟨"list.Node"⟩)

/-- The next node of the binding. -/
def next : Expr := .member head "next" ⟨1, 1, 6⟩ (some ⟨nextField, .object nodeType⟩)

theorem built_node : node.Built :=
  .withField _ _ (.withField _ _ (.withField _ _ (.ofName _)))

theorem registered : table.Registered := .register (.empty {}) built_node (by rfl)

theorem hashesApart : table.HashesApart := by
  intro a b ha hb _
  obtain ⟨d, hd, rfl⟩ := ClassTable.contains_iff.mp ha
  obtain ⟨e, he, rfl⟩ := ClassTable.contains_iff.mp hb
  rw [List.mem_singleton.mp hd, List.mem_singleton.mp he]

theorem lookup_eq (name : String) :
    bindings.lookup name = if "n" = name then some ⟨"n", .object nodeType, 0⟩ else none := by
  rw [bindings, Bindings.lookup_declare, Bindings.lookup_empty, Bindings.slotCount_empty]

theorem bindings_over : bindings.Over table := by
  intro name b hb
  rw [lookup_eq] at hb
  split at hb
  · obtain rfl := Option.some.inj hb
    intro o ho
    obtain rfl := Ty.object.inj ho
    rfl
  · simp at hb

theorem populated : table.Populated true heap := by
  have hstatics : table.installStatics .empty = (.ok (), classHeap) := by rfl
  have hinst : table.instantiate classHeap ⟨"list.Node"⟩ = (.ok ⟨0, 0⟩, heap) := by rfl
  exact .instantiate (.installStatics .empty hstatics) hinst

theorem typed : frame.Typed table bindings := by
  refine ⟨populated, fun name b hb => ?_⟩
  rw [lookup_eq] at hb
  split at hb
  · next hname =>
    obtain rfl := Option.some.inj hb
    refine ⟨.object ⟨0, 0⟩, by rw [frame, Frame.value?_give, if_pos hname], nodeType, by rfl, ?_⟩
    exact ObjectType.accepts_self _
  · simp at hb

theorem checked : Expr.Checked table.toUniverse bindings next (.object nodeType) := by
  refine ⟨.path ["n"] "next" ⟨1, 1, 6⟩,
    .ofOwner (.binding "n" ⟨1, 1, 1⟩ (.object nodeType) (some 0)) "next" ⟨1, 1, 6⟩, .undefined,
    .path _ _ _, ?_, by rfl⟩
  rw [Expr.bind, lookup_eq, if_pos rfl]
  rfl

theorem read_head : head.read frame = .ok (.object ⟨0, 0⟩) := by
  rw [head, Expr.read, frame, Frame.value?_give, if_pos rfl]

/-- The node can be made the next one of itself. -/
theorem exists_assign :
    ∃ frame', next.assign frame (.object ⟨0, 0⟩) = .ok (.object ⟨0, 0⟩, frame') := by
  have hok :
      (ObjectGraph.setField frame.objects ⟨0, 0⟩ nextField (.object ⟨0, 0⟩)).isOk = true := by
    decide +kernel
  cases hset : ObjectGraph.setField frame.objects ⟨0, 0⟩ nextField (.object ⟨0, 0⟩) with
  | error e =>
    rw [hset] at hok
    cases hok
  | ok heap' =>
    refine ⟨{ frame with objects := heap' }, ?_⟩
    rw [next, Expr.assign, Expr.store, read_head]
    simp only [bind, Except.bind, ownerHandle, hset, Except.mapError, Except.map]

end LinkedList

open LinkedList in
/-- After the node is made the next one of itself, its next node can be read, and any value can be
assigned to it or is refused. -/
theorem evaluation_sound_linkedList : ∃ frame',
    next.assign frame (.object ⟨0, 0⟩) = .ok (.object ⟨0, 0⟩, frame') ∧
    frame'.Typed table bindings ∧
    ((∃ v, next.read frame' = .ok v ∧ frame'.objects.Holds (.object nodeType) v) ∨
      ∃ err, next.read frame' = .error err ∧ err.cause.isNullIndirection = true) ∧
    ∀ v,
      (∃ final, next.assign frame' v = .ok (v, final) ∧ final.values = frame'.values ∧
          final.Typed table bindings) ∨
        ∃ err, next.assign frame' v = .error err ∧
          (err.cause.isNullIndirection = true ∨ err.cause.isWriteRefusal = true) := by
  obtain ⟨frame', hassign⟩ := exists_assign
  have hruns : frame.Runs table.toUniverse bindings frame' := .assign .refl checked rfl hassign
  obtain ⟨htyped, hread, hwrite⟩ :=
    evaluation_sound registered hashesApart bindings_over typed hruns checked
  exact ⟨frame', hassign, htyped, hread, hwrite rfl⟩

end FieldPath
