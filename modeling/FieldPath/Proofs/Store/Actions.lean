import FieldPath.ClassTable.Registry
import FieldPath.Proofs.Store.Runs
import FieldPath.Rule

/-!
# Actions on heaps

Beside the operations of a heap, a program lays out objects and the fields of classes, reads and
assigns expressions, and evaluates rules.  Whatever it does is a run of operations: a layout is a
run of definitions that stops at the first refusal, an assignment is at most one write, and the
other actions do nothing.  So what runs keep, actions keep.

## Main definitions

* `HeapAction`, `Heap.act`, `Heap.acts` — what a program does with a heap, and the heap after it.
* `ClassTable.defined` — the fields that a layout defines.
* `HeapAction.Part` — the operations that an action may be made of.

## Main results

* `ClassTable.defineAll_eq_run` — a layout is a run of the definitions that are made.
* `Expr.objects_of_store` — an assignment writes one field, or changes no object.
* `Heap.exists_run` — **every action is a run of operations.**
-/

namespace FieldPath

/-! ### Layout -/

namespace ClassTable

/-- The listed fields that are defined: those before the first refusal. -/
def defined (t : ClassTable) (define : Heap → Field → Ty → Value → Except AccessError Heap) :
    List FieldDecl → Heap → List FieldDecl
  | [], _ => []
  | d :: rest, heap =>
      match define heap d.field (t.typeOf d.field.valueClass) (t.initialValue d) with
      | .error _ => []
      | .ok next => d :: t.defined define rest next

/-- **A layout is a run of the definitions that are made**, also if one is refused. -/
theorem defineAll_eq_run (t : ClassTable)
    (define : Heap → Field → Ty → Value → Except AccessError Heap) (op : FieldDecl → HeapOp)
    (hop : ∀ heap d next,
      define heap d.field (t.typeOf d.field.valueClass) (t.initialValue d) = .ok next →
        heap.step (op d) = next) :
    ∀ (fields : List FieldDecl) (heap : Heap),
      (t.defineAll define fields heap).2 = heap.run ((t.defined define fields heap).map op) := by
  intro fields
  induction fields with
  | nil => intro heap; rfl
  | cons d rest ih =>
    intro heap
    rw [defineAll, defined]
    cases hdef : define heap d.field (t.typeOf d.field.valueClass) (t.initialValue d) with
    | error e => rfl
    | ok next =>
      rw [List.map_cons, Heap.run_cons, hop heap d next hdef]
      exact ih next

/-- The heap after an object of a class is made. -/
theorem instantiate_snd (t : ClassTable) (heap : Heap) (name : ClassName) :
    (t.instantiate heap name).2 =
      match t.objectType? name with
      | none => heap
      | some o =>
          (t.defineAll (fun heap' => heap'.defineField (heap.allocate o).1)
            ((t.lineageDecls o).flatMap (·.instanceFields)) (heap.allocate o).2).2 := by
  unfold instantiate
  cases t.objectType? name <;> rfl

end ClassTable

/-! ### Assignments -/

section Assignments

variable {frame next : Frame Heap} {v : Value}

/-- An assignment to a field of a class writes it. -/
theorem StaticRef.objects_of_assign {r : StaticRef} (h : r.assign frame v = .ok next) :
    ∃ f, frame.objects.setStatic f v = .ok next.objects := by
  obtain ⟨f, -, hrest⟩ := eq_ok_of_bind h
  obtain ⟨objects, hset, hnext⟩ := eq_ok_of_bind hrest
  rw [← Except.ok.inj hnext]
  exact ⟨f, eq_ok_of_mapError hset⟩

/-- **An assignment writes one field of an object or of a class, or changes no object.** -/
theorem Expr.objects_of_store {e : Expr} (h : e.store frame v = .ok next) :
    next.objects = frame.objects ∨ (∃ h f, frame.objects.setField h f v = .ok next.objects) ∨
      ∃ f, frame.objects.setStatic f v = .ok next.objects := by
  cases e with
  | binding name span ty slot =>
    left
    rw [store, Frame.set?] at h
    split at h
    · next given hgiven =>
      split at hgiven
      · rw [← Except.ok.inj h, ← Option.some.inj hgiven, Frame.objects_give]
      · exact absurd hgiven nofun
    · exact absurd h nofun
  | static r => exact Or.inr (Or.inr (StaticRef.objects_of_assign h))
  | path segments field span => exact absurd h nofun
  | member owner field span resolved =>
    cases resolved with
    | none => exact absurd h nofun
    | some found =>
      obtain ⟨w, -, hrest⟩ := eq_ok_of_bind h
      obtain ⟨hd, -, hrest⟩ := eq_ok_of_bind hrest
      obtain ⟨objects, hset, hnext⟩ := eq_ok_of_bind hrest
      rw [← Except.ok.inj hnext]
      exact Or.inr (Or.inl ⟨hd, found.field, eq_ok_of_mapError hset⟩)
  | qualified target field span resolved =>
    cases resolved with
    | none => exact absurd h nofun
    | some found => exact Or.inr (Or.inr (StaticRef.objects_of_assign h))

end Assignments

/-! ### Actions -/

/-- What a program does with a heap.  The expressions and the rule of an action are evaluated with
any values of their bindings, and classes are laid out by any table. -/
inductive HeapAction where
  /-- One of the operations of the heap. -/
  | operate (op : HeapOp)
  /-- An object is made with all its fields. -/
  | instantiate (t : ClassTable) (name : ClassName)
  /-- The fields of all classes are defined, in an order of the classes. -/
  | installStatics (t : ClassTable) (order : List ClassDecl → List ClassDecl)
  /-- An expression is read. -/
  | read (values : Std.HashMap String Value) (e : Expr)
  /-- A value is stored through an expression. -/
  | assign (values : Std.HashMap String Value) (e : Expr) (v : Value)
  /-- The expressions that a rule reads are read. -/
  | evaluate (values : Std.HashMap String Value) (rule : PreparedRule)

namespace Heap

/-- The heap after an action.  An assignment that is refused leaves it as it was. -/
def act (heap : Heap) : HeapAction → Heap
  | .operate op => heap.step op
  | .instantiate t name => (t.instantiate heap name).2
  | .installStatics t order => (t.defineAll defineStatic (t.staticsIn order) heap).2
  | .read _ _ | .evaluate _ _ => heap
  | .assign values e v =>
      match e.assign ⟨values, heap⟩ v with
      | .ok (_, frame) => frame.objects
      | .error _ => heap

/-- The heap after some actions, one after the other. -/
def acts (heap : Heap) (actions : List HeapAction) : Heap := actions.foldl act heap

end Heap

/-- The operations that an action on a heap may be made of. -/
inductive HeapAction.Part (heap : Heap) : HeapAction → HeapOp → Prop where
  /-- An operation is made of itself. -/
  | operate (op : HeapOp) : Part heap (.operate op) op
  /-- A new object is allocated. -/
  | allocate {t : ClassTable} {name : ClassName} (o : ObjectType) :
      Part heap (.instantiate t name) (.allocate o)
  /-- The fields of the new object are defined. -/
  | defineField {t : ClassTable} {name : ClassName} (o : ObjectType) (f : Field) (ty : Ty)
      (v : Value) : Part heap (.instantiate t name) (.defineField (heap.allocate o).1 f ty v)
  /-- The fields of classes are defined, up to the first refusal. -/
  | defineStatic {t : ClassTable} {order : List ClassDecl → List ClassDecl} {d : FieldDecl}
      (hd : d ∈ t.defined Heap.defineStatic (t.staticsIn order) heap) (ty : Ty) (v : Value) :
      Part heap (.installStatics t order) (.defineStatic d.field ty v)
  /-- A field of an object is assigned. -/
  | setField {values : Std.HashMap String Value} {e : Expr} {v : Value} (h : Handle) (f : Field) :
      Part heap (.assign values e v) (.setField h f v)
  /-- A field of a class is assigned. -/
  | setStatic {values : Std.HashMap String Value} {e : Expr} {v : Value} (f : Field) :
      Part heap (.assign values e v) (.setStatic f v)

namespace Heap

/-- **Every action is a run of operations.** -/
theorem exists_run (heap : Heap) (action : HeapAction) :
    ∃ ops, heap.act action = heap.run ops ∧ ∀ op ∈ ops, action.Part heap op := by
  cases action with
  | operate op =>
    refine ⟨[op], rfl, fun op' hop => ?_⟩
    rw [List.mem_singleton.mp hop]
    exact .operate op
  | instantiate t name =>
    rw [act, ClassTable.instantiate_snd]
    cases t.objectType? name with
    | none => exact ⟨[], rfl, by simp⟩
    | some o =>
      have hlayout := t.defineAll_eq_run (fun heap' => heap'.defineField (heap.allocate o).1)
        (fun d => .defineField (heap.allocate o).1 d.field (t.typeOf d.field.valueClass)
          (t.initialValue d))
        (fun heap' _ _ hdef => congrArg heap'.settle hdef)
        ((t.lineageDecls o).flatMap (·.instanceFields)) (heap.allocate o).2
      refine ⟨.allocate o :: _, hlayout, fun op hop => ?_⟩
      rcases List.mem_cons.mp hop with rfl | hop
      · exact .allocate o
      · obtain ⟨d, -, rfl⟩ := List.mem_map.mp hop
        exact .defineField o d.field _ _
  | installStatics t order =>
    have hlayout := t.defineAll_eq_run defineStatic
      (fun d => .defineStatic d.field (t.typeOf d.field.valueClass) (t.initialValue d))
      (fun heap' _ _ hdef => congrArg heap'.settle hdef) (t.staticsIn order) heap
    refine ⟨_, hlayout, fun op hop => ?_⟩
    obtain ⟨d, hd, rfl⟩ := List.mem_map.mp hop
    exact .defineStatic hd _ _
  | read values e => exact ⟨[], rfl, by simp⟩
  | evaluate values rule => exact ⟨[], rfl, by simp⟩
  | assign values e v =>
    rw [act]
    split
    · next frame hassign =>
      obtain ⟨stored, hstore, heq⟩ := eq_ok_of_map hassign
      obtain rfl : stored = frame := congrArg Prod.snd heq
      rcases Expr.objects_of_store hstore with hsame | ⟨h, f, hset⟩ | ⟨f, hset⟩
      · exact ⟨[], hsame, by simp⟩
      · exact ⟨[.setField h f v], (congrArg heap.settle hset).symm, by simpa using .setField h f⟩
      · exact ⟨[.setStatic f v], (congrArg heap.settle hset).symm, by simpa using .setStatic f⟩
    · exact ⟨[], rfl, by simp⟩

/-- Every action keeps heaps tidy. -/
theorem Tidy.act {heap : Heap} (ht : heap.Tidy) (action : HeapAction) : (heap.act action).Tidy := by
  obtain ⟨ops, hrun, -⟩ := heap.exists_run action
  rw [hrun]
  exact ht.run ops

theorem Tidy.acts {heap : Heap} (ht : heap.Tidy) (actions : List HeapAction) :
    (heap.acts actions).Tidy := by
  induction actions generalizing heap with
  | nil => exact ht
  | cons action rest ih => exact ih (ht.act action)

end Heap

end FieldPath
