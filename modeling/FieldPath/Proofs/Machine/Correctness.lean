import FieldPath.Proofs.Machine.Linking
import FieldPath.Proofs.Path.Bindings
import FieldPath.Proofs.Path.Soundness

/-!
# Code and evaluation agree

The code of a typed expression is run over a heap that was populated from the class table, and may
have been written to and freed from since; the locals hold the values of the frame at the slots of
their bindings.  Then reading code pushes the words of the value that the expression reads as, and
assigning code, which finds the words of a value on the stack, leaves them there and makes the same
assignment.  Where evaluation fails, the code faults, for the same refusal or the same null owner.

The code that assigns has the width of its target built in, so it can only be run on a value of that
width.  A rearrangement of the stack is right because the owner is then a reference, which is one
word: this is where the heap must hold values of the form of their types.

## Main definitions

* `Locals.Mirror` — the locals hold the values of a frame.
* `Frame.Shaped` — the values of a frame have the form of their bindings' types.
* `ExecuteCause.fault` — the fault that goes with a failed evaluation.
* `Expr.fetch` — the value that the code of an expression pushes.

## Main results

* `Expr.HasType.means_compile` — the meaning of reading code, by induction on the owners.
* `Expr.HasType.fetch_eq` — it pushes what the expression reads as.
* `Expr.HasType.means_compileAssign` — the meaning of assigning code.
* `run_compiled` — **running compiled code is evaluating the expression.**
-/

namespace FieldPath

/-! ### Locals and frames -/

/-- The locals hold the value of every binding at its slot. -/
def Locals.Mirror {γ : Type} (locals : Locals) (bindings : Bindings) (frame : Frame γ) : Prop :=
  ∀ name b v, bindings.lookup name = some b → frame.value? name = some v →
    locals.load b.slot = some v

/-- Every binding has a value of the form of its type. -/
def Frame.Shaped {γ : Type} (frame : Frame γ) (bindings : Bindings) : Prop :=
  ∀ name b, bindings.lookup name = some b →
    ∃ v, frame.value? name = some v ∧ b.ty.Shapes v

/-- A value of the form of a type is as wide as the type. -/
theorem Ty.Shapes.width_eq {ty : Ty} {v : Value} (h : ty.Shapes v) : v.width = ty.width := by
  rw [← Ty.width_deref ty]
  unfold Ty.Shapes at h
  unfold Value.width
  split at h
  · next k hk => rw [h, hk]
  · next o ho => rw [h, ho]; rfl
  · next hu => rw [h, hu]; rfl
  · exact h.elim

/-- The fault that goes with a failed evaluation. -/
def ExecuteCause.fault : ExecuteCause → Fault
  | .nullIndirection _ => .nullOwner
  | .accessDenied _ source => .refused source
  | .invalidValue _ source => .refused source
  | .unexpectedAccess _ source => .refused source
  | .unboundVariable _ => .stuck
  | .unexpectedOwner _ _ => .stuck
  | .unresolved _ => .stuck

@[simp] theorem ExecuteCause.fault_ofRead (f : Field) (e : AccessError) :
    (ofRead f e).fault = .refused e := by cases e <;> rfl

@[simp] theorem ExecuteCause.fault_ofWrite (f : Field) (e : AccessError) :
    (ofWrite f e).fault = .refused e := by cases e <;> rfl

/-- A failed evaluation as a fault. -/
def ExecuteError.fault (e : ExecuteError) : Fault := e.cause.fault

theorem mapError_ownerHandle (text : String) (span : Span) (f : Field) (v : Value) :
    (ownerHandle text span f v).mapError ExecuteError.fault = Machine.ownerOf v := by
  cases v <;> rfl

/-! ### Reading code -/

section Reading

variable {γ : Type} [ObjectGraph γ]

/-- The value of a field of a class, as code finds it. -/
def StaticRef.fetch (m : Machine γ) (r : StaticRef) : Except Fault Value :=
  match r.resolved with
  | some found => (ObjectGraph.getStatic m.objects found.field).mapError .refused
  | none => .error .stuck

/-- The value of an expression, as its code finds it. -/
def Expr.fetch (m : Machine γ) : Expr → Except Fault Value
  | .binding _ _ _ (some slot) =>
      match m.locals.load slot with
      | some v => .ok v
      | none => .error .stuck
  | .static r => r.fetch m
  | .qualified target _ _ (some _) => target.fetch m
  | .member owner _ _ (some found) =>
      (owner.fetch m).bind fun v => (Machine.ownerOf v).bind fun h =>
        (ObjectGraph.getField m.objects h found.field).mapError .refused
  | _ => .error .stuck

variable {t : ClassTable} {bindings : Bindings} {l : Loader}

theorem declares_of_findStatic {r : StaticRef} {found : ResolvedField}
    (h : t.toUniverse.findStatic r = .ok found) : t.Declares found.field := by
  obtain ⟨o, -, hf, -⟩ := Universe.findStatic_eq_ok h
  exact ClassTable.declares_of_fieldOf hf

theorem declares_of_findMember {ty : Ty} {field : String} {span : Span} {found : ResolvedField}
    (h : t.toUniverse.findMember ty field span = .ok found) : t.Declares found.field := by
  obtain ⟨o, -, hf, -⟩ := Universe.findMember_eq_ok h
  exact ClassTable.declares_of_fieldOf hf

theorem StaticRef.compile_eq {r : StaticRef} {found : ResolvedField}
    (hres : r.resolved = some found) :
    r.compile = (do
      let start ← Emit.mark
      Emit.getStatic found.field found.ty.width
      Emit.verify start (Emit.slots found.ty.width) "static field read") := by
  simp only [compile, forCode, hres]
  rfl

theorem StaticRef.means_compile {r : StaticRef} {found : ResolvedField}
    (hres : r.resolved = some found) (hlink : l.Links found.field) :
    Emit.Means l r.compile fun m : Machine γ => (r.fetch m).map m.push := by
  rw [compile_eq hres]
  refine (Emit.means_mark fun start =>
    (Emit.means_getStatic hlink _).before (Emit.means_verify _ _ _)).congr fun m => ?_
  simp only [StaticRef.fetch, hres, Machine.getStatic]

/-- **The code of a typed expression pushes the value that is found.** -/
theorem Expr.HasType.means_compile (hlinks : ∀ f, t.Declares f → l.Links f) {e : Expr} {ty : Ty}
    (h : HasType t.toUniverse bindings e ty) :
    Emit.Means l e.compile fun m : Machine γ => (e.fetch m).map m.push := by
  induction h with
  | @binding name span b _ =>
    refine ((Emit.means_setLine _).after (Emit.means_getLocal _ _)).congr fun m => ?_
    simp only [Expr.fetch, Machine.getLocal]
    cases m.locals.load b.slot <;> rfl
  | static hfind hres =>
    have hlink := hlinks _ (declares_of_findStatic hfind)
    exact (Emit.means_setLine _).after (StaticRef.means_compile hres hlink)
  | qualified hfind hres =>
    have hlink := hlinks _ (declares_of_findStatic hfind)
    exact (Emit.means_setLine _).after (StaticRef.means_compile hres hlink)
  | @member owner tyo field span found howner hfind ih =>
    have hlink := hlinks _ (declares_of_findMember hfind)
    refine ((Emit.means_setLine _).after (Emit.means_mark fun start =>
      ih.seq ((Emit.means_getField hlink _).before (Emit.means_verify _ _ _)))).congr fun m => ?_
    simp only [Expr.fetch]
    cases owner.fetch m with
    | error fault => rfl
    | ok v => exact Machine.getField_push found.field m v

theorem StaticRef.fetch_eq {r : StaticRef} {found : ResolvedField} (hres : r.resolved = some found)
    {frame : Frame γ} {m : Machine γ} (hobjects : m.objects = frame.objects) :
    r.fetch m = (r.read frame).mapError ExecuteError.fault := by
  rw [StaticRef.read_eq hres, mapError_mapError]
  simp only [StaticRef.fetch, hres, hobjects, ExecuteError.fault, ExecuteCause.fault_ofRead]

/-- **What the code of an expression finds is what the expression reads as.** -/
theorem Expr.HasType.fetch_eq {frame : Frame γ} {m : Machine γ}
    (hobjects : m.objects = frame.objects) (hlocals : m.locals.Mirror bindings frame)
    (hframe : frame.Shaped bindings) {e : Expr} {ty : Ty}
    (h : HasType t.toUniverse bindings e ty) :
    e.fetch m = (e.read frame).mapError ExecuteError.fault := by
  induction h with
  | @binding name span b hb =>
    obtain ⟨v, hv, -⟩ := hframe name b hb
    simp only [Expr.fetch, Expr.read, hv, hlocals name b v hb hv]
    rfl
  | static _ hres => exact StaticRef.fetch_eq hres hobjects
  | qualified _ hres => exact StaticRef.fetch_eq hres hobjects
  | @member owner tyo field span found _ _ ih =>
    simp only [Expr.fetch, ih]
    cases hread : owner.read frame with
    | error err =>
      rw [read_member_of_error hread]
      rfl
    | ok v =>
      rw [read_member_of_ok hread, mapError_bind, mapError_ownerHandle]
      simp only [mapError_mapError, ExecuteError.fault, ExecuteCause.fault_ofRead, hobjects]
      rfl

end Reading

/-! ### Assigning code -/

section Assigning

variable {t : ClassTable} {bindings : Bindings} {l : Loader} {frame : Frame Heap}

/-- A typed expression reads as a value of the form of its type, if it reads as one. -/
theorem Expr.HasType.shapes_read (ht : t.WellFormed) (hheap : t.Used frame.objects)
    (hframe : frame.Shaped bindings) {e : Expr} {ty : Ty} (h : HasType t.toUniverse bindings e ty)
    {v : Value} (hread : e.read frame = .ok v) : ty.Shapes v := by
  have hstatic : ∀ {r : StaticRef} {found : ResolvedField},
      t.toUniverse.findStatic r = .ok found → r.resolved = some found → r.read frame = .ok v →
      found.ty.Shapes v := by
    intro r found hfind hres hread
    obtain ⟨o, -, -, -, hty⟩ := Universe.findStatic_eq_ok hfind
    rw [StaticRef.read_eq hres] at hread
    rw [hty]
    exact hheap.shapes_getStatic ht (declares_of_findStatic hfind) (eq_ok_of_mapError hread)
  cases h with
  | @binding name span b hb =>
    obtain ⟨w, hw, hshapes⟩ := hframe name b hb
    simp only [Expr.read, hw, Except.ok.injEq] at hread
    rw [← hread]
    exact hshapes
  | static hfind hres => exact hstatic hfind hres hread
  | qualified hfind hres => exact hstatic hfind hres hread
  | @member owner tyo field span found howner hfind =>
    obtain ⟨o, -, -, -, hty⟩ := Universe.findMember_eq_ok hfind
    cases hown : owner.read frame with
    | error err => rw [read_member_of_error hown] at hread; simp at hread
    | ok w =>
      rw [read_member_of_ok hown] at hread
      cases w with
      | object hd =>
        have hget := eq_ok_of_mapError hread
        rw [hty]
        exact hheap.shapes_getField ht (declares_of_findMember hfind) hget
      | _ => simp [ownerHandle, Except.bind] at hread

/-- The locals after a value is assigned to an expression. -/
def Expr.localsAfter (locals : Locals) (v : Value) : Expr → Locals
  | .binding _ _ _ (some slot) => locals.store slot v
  | _ => locals

/-- The state after an assignment: the words of the value are left on the stack, and the rest is as
the assignment leaves it. -/
def Expr.assigned (e : Expr) (frame : Frame Heap) (v : Value) (s : List Word) (locals : Locals) :
    Except Fault (Machine Heap) :=
  ((e.store frame v).mapError ExecuteError.fault).map fun frame =>
    ⟨v.words ++ s, e.localsAfter locals v, frame.objects⟩

theorem StaticRef.compileAssign_eq {r : StaticRef} {found : ResolvedField}
    (hres : r.resolved = some found) :
    r.compileAssign = (do
      let start ← Emit.mark
      Emit.dupValue found.ty.width
      Emit.putStatic found.field found.ty.width
      Emit.verify start 0 "static field write") := by
  simp only [compileAssign, forCode, hres]
  rfl

/-- The code that assigns to a field of a class makes the assignment. -/
theorem StaticRef.means_compileAssign {r : StaticRef} {found : ResolvedField}
    (hres : r.resolved = some found) (hlink : l.Links found.field) {v : Value}
    (hwidth : v.width = found.ty.width) (s : List Word) (locals : Locals) :
    ∃ act, Emit.Means l r.compileAssign act ∧ act ⟨v.words ++ s, locals, frame.objects⟩ =
      ((r.assign frame v).mapError ExecuteError.fault).map fun frame =>
        ⟨v.words ++ s, locals, frame.objects⟩ := by
  rw [compileAssign_eq hres]
  refine ⟨_, Emit.means_mark fun start => (Emit.means_dupValue _).seq
    ((Emit.means_putStatic hlink _).before (Emit.means_verify _ _ _)), ?_⟩
  show (Machine.dupValue found.ty.width _).bind (Machine.putStatic found.field) = _
  rw [Machine.dupValue_words hwidth]
  show Machine.putStatic found.field _ = _
  rw [Machine.putStatic_words, assign_eq hres, mapError_map, mapError_mapError]
  simp only [ExecuteError.fault, ExecuteCause.fault_ofWrite]
  cases ObjectGraph.setStatic frame.objects found.field v <;> rfl

/-- **The code that assigns to a typed expression makes the assignment**, and leaves the words of
the value where they were. -/
theorem Expr.HasType.means_compileAssign (ht : t.WellFormed)
    (hlinks : ∀ f, t.Declares f → l.Links f) (hheap : t.Used frame.objects)
    (hframe : frame.Shaped bindings) {locals : Locals} (hlocals : locals.Mirror bindings frame)
    {e : Expr} {ty : Ty} (h : HasType t.toUniverse bindings e ty) {v : Value}
    (hwidth : v.width = ty.width) (s : List Word) :
    ∃ act, Emit.Means l e.compileAssign act ∧
      act ⟨v.words ++ s, locals, frame.objects⟩ = e.assigned frame v s locals := by
  cases h with
  | @binding name span b hb =>
    obtain ⟨w, hw, -⟩ := hframe name b hb
    refine ⟨_, (Emit.means_setLine _).after
      ((Emit.means_dupValue _).seq (Emit.means_setLocal _ _)), ?_⟩
    show (Machine.dupValue b.ty.width _).bind (Machine.setLocal b.slot) = _
    rw [Machine.dupValue_words hwidth]
    show Machine.setLocal b.slot _ = _
    have hset : frame.set? name v = some (frame.give name v) := by
      have hmem : frame.values.contains name = true := by
        rw [Std.HashMap.contains_eq_isSome_getElem?]
        exact Option.isSome_iff_exists.mpr ⟨w, hw⟩
      rw [Frame.set?, if_pos hmem]
    simp only [Machine.setLocal_words, Expr.assigned, Expr.store, hset]
    rfl
  | static hfind hres =>
    have hlink := hlinks _ (declares_of_findStatic hfind)
    obtain ⟨act, hmeans, hact⟩ := StaticRef.means_compileAssign hres hlink hwidth s locals
    exact ⟨act, (Emit.means_setLine _).after hmeans, hact⟩
  | qualified hfind hres =>
    have hlink := hlinks _ (declares_of_findStatic hfind)
    obtain ⟨act, hmeans, hact⟩ := StaticRef.means_compileAssign hres hlink hwidth s locals
    exact ⟨act, (Emit.means_setLine _).after hmeans, hact⟩
  | @member owner tyo field span found howner hfind =>
    have hlink := hlinks _ (declares_of_findMember hfind)
    refine ⟨_, (Emit.means_setLine _).after (Emit.means_mark fun start =>
      (Emit.means_dupValue _).seq ((howner.means_compile hlinks).seq
        ((Emit.means_ownerBelow _).seq
          ((Emit.means_putField hlink _).before (Emit.means_verify _ _ _))))), ?_⟩
    show (Machine.dupValue found.ty.width _).bind _ = _
    rw [Machine.dupValue_words hwidth]
    show (((owner.fetch _).map (Machine.push _)).bind fun m =>
      (Machine.ownerBelow found.ty.width m).bind (Machine.putField found.field)) = _
    rw [howner.fetch_eq rfl hlocals hframe]
    unfold Expr.assigned
    cases hread : owner.read frame with
    | error err =>
      rw [store_member_of_error hread]
      rfl
    | ok w =>
      -- the owner is a reference, so it is the one word that is moved beneath the value
      have hone : w.width = 1 := by
        obtain ⟨o, ho, -⟩ := Universe.findMember_eq_ok hfind
        rw [(howner.shapes_read ht hheap hframe hread).width_eq, ← Ty.width_deref, ho]
        rfl
      show (Machine.ownerBelow found.ty.width
        (Machine.push ⟨v.words ++ (v.words ++ s), locals, frame.objects⟩ w)).bind
          (Machine.putField found.field) = _
      rw [Machine.push, Value.words_of_width_one hone]
      show (Machine.ownerBelow found.ty.width
        ⟨Word.whole w :: (v.words ++ (v.words ++ s)), locals, frame.objects⟩).bind _ = _
      rw [Machine.ownerBelow_words hwidth]
      show Machine.putField found.field ⟨v.words ++ ([Word.whole w] ++ (v.words ++ s)), _, _⟩ = _
      rw [← Value.words_of_width_one hone, Machine.putField_words, store_member_of_ok hread,
        mapError_bind, mapError_ownerHandle]
      cases Machine.ownerOf w with
      | error fault => rfl
      | ok hd =>
        simp only [mapError_map, mapError_mapError, ExecuteError.fault,
          ExecuteCause.fault_ofWrite]
        show ((ObjectGraph.setField frame.objects hd found.field v).mapError _).map _ =
          (((ObjectGraph.setField frame.objects hd found.field v).mapError _).map _).map _
        cases ObjectGraph.setField frame.objects hd found.field v <;> rfl

/-- An assignment to a field of any kind leaves the values of the bindings alone. -/
theorem Expr.HasType.values_store {e : Expr} {ty : Ty} (h : HasType t.toUniverse bindings e ty)
    (hfield : e.isBinding = false) {frame' : Frame Heap} {v : Value}
    (hstore : e.store frame v = .ok frame') : frame'.values = frame.values := by
  have hmap : ∀ {x : Except ExecuteError Heap},
      (x.map fun objects => ({ frame with objects := objects } : Frame Heap)) = .ok frame' →
      frame'.values = frame.values := by
    intro x hx
    obtain ⟨objects, _, rfl⟩ := eq_ok_of_map hx
    rfl
  cases h with
  | binding _ => simp [isBinding] at hfield
  | static _ hres => exact hmap (by rw [← StaticRef.assign_eq hres]; exact hstore)
  | qualified _ hres => exact hmap (by rw [← StaticRef.assign_eq hres]; exact hstore)
  | @member owner tyo field span found _ _ =>
    cases hown : owner.read frame with
    | error err => rw [store_member_of_error hown] at hstore; simp at hstore
    | ok w =>
      rw [store_member_of_ok hown] at hstore
      cases w with
      | object hd => exact hmap hstore
      | _ => simp [ownerHandle, Except.bind] at hstore

/-- **The locals after an assignment hold the values after it.**  A stored value takes the slots of
its binding and no others. -/
theorem Expr.HasType.mirror_localsAfter (hb : bindings.Declared) (hframe : frame.Shaped bindings)
    {locals : Locals} (hlocals : locals.Mirror bindings frame) {e : Expr} {ty : Ty}
    (h : HasType t.toUniverse bindings e ty) {v : Value} (hwidth : v.width = ty.width)
    {frame' : Frame Heap} (hstore : e.store frame v = .ok frame') :
    (e.localsAfter locals v).Mirror bindings frame' := by
  by_cases hbinding : e.isBinding = false
  · have hafter : e.localsAfter locals v = locals := by cases h <;> first | rfl | cases hbinding
    intro name b w hlookup hw
    rw [Frame.value?, h.values_store hbinding hstore] at hw
    rw [hafter]
    exact hlocals name b w hlookup hw
  · cases h with
    | @binding name span b hlookup =>
      have hgive : frame' = frame.give name v := by
        simp only [Expr.store, Frame.set?] at hstore
        split at hstore
        · next hset =>
          split at hset
          · rw [← Except.ok.inj hstore, ← Option.some.inj hset]
          · simp at hset
        · simp at hstore
      subst hgive
      intro other b' w hlookup' hw
      rw [Frame.value?_give] at hw
      split at hw
      · next hname =>
        rw [← hname, hlookup] at hlookup'
        rw [← Option.some.inj hlookup', ← Option.some.inj hw]
        exact Locals.load_store_self _ _ _
      · next hname =>
        -- the slots of another binding are apart from those that the value takes
        obtain ⟨w', hw', hshapes⟩ := hframe other b' hlookup'
        rw [hw, Option.some.injEq] at hw'
        subst hw'
        refine Locals.load_store_of_apart (hlocals other b' w hlookup' hw) ?_
        rw [hwidth, hshapes.width_eq]
        exact hb.apart.apart name other b b' hname hlookup hlookup'
    | _ => exact absurd rfl hbinding

end Assigning

/-! ### Compiled code -/

/-- **Running compiled code is evaluating the expression.**  The pool may hold constants of other
chunks, and more may have been added since; the stack is any.  Reading code pushes the words of the
value that the expression reads as, and leaves locals and objects alone.  Assigning code, run on a
value as wide as the target, answers that value again and leaves objects and locals as the
assignment does.  Either faults exactly when the evaluation fails, and for the same reason. -/
theorem run_compiled {t : ClassTable} (ht : t.Registered) (hs : t.Slashless)
    (value? : Constant → Option Value) {bindings : Bindings} (hb : bindings.Declared)
    {frame : Frame Heap} (hheap : t.Used frame.objects) (hframe : frame.Shaped bindings)
    {locals : Locals} (hlocals : locals.Mirror bindings frame) {e : Expr} {ty : Ty}
    (he : Expr.Checked t.toUniverse bindings e ty) {pool : ConstantPool} (hpool : pool.Made)
    (s : List Word) :
    (∀ chunk pool' final, Emit.chunkOf e.compile pool = (.ok chunk, pool') → pool'.Within final →
      Machine.run (t.loader value?) final chunk.code ⟨s, locals, frame.objects⟩ =
        ((e.read frame).mapError ExecuteError.fault).map fun v =>
          ⟨v.words ++ s, locals, frame.objects⟩) ∧
    ∀ v chunk pool' final, v.width = ty.width →
      Emit.chunkOf e.compileAssign pool = (.ok chunk, pool') → pool'.Within final →
      Machine.run (t.loader value?) final chunk.code ⟨v.words ++ s, locals, frame.objects⟩ =
        ((e.assign frame v).mapError ExecuteError.fault).map (fun out =>
          ⟨out.1.words ++ s, e.localsAfter locals v, out.2.objects⟩) ∧
      ∀ w frame', e.assign frame v = .ok (w, frame') →
        w = v ∧ (e.localsAfter locals v).Mirror bindings frame' := by
  -- the answered type may lack aliases, which do not change its width
  obtain ⟨ty', hty, heq⟩ := he.hasType
  have hlinks : ∀ f, t.Declares f → (t.loader value?).Links f := fun f hf =>
    ClassTable.links_loader ht.wellFormed hs value? hf
  refine ⟨fun chunk pool' final hchunk hfinal => ?_,
    fun v chunk pool' final hwidth hchunk hfinal => ⟨?_, fun w frame' hassign => ?_⟩⟩
  · rw [(hty.means_compile hlinks).run_chunkOf hpool.lawful hchunk hfinal,
      hty.fetch_eq rfl hlocals hframe]
    rfl
  · have hwidth' : v.width = ty'.width := by rw [hwidth, ← Ty.width_deref, heq, Ty.width_deref]
    obtain ⟨act, hmeans, hact⟩ :=
      hty.means_compileAssign ht.wellFormed hlinks hheap hframe hlocals hwidth' s
    rw [hmeans.run_chunkOf hpool.lawful hchunk hfinal, hact, Expr.assigned, Expr.assign]
    cases e.store frame v <;> rfl
  · have hwidth' : v.width = ty'.width := by rw [hwidth, ← Ty.width_deref, heq, Ty.width_deref]
    obtain ⟨next, hstore, hout⟩ := eq_ok_of_map hassign
    obtain ⟨rfl, rfl⟩ := Prod.mk.inj hout
    exact ⟨rfl, hty.mirror_localsAfter hb hframe hlocals hwidth' hstore⟩

namespace LinkedList

/-- The field that counts. -/
def countField : Field := .instanceField ⟨"list.Node"⟩ "count" (.primitive .long)

/-- The count of the binding. -/
def count : Expr :=
  .member (.binding "n" ⟨1, 1, 1⟩ (.object nodeType) (some 0)) "count" ⟨1, 1, 7⟩
    (some ⟨countField, .primitive .long⟩)

/-- The locals with the node in the slot of its binding. -/
def locals : Locals := Locals.store (fun _ => none) 0 (.object ⟨0, 0⟩)

/-- `DUP2`, `GET_LOCAL 0`, `DUP_X2`, `POP`. -/
def ownerCode : Chunk := ⟨#[⟨6, 1⟩, ⟨9, 1⟩, ⟨0, 1⟩, ⟨7, 1⟩, ⟨3, 1⟩]⟩

/-- The same with `PUT_FIELD 0`. -/
def countCode : Chunk := (ownerCode.writeOp .putField 1).writeWord 0 1

theorem checked_count : Expr.Checked table.toUniverse bindings count (.primitive .long) := by
  refine ⟨.path ["n"] "count" ⟨1, 1, 7⟩,
    .ofOwner (.binding "n" ⟨1, 1, 1⟩ (.object nodeType) (some 0)) "count" ⟨1, 1, 7⟩, .undefined,
    .path _ _ _, ?_, by rfl⟩
  rw [Expr.bind, lookup_eq, if_pos rfl]
  rfl

theorem slashless : table.Slashless := by
  intro d hd
  rw [List.mem_singleton.mp hd, ClassName.Slashless]
  decide +kernel

theorem shaped : frame.Shaped bindings := by
  intro name b hb
  obtain ⟨v, hv, hholds⟩ := typed.fits name b hb
  exact ⟨v, hv, hholds.shapes⟩

theorem mirror : locals.Mirror bindings frame := by
  intro name b v hb hv
  rw [lookup_eq] at hb
  split at hb
  · next hname =>
    rw [← Option.some.inj hb]
    rw [frame, Frame.value?_give, if_pos hname] at hv
    rw [← Option.some.inj hv]
    exact Locals.load_store_self _ _ _
  · simp at hb

theorem chunkOf_count : ∃ pool,
    Emit.chunkOf count.compileAssign .empty = (.ok countCode, pool) := by
  obtain ⟨pool, hpool⟩ : ∃ pool,
      ConstantPool.empty.add (Emit.fieldConstant countField) = (0, pool) := by
    simp [ConstantPool.add, ConstantPool.empty, ConstantPool.size]
  have hput : Emit.putField countField 2 ⟨ownerCode, .empty, ⟨3, 4⟩, 1⟩ =
      .ok () ⟨countCode, pool, ⟨0, 4⟩, 1⟩ := by
    rw [Emit.putField, Emit.onField, Emit.bind_of_ok (Emit.intern_eq _ _), hpool]
    have hstack : StackTracker.adjust ⟨3, 4⟩ (-(1 + Emit.slots 2)) = ⟨0, 4⟩ := by decide
    rw [← hstack]
    rfl
  have hrun : count.compileAssign.run (.new .empty) = .ok () ⟨countCode, pool, ⟨0, 4⟩, 1⟩ := by
    show (Emit.putField countField 2 >>= fun _ => Emit.verify 0 0 "field write")
      ⟨ownerCode, .empty, ⟨3, 4⟩, 1⟩ = _
    rw [Emit.bind_of_ok hput]
    rfl
  exact ⟨pool, by rw [Emit.chunkOf, hrun]⟩

end LinkedList

/-- The count of a list node is assigned to, under a stack that holds another value. -/
theorem run_compiled_linkedList : ∃ final,
    Machine.run (LinkedList.table.loader fun _ => none) final LinkedList.countCode.code
        ⟨(Value.long 7).words ++ [.whole .null], LinkedList.locals, LinkedList.heap⟩ =
      ((LinkedList.count.assign LinkedList.frame (.long 7)).mapError ExecuteError.fault).map
        fun out => ⟨out.1.words ++ [.whole .null], LinkedList.locals, out.2.objects⟩ := by
  obtain ⟨pool, hchunk⟩ := LinkedList.chunkOf_count
  refine ⟨pool, ?_⟩
  exact ((run_compiled LinkedList.registered LinkedList.slashless (fun _ => none)
    (.declare _ _ .empty) (.populated LinkedList.populated) LinkedList.shaped LinkedList.mirror
    LinkedList.checked_count .empty [.whole .null]).2 (.long 7) LinkedList.countCode pool pool
    (by rfl) hchunk (.refl _)).1

end FieldPath
