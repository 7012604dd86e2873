import FieldPath.Proofs.Store.Generations

/-!
# Stored references

A reference is checked when it is stored: its object must be live and of a class that fits.  The
object may be freed later and its place taken by an object of any class, and the reference stays in
its slot.  It never names the new object, because the place is then in a later generation.  So what
a slot holds agrees with the type of the slot in every state that a run reaches, as long as no place
is freed as often as there are generations: a reference is null, or names an object that fits, or
its object is gone.

The type of a slot is the one of the last definition that was not refused.  Writes do not change it.

## Main definitions

* `Heap.Past` — the object of a handle is gone.
* `Heap.Agrees` — a value agrees with a type, as far as its object is still there.
* `Heap.lastType` — the type that a run last defined a field with.

## Main results

* `Heap.Agrees.step` — **no operation makes a stored value disagree with its type.**
* `Heap.TypedBy.step` — slots have the types of the last definitions.
* `Heap.stored_values_agree` — **both, in every state that a run reaches.**
-/

namespace FieldPath

namespace Heap

/-! ### Values that outlive their objects -/

/-- The object of a handle is gone: the handle names nothing, and its place has been freed since
the use that it names. -/
structure Past (heap : Heap) (h : Handle) : Prop where
  /-- The handle names nothing. -/
  get : heap.get h = none
  /-- The place has been freed since. -/
  freed : h.generation < heap.generationAt h.index

/-- A value agrees with a type: it is of the kind of a primitive type, or it is null, or a reference
to a live object that fits, or to an object that is gone.  Nothing agrees with `void`. -/
def Agrees (heap : Heap) (t : Ty) (v : Value) : Prop :=
  match t.deref, v with
  | .primitive k, v => v.kind? = some k
  | .object _, .null => True
  | .undefined, .null => True
  | .object o, .object h => heap.Past h ∨ ∃ c, heap.classOf h = some c ∧ o.accepts c = true
  | .undefined, .object h => heap.Past h ∨ ∃ c, heap.classOf h = some c
  | _, _ => False

/-- A value of a type agrees with it. -/
theorem Holds.agrees {heap : Heap} {t : Ty} {v : Value} (h : heap.Holds t v) :
    heap.Agrees t v := by
  unfold Holds at h
  unfold Agrees
  generalize t.deref = d at h ⊢
  cases d with
  | object o =>
    cases v with
    | object _ => exact Or.inr h
    | _ => exact h
  | undefined =>
    cases v with
    | object _ => exact Or.inr h
    | _ => exact h
  | _ => exact h

/-- What was live stays live with its class or is gone, and what is gone stays gone. -/
theorem Agrees.mono {heap heap' : Heap}
    (hclass : ∀ h c, heap.classOf h = some c → heap'.Past h ∨ heap'.classOf h = some c)
    (hpast : ∀ h, heap.Past h → heap'.Past h) {t : Ty} {v : Value} (h : heap.Agrees t v) :
    heap'.Agrees t v := by
  unfold Agrees at h ⊢
  split at h
  · exact h
  · trivial
  · trivial
  · rcases h with hgone | ⟨c, hc, hacc⟩
    · exact Or.inl (hpast _ hgone)
    · exact (hclass _ c hc).imp_right fun hc' => ⟨c, hc', hacc⟩
  · rcases h with hgone | ⟨c, hc⟩
    · exact Or.inl (hpast _ hgone)
    · exact (hclass _ c hc).imp_right fun hc' => ⟨c, hc'⟩
  · exact h.elim

/-- An operation frees no place that has been through all generations. -/
def Room (heap : Heap) (op : HeapOp) : Prop :=
  ∀ i, (heap.generationAt i).toNat + heap.freesOnce i op < UInt32.size

theorem Tidy.toNat_generationAt_step {heap : Heap} (ht : heap.Tidy) {op : HeapOp}
    (hroom : heap.Room op) (i : Nat) :
    ((heap.step op).generationAt i).toNat =
      (heap.generationAt i).toNat + heap.freesOnce i op := by
  have hsum := hroom i
  have honce : heap.freesOnce i op < UInt32.size := by omega
  rw [ht.generationAt_step, UInt32.toNat_add, UInt32.toNat_ofNat_of_lt' honce,
    Nat.mod_eq_of_lt hsum]

theorem past_of_lt {heap : Heap} {h : Handle} (hlt : h.generation < heap.generationAt h.index) :
    heap.Past h :=
  ⟨get_eq_none_of_generationAt_ne fun heq => UInt32.lt_irrefl _ (heq ▸ hlt), hlt⟩

theorem Past.step {heap : Heap} (ht : heap.Tidy) {op : HeapOp} (hroom : heap.Room op) {h : Handle}
    (hp : heap.Past h) : (heap.step op).Past h := by
  apply past_of_lt
  have hlt := UInt32.lt_iff_toNat_lt.mp hp.freed
  rw [UInt32.lt_iff_toNat_lt, ht.toNat_generationAt_step hroom]
  omega

/-- A step leaves a live object its class, or frees it for good. -/
theorem Tidy.past_or_classOf_step {heap : Heap} (ht : heap.Tidy) {op : HeapOp}
    (hroom : heap.Room op) {h : Handle} {c : ObjectType} (hc : heap.classOf h = some c) :
    (heap.step op).Past h ∨ (heap.step op).classOf h = some c := by
  by_cases hop : op = .free h
  · left
    subst hop
    obtain ⟨o, ho, -⟩ := Option.map_eq_some_iff.mp hc
    have hone : heap.freesOnce h.index (.free h) = 1 := by
      rw [freesOnce, if_pos ⟨rfl, by rw [ho]; rfl⟩]
    apply past_of_lt
    rw [UInt32.lt_iff_toNat_lt, ht.toNat_generationAt_step hroom, generationAt_of_get ho, hone]
    omega
  · right
    exact ht.classOf_step hop hc

/-- **No operation makes a value disagree with its type.** -/
theorem Agrees.step {heap : Heap} (ht : heap.Tidy) {op : HeapOp} (hroom : heap.Room op) {t : Ty}
    {v : Value} (h : heap.Agrees t v) : (heap.step op).Agrees t v :=
  h.mono (fun _ _ hc => ht.past_or_classOf_step hroom hc) fun _ hp => hp.step ht hroom

theorem EverySlot.step_agrees {heap : Heap} (ht : heap.Tidy) {op : HeapOp} (hroom : heap.Room op)
    (hall : heap.EverySlot fun s => heap.Agrees s.ty s.value) :
    (heap.step op).EverySlot fun s => (heap.step op).Agrees s.ty s.value := by
  have hkept : heap.EverySlot fun s => (heap.step op).Agrees s.ty s.value :=
    hall.mono fun s hs => hs.step ht hroom
  have hstored : ∀ {t v stored}, heap.fit t v = some stored → (heap.step op).Agrees t stored :=
    fun hfit => (holds_of_fit hfit).agrees.step ht hroom
  exact hkept.step ht op (fun _ _ _ _ hfit => hstored hfit) fun _ _ _ _ hfit => hstored hfit

theorem EverySlot.run_agrees {heap : Heap} (ht : heap.Tidy) {ops : List HeapOp}
    (hroom : ∀ i, (heap.generationAt i).toNat + heap.frees i ops < UInt32.size)
    (hall : heap.EverySlot fun s => heap.Agrees s.ty s.value) :
    (heap.run ops).EverySlot fun s => (heap.run ops).Agrees s.ty s.value := by
  induction ops generalizing heap with
  | nil => exact hall
  | cons op ops ih =>
    have hop : heap.Room op := by
      intro i
      have hi := hroom i
      rw [frees] at hi
      omega
    apply ih (ht.step op)
    · intro i
      have hi := hroom i
      rw [frees] at hi
      rw [ht.toNat_generationAt_step hop]
      omega
    · exact hall.step_agrees ht hop

/-! ### Types of slots -/

/-- The type that an operation gives to a field of an object, or of a class if there is no object.
A refused definition gives none. -/
def typeGiven (heap : Heap) (owner : Option Handle) (key : ClassName × String) :
    HeapOp → Option Ty
  | .defineField h f t v =>
      if owner = some h ∧ (f.declaring, f.name) = key ∧ (heap.defineField h f t v).isOk then some t
      else none
  | .defineStatic f t v =>
      if owner = none ∧ (f.declaring, f.name) = key ∧ (heap.defineStatic f t v).isOk then some t
      else none
  | _ => none

/-- The type that a run last defined a field with. -/
def lastType (heap : Heap) (owner : Option Handle) (key : ClassName × String) :
    List HeapOp → Option Ty
  | [] => none
  | op :: ops => ((heap.step op).lastType owner key ops).or (heap.typeGiven owner key op)

/-- The slots have the types that are given to their fields. -/
structure TypedBy (heap : Heap) (given : Option Handle → ClassName × String → Option Ty) :
    Prop where
  /-- The slots of live objects. -/
  ofObject : ∀ h o, heap.get h = some o → ∀ s ∈ o.slots, given (some h) s.key = some s.ty
  /-- The slots of classes. -/
  ofClass : ∀ s ∈ heap.statics, given none s.key = some s.ty

end Heap

namespace Slots

/-- In place of the slot of its field, a new slot leaves only slots of other fields. -/
theorem Apart.mem_put {f : Field} {slot s : Slot} {slots : Slots} (h : slots.Apart)
    (hs : s ∈ Slots.put f slot slots) : s = slot ∨ (s ∈ slots ∧ s.isFor f = false) := by
  induction slots with
  | nil => exact Or.inl (List.mem_singleton.mp hs)
  | cons t rest ih =>
    obtain ⟨hnotin, hrest⟩ := List.nodup_cons.mp h
    simp only [Slots.put] at hs
    split at hs
    · next ht =>
      rcases List.mem_cons.mp hs with hs | hs
      · exact Or.inl hs
      · right
        refine ⟨List.mem_cons_of_mem t hs, ?_⟩
        by_contra hfor
        have hkey := key_eq_of_isFor (by simpa using hfor) ht
        exact hnotin (List.mem_map.mpr ⟨s, hs, hkey⟩)
    · next ht =>
      rcases List.mem_cons.mp hs with rfl | hs
      · exact Or.inr ⟨List.mem_cons_self, by simpa using ht⟩
      · exact (ih hrest hs).imp_right fun hmem => ⟨List.mem_cons_of_mem t hmem.1, hmem.2⟩

/-- A slot of another field has another key. -/
theorem key_ne_of_isFor_eq_false {f : Field} {s : Slot} (h : s.isFor f = false) :
    (f.declaring, f.name) ≠ s.key := by
  intro hkey
  obtain ⟨hdecl, hname⟩ := Prod.mk.inj hkey
  rw [isFor_iff.mpr ⟨hname.symm, hdecl.symm⟩] at h
  simp at h

/-- A write leaves the keys and the types of the slots. -/
theorem exists_of_mem_write {f : Field} {v : Value} {s : Slot} {slots : Slots}
    (hs : s ∈ write f v slots) : ∃ s' ∈ slots, s'.key = s.key ∧ s'.ty = s.ty := by
  rcases mem_write hs with hs | ⟨old, hold, rfl⟩
  · exact ⟨s, hs, rfl, rfl⟩
  · exact ⟨old, (mem_of_slot?_eq_some hold).1, rfl, rfl⟩

end Slots

namespace Heap

theorem TypedBy.congr {heap : Heap} {given given' : Option Handle → ClassName × String → Option Ty}
    (h : heap.TypedBy given) (heq : ∀ owner key, given' owner key = given owner key) :
    heap.TypedBy given' := by
  have hsame : given' = given := funext fun owner => funext fun key => heq owner key
  rw [hsame]
  exact h

section Steps

variable {heap : Heap} {given : Option Handle → ClassName × String → Option Ty}

theorem TypedBy.defineField (hone : heap.OneSlotEach) (h : heap.TypedBy given) {hd : Handle}
    {f : Field} {t : Ty} {v : Value} {next : Heap} (hdef : heap.defineField hd f t v = .ok next) :
    next.TypedBy fun owner key =>
      (heap.typeGiven owner key (.defineField hd f t v)).or (given owner key) := by
  obtain ⟨o, stored, ho, -, rfl⟩ := defineField_eq_ok hdef
  refine ⟨?_, ?_⟩
  · intro h' o' ho' s hs
    change (heap.replace hd _).get h' = some o' at ho'
    rw [get_replace ho] at ho'
    split at ho'
    · next hh =>
      rw [← Option.some.inj ho'] at hs
      rcases Slots.Apart.mem_put (hone.ofObject hd o ho) hs with rfl | ⟨hs, hfor⟩
      · simp [typeGiven, hdef, hh, Slot.key, Slot.new, Except.isOk, Except.toBool]
      · have hkey := Slots.key_ne_of_isFor_eq_false hfor
        simp [typeGiven, hkey, hh, h.ofObject hd o ho s hs]
    · next hh => simp [typeGiven, hh, h.ofObject h' o' ho' s hs]
  · intro s hs
    simp [typeGiven, h.ofClass s hs]

theorem TypedBy.defineStatic (hone : heap.OneSlotEach) (h : heap.TypedBy given) {f : Field}
    {t : Ty} {v : Value} {next : Heap} (hdef : heap.defineStatic f t v = .ok next) :
    next.TypedBy fun owner key =>
      (heap.typeGiven owner key (.defineStatic f t v)).or (given owner key) := by
  obtain ⟨stored, -, rfl⟩ := defineStatic_eq_ok hdef
  refine ⟨?_, ?_⟩
  · intro h' o ho s hs
    simp [typeGiven, h.ofObject h' o ho s hs]
  · intro s hs
    rcases Slots.Apart.mem_put hone.ofClass hs with rfl | ⟨hs, hfor⟩
    · simp [typeGiven, hdef, Slot.key, Slot.new, Except.isOk, Except.toBool]
    · have hkey := Slots.key_ne_of_isFor_eq_false hfor
      simp [typeGiven, hkey, h.ofClass s hs]

/-- A write leaves the types of the slots. -/
theorem TypedBy.setField (h : heap.TypedBy given) {hd : Handle} {f : Field} {v : Value}
    {next : Heap} (hset : heap.setField hd f v = .ok next) : next.TypedBy given := by
  obtain ⟨o, slot, stored, ho, -, -, -, rfl⟩ := setField_eq_ok hset
  refine ⟨?_, h.ofClass⟩
  intro h' o' ho' s hs
  rw [get_replace ho] at ho'
  split at ho'
  · next hh =>
    rw [← Option.some.inj ho'] at hs
    obtain ⟨s', hs', hkey, hty⟩ := Slots.exists_of_mem_write hs
    rw [hh, ← hkey, ← hty]
    exact h.ofObject hd o ho s' hs'
  · exact h.ofObject h' o' ho' s hs

theorem TypedBy.setStatic (h : heap.TypedBy given) {f : Field} {v : Value} {next : Heap}
    (hset : heap.setStatic f v = .ok next) : next.TypedBy given := by
  obtain ⟨slot, stored, -, -, -, rfl⟩ := setStatic_eq_ok hset
  refine ⟨h.ofObject, ?_⟩
  intro s hs
  obtain ⟨s', hs', hkey, hty⟩ := Slots.exists_of_mem_write hs
  rw [← hkey, ← hty]
  exact h.ofClass s' hs'

/-- Slots have the types of the last definitions after an operation. -/
theorem TypedBy.step (ht : heap.Tidy) (hone : heap.OneSlotEach) (h : heap.TypedBy given)
    (op : HeapOp) :
    (heap.step op).TypedBy fun owner key => (heap.typeGiven owner key op).or (given owner key) := by
  cases op with
  | allocate type =>
    refine ⟨?_, h.ofClass⟩
    intro h' o ho s hs
    rw [Heap.step, ht.get_allocate] at ho
    split at ho
    · rw [← Option.some.inj ho] at hs
      simp at hs
    · exact h.ofObject h' o ho s hs
  | free hd =>
    refine ⟨?_, by rw [Heap.step, statics_free]; exact h.ofClass⟩
    intro h' o ho s hs
    rw [Heap.step, get_free] at ho
    split at ho
    · simp at ho
    · exact h.ofObject h' o ho s hs
  | defineField hd f t v =>
    cases hdef : heap.defineField hd f t v with
    | error e =>
      refine TypedBy.congr (by rw [Heap.step, hdef]; exact h) fun owner key => ?_
      simp [typeGiven, hdef, Except.isOk, Except.toBool]
    | ok next =>
      rw [Heap.step, hdef]
      exact h.defineField hone hdef
  | defineStatic f t v =>
    cases hdef : heap.defineStatic f t v with
    | error e =>
      refine TypedBy.congr (by rw [Heap.step, hdef]; exact h) fun owner key => ?_
      simp [typeGiven, hdef, Except.isOk, Except.toBool]
    | ok next =>
      rw [Heap.step, hdef]
      exact h.defineStatic hone hdef
  | setField hd f v => exact settle_ind (P := fun next => next.TypedBy _) h fun _ => h.setField
  | setStatic f v => exact settle_ind (P := fun next => next.TypedBy _) h fun _ => h.setStatic

end Steps

theorem TypedBy.run {heap : Heap} {given : Option Handle → ClassName × String → Option Ty}
    (ht : heap.Tidy) (hone : heap.OneSlotEach) (h : heap.TypedBy given) (ops : List HeapOp) :
    (heap.run ops).TypedBy fun owner key => (heap.lastType owner key ops).or (given owner key) := by
  induction ops generalizing heap given with
  | nil => exact h
  | cons op ops ih =>
    refine (ih (ht.step op) (hone.step ht op) (h.step ht hone op)).congr fun owner key => ?_
    rw [lastType, Option.or_assoc]

/-- **In every state that a run reaches, a slot has the type of the last definition of its field,
and its value agrees with this type.** -/
theorem stored_values_agree (ops : List HeapOp) (hfrees : ∀ i, empty.frees i ops < UInt32.size) :
    (∀ h o, (empty.run ops).get h = some o → ∀ s ∈ o.slots,
      empty.lastType (some h) s.key ops = some s.ty ∧ (empty.run ops).Agrees s.ty s.value) ∧
    ∀ s ∈ (empty.run ops).statics,
      empty.lastType none s.key ops = some s.ty ∧ (empty.run ops).Agrees s.ty s.value := by
  have hroom : ∀ i, (empty.generationAt i).toNat + empty.frees i ops < UInt32.size := by
    intro i
    have hzero : (empty.generationAt i).toNat = 0 := by simp [generationAt, empty]
    have hi := hfrees i
    omega
  have hagrees := (EverySlot.empty (P := fun s => empty.Agrees s.ty s.value)).run_agrees
    tidy_empty hroom
  have hstart : empty.TypedBy fun _ _ => none :=
    ⟨by intro h o ho; simp [get, empty] at ho, by simp [empty]⟩
  have htyped := hstart.run tidy_empty oneSlotEach_empty ops
  refine ⟨fun h o ho s hs => ⟨?_, hagrees.ofObject h o ho s hs⟩,
    fun s hs => ⟨?_, hagrees.ofClass s hs⟩⟩
  · simpa using htyped.ofObject h o ho s hs
  · simpa using htyped.ofClass s hs

end Heap

namespace Kennel

/-- The class of the pet. -/
def dog : ObjectType := ⟨⟨"Dog"⟩, []⟩

/-- The class of the next object in its place. -/
def cat : ObjectType := ⟨⟨"Cat"⟩, []⟩

/-- The field for the pet. -/
def pet : Field := .instanceField ⟨"Owner"⟩ "pet" (.named ⟨"Dog"⟩)

/-- The field with the first dog in it. -/
def slot : Slot := .new pet (.object dog) (.object ⟨0, 0⟩)

/-- A dog is stored as a pet and freed, and a cat takes its place. -/
def ops : List HeapOp :=
  [.allocate dog, .allocate ⟨⟨"Owner"⟩, []⟩,
    .defineField ⟨1, 0⟩ pet (.object dog) (.object ⟨0, 0⟩), .free ⟨0, 0⟩, .allocate cat]

end Kennel

namespace Heap

/-- The pet still agrees with the class of dogs, though a cat lives in the place that it names. -/
theorem stored_values_agree_kennel :
    (∀ i, empty.frees i Kennel.ops < UInt32.size) ∧
      (empty.run Kennel.ops).classOf ⟨0, 1⟩ = some Kennel.cat ∧
      empty.lastType (some ⟨1, 0⟩) Kennel.slot.key Kennel.ops = some Kennel.slot.ty ∧
      (empty.run Kennel.ops).Agrees Kennel.slot.ty Kennel.slot.value := by
  have hfrees : ∀ i, empty.frees i Kennel.ops < UInt32.size := by
    intro i
    exact Nat.lt_of_le_of_lt (frees_le_length _ _ _) (by decide)
  have hcat : (empty.run Kennel.ops).classOf ⟨0, 1⟩ = some Kennel.cat := by decide +kernel
  have howner : (empty.run Kennel.ops).get ⟨1, 0⟩ = some ⟨⟨⟨"Owner"⟩, []⟩, [Kennel.slot]⟩ := by
    decide +kernel
  have hslot := (stored_values_agree Kennel.ops hfrees).1 ⟨1, 0⟩ _ howner Kennel.slot
    (List.mem_singleton_self _)
  exact ⟨hfrees, hcat, hslot⟩

end Heap

end FieldPath
