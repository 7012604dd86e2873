import FieldPath.Machine.Compile
import FieldPath.Proofs.Machine.Execution
import FieldPath.Proofs.Machine.Pool

/-!
# The meaning of emissions

An emission means a change of the machine when running the code that it emits, whatever code
follows, makes that change.  The meaning of a sequence is made of the meanings of its parts, so the
meaning of the code of an expression is found node by node, without looking at bytes again.

An emission may add constants.  Its code refers to them by index, so it keeps its meaning over every
pool that the final pool is within: other chunks may go on adding to it.

## Main definitions

* `Emit.Means` — an emission means a change of the machine.
* `Loader.Links` — a loader finds a field by its reference.

## Main results

* `Emit.Means.seq` — the meaning of a sequence.
* `Emit.means_onField` — an operation on a field acts on that field.
* `Emit.means_dupValue`, `Emit.means_ownerBelow` — the rearrangements, on the words of a value.
* `Emit.Means.run_chunkOf` — **what running a finished chunk does.**
-/

namespace FieldPath

/-- The loader finds the field of a reference. -/
def Loader.Links (l : Loader) (f : Field) : Prop := l.field? (Emit.fieldConstant f) = some f

/-! ### What an emission does -/

namespace Emitter

theorem code_write (e : Emitter) (op : Opcode) (operand : Operand) (effect : Int) :
    (e.write op operand effect).chunk.code = e.chunk.code ++ (op.toByte :: operand.bytes) := by
  cases operand <;> simp [write, Chunk.writeOp, Chunk.writeWord, Operand.bytes]

end Emitter

namespace Emit

/-- The first part of a sequence succeeded, and the second one from where it ended. -/
theorem bind_eq_ok {α β : Type} {x : Emit α} {f : α → Emit β} {e e' : Emitter} {b : β}
    (h : (x >>= f) e = .ok b e') : ∃ a next, x e = .ok a next ∧ f a next = .ok b e' := by
  change EStateM.bind x f e = _ at h
  unfold EStateM.bind at h
  split at h
  · next a next hx => exact ⟨a, next, hx, h⟩
  · simp at h

theorem bind_of_ok {α β : Type} {x : Emit α} {f : α → Emit β} {e next : Emitter} {a : α}
    (h : x e = .ok a next) : (x >>= f) e = f a next := by
  show EStateM.bind x f e = _
  rw [EStateM.bind, h]

theorem intern_eq (c : Constant) (e : Emitter) :
    intern c e = .ok (e.pool.add c).1 { e with pool := (e.pool.add c).2 } := rfl

/-- An index that is made a word is less than the words there are. -/
theorem wordOf_eq_ok {role : OperandRole} {index : Nat} {e e' : Emitter} {w : UInt16}
    (h : wordOf role index e = .ok w e') :
    index < 65536 ∧ w = UInt16.ofNat index ∧ e' = e := by
  unfold wordOf at h
  split at h
  · next hlt =>
    obtain ⟨hw, he⟩ := EStateM.Result.ok.inj h
    exact ⟨hlt, hw.symm, he.symm⟩
  · exact absurd h (by rintro ⟨⟩)

/-- An operation on a field is written with the index of the field's reference. -/
theorem onField_eq_ok {op : Opcode} {f : Field} {effect : Int} {e e' : Emitter}
    (h : onField op f effect e = .ok () e') :
    (e.pool.add (fieldConstant f)).1 < 65536 ∧
      e' = Emitter.write { e with pool := (e.pool.add (fieldConstant f)).2 } op
        (.word (UInt16.ofNat (e.pool.add (fieldConstant f)).1)) effect := by
  obtain ⟨index, next, hintern, hrest⟩ := bind_eq_ok h
  rw [intern_eq] at hintern
  obtain ⟨rfl, rfl⟩ := EStateM.Result.ok.inj hintern
  obtain ⟨w, next, hword, hwrite⟩ := bind_eq_ok hrest
  obtain ⟨hlt, rfl, rfl⟩ := wordOf_eq_ok hword
  exact ⟨hlt, (EStateM.Result.ok.inj hwrite).2.symm⟩

/-- An operation with an index is written in the short or in the wide form. -/
theorem indexed_eq_ok {short wide : Opcode} {role : OperandRole} {index : Nat} {effect : Int}
    {e e' : Emitter} (h : indexed short wide role index effect e = .ok () e') :
    (index < 256 ∧ e' = e.write short (.byte (UInt8.ofNat index)) effect) ∨
      (index < 65536 ∧ e' = e.write wide (.word (UInt16.ofNat index)) effect) := by
  unfold indexed at h
  split at h
  · next hlt => exact Or.inl ⟨hlt, (EStateM.Result.ok.inj h).2.symm⟩
  · obtain ⟨w, next, hword, hwrite⟩ := bind_eq_ok h
    obtain ⟨hlt, rfl, rfl⟩ := wordOf_eq_ok hword
    exact Or.inr ⟨hlt, (EStateM.Result.ok.inj hwrite).2.symm⟩

/-! ### Meanings -/

variable {γ : Type} [ObjectGraph γ] {l : Loader}

/-- The emission means the change `act`: it adds code that makes this change before the rest runs,
over every pool that the pool it leaves is within. -/
def Means (l : Loader) (x : Emit Unit) (act : Machine.Action γ) : Prop :=
  ∀ e e', e.pool.Lawful → x e = .ok () e' →
    e'.pool.Lawful ∧ e.pool.Within e'.pool ∧ ∃ code, e'.chunk.code = e.chunk.code ++ code ∧
      ∀ pool, e'.pool.Within pool → ∀ rest m,
        Machine.run l pool (code ++ rest) m = (act m).bind (Machine.run l pool rest)

/-- An emission that writes nothing changes nothing. -/
theorem means_of_silent {x : Emit Unit}
    (h : ∀ e e', x e = .ok () e' → e'.pool = e.pool ∧ e'.chunk = e.chunk) :
    Means l x (.ok : Machine.Action γ) := by
  intro e e' hpool hx
  obtain ⟨hp, hc⟩ := h e e' hx
  rw [hp, hc]
  exact ⟨hpool, .refl _, [], by simp, fun pool _ rest m => rfl⟩

theorem means_setLine (line : Nat) : Means l (setLine line) (.ok : Machine.Action γ) := by
  refine means_of_silent fun e e' h => ?_
  obtain ⟨-, rfl⟩ := EStateM.Result.ok.inj h
  exact ⟨rfl, rfl⟩

theorem means_verify (start delta : Int) (context : String) :
    Means l (verify start delta context) (.ok : Machine.Action γ) := by
  refine means_of_silent fun e e' h => ?_
  obtain ⟨e₁, next, hget, h⟩ := bind_eq_ok h
  obtain ⟨rfl, rfl⟩ := EStateM.Result.ok.inj hget
  simp only at h
  split at h
  · obtain ⟨-, rfl⟩ := EStateM.Result.ok.inj h
    exact ⟨rfl, rfl⟩
  · exact absurd h (by rintro ⟨⟩)

/-- **The meaning of a sequence.** -/
theorem Means.seq {x y : Emit Unit} {act act' : Machine.Action γ}
    (hx : Means l x act) (hy : Means l y act') :
    Means l (do x; y) fun m => (act m).bind act' := by
  intro e e' hpool h
  obtain ⟨u, next, hxe, hye⟩ := bind_eq_ok h
  obtain ⟨hlawful, hwithin, code, hcode, hrun⟩ := hx e next hpool hxe
  obtain ⟨hlawful', hwithin', code', hcode', hrun'⟩ := hy next e' hlawful hye
  refine ⟨hlawful', hwithin.trans hwithin', code ++ code', ?_, fun pool hp rest m => ?_⟩
  · rw [hcode', hcode, List.append_assoc]
  · -- the first part refers to a pool that the second only adds to
    rw [List.append_assoc, hrun pool (hwithin'.trans hp)]
    show _ = ((act m).bind act').bind _
    cases act m with
    | error fault => rfl
    | ok m' => exact hrun' pool hp rest m'

theorem Means.congr {x : Emit Unit} {act act' : Machine.Action γ}
    (h : Means l x act) (heq : ∀ m, act m = act' m) : Means l x act' := by
  have hact : act = act' := funext heq
  rw [← hact]
  exact h

theorem Means.after {x y : Emit Unit} {act : Machine.Action γ}
    (hx : Means l x (.ok : Machine.Action γ)) (hy : Means l y act) : Means l (do x; y) act :=
  (hx.seq hy).congr fun _ => rfl

theorem Means.before {x y : Emit Unit} {act : Machine.Action γ}
    (hx : Means l x act) (hy : Means l y (.ok : Machine.Action γ)) : Means l (do x; y) act :=
  (hx.seq hy).congr fun m => by cases act m <;> rfl

/-- The height may be noted anywhere. -/
theorem means_mark {f : Int → Emit Unit} {act : Machine.Action γ}
    (h : ∀ start, Means l (f start) act) : Means l (do let start ← mark; f start) act := by
  intro e e' hpool hf
  obtain ⟨start, next, hmark, hf⟩ := bind_eq_ok hf
  obtain ⟨-, rfl⟩ := EStateM.Result.ok.inj hmark
  exact h start _ e' hpool hf

/-! ### Single operations -/

/-- An operation that does not look at the pool means what it does. -/
theorem means_write {op : Opcode} {operand : Operand}
    (hsize : operand.bytes.length = op.operandSize) (effect : Int)
    {act : Machine.Action γ}
    (hact : ∀ pool m, Machine.step l pool op operand.toNat m = act m) :
    Means l (write op operand effect) act := by
  intro e e' hpool h
  obtain ⟨-, rfl⟩ := EStateM.Result.ok.inj h
  refine ⟨hpool, .refl _, _, Emitter.code_write e op operand effect, fun pool _ rest m => ?_⟩
  rw [Machine.run_instruction l pool hsize, hact]

/-- An operation with an index means what it does at that index, in both forms. -/
theorem means_indexed {short wide : Opcode} {role : OperandRole} {index : Nat} {effect : Int}
    {act : Machine.Action γ} (hshort : short.operandSize = 1)
    (hwide : wide.operandSize = 2)
    (hact : ∀ pool m, Machine.step l pool short index m = act m ∧
      Machine.step l pool wide index m = act m) :
    Means l (indexed short wide role index effect) act := by
  intro e e' hpool h
  rcases indexed_eq_ok h with ⟨hlt, rfl⟩ | ⟨hlt, rfl⟩
  · refine ⟨hpool, .refl _, _, Emitter.code_write e _ _ effect, fun pool _ rest m => ?_⟩
    have hsize : (Operand.byte (UInt8.ofNat index)).bytes.length = short.operandSize := hshort.symm
    have hindex : (Operand.byte (UInt8.ofNat index)).toNat = index := by
      simpa [Operand.toNat] using Nat.mod_eq_of_lt hlt
    rw [Machine.run_instruction l pool hsize, hindex, (hact pool m).1]
  · refine ⟨hpool, .refl _, _, Emitter.code_write e _ _ effect, fun pool _ rest m => ?_⟩
    have hsize : (Operand.word (UInt16.ofNat index)).bytes.length = wide.operandSize := hwide.symm
    have hindex : (Operand.word (UInt16.ofNat index)).toNat = index := by
      simpa [Operand.toNat] using Nat.mod_eq_of_lt hlt
    rw [Machine.run_instruction l pool hsize, hindex, (hact pool m).2]

theorem means_getLocal (slot width : Nat) :
    Means l (getLocal slot width) (Machine.getLocal slot : Machine.Action γ) :=
  means_indexed rfl rfl fun _ _ => ⟨rfl, rfl⟩

theorem means_setLocal (slot width : Nat) :
    Means l (setLocal slot width) (Machine.setLocal slot : Machine.Action γ) :=
  means_indexed rfl rfl fun _ _ => ⟨rfl, rfl⟩

/-- **An operation on a field acts on that field**, which the loader finds by the reference that
the emission put into the pool. -/
theorem means_onField {op : Opcode} {f : Field} {effect : Int} (hop : op.operandSize = 2)
    {act : Machine.Action γ} (hlink : l.Links f)
    (hact : ∀ pool index m, Machine.operandOf l.field? pool index = .ok f →
      Machine.step l pool op index m = act m) :
    Means l (onField op f effect) act := by
  intro e e' hpool h
  obtain ⟨hlt, rfl⟩ := onField_eq_ok h
  refine ⟨hpool.add _, ConstantPool.within_add _ _, _, Emitter.code_write _ _ _ effect,
    fun pool hp rest m => ?_⟩
  generalize hi : (e.pool.add (fieldConstant f)).1 = index at hlt
  have hsize : (Operand.word (UInt16.ofNat index)).bytes.length = op.operandSize := hop.symm
  have hindex : (Operand.word (UInt16.ofNat index)).toNat = index := by
    simpa [Operand.toNat] using Nat.mod_eq_of_lt hlt
  -- the reference stands at its index in the final pool, whatever was added after it
  have hget : pool.get? index = some (fieldConstant f) :=
    hp _ _ (hi ▸ ConstantPool.get?_add hpool _)
  rw [Machine.run_instruction l pool hsize, hindex, hact]
  rw [Machine.operandOf, hget, Option.bind_some, hlink]

theorem means_getField {f : Field} (hlink : l.Links f) (width : Nat) :
    Means l (getField f width) (Machine.getField f : Machine.Action γ) :=
  means_onField rfl hlink fun pool index m h => by rw [Machine.step, h]; rfl

theorem means_putField {f : Field} (hlink : l.Links f) (width : Nat) :
    Means l (putField f width) (Machine.putField f : Machine.Action γ) :=
  means_onField rfl hlink fun pool index m h => by rw [Machine.step, h]; rfl

theorem means_getStatic {f : Field} (hlink : l.Links f) (width : Nat) :
    Means l (getStatic f width) (Machine.getStatic f : Machine.Action γ) :=
  means_onField rfl hlink fun pool index m h => by rw [Machine.step, h]; rfl

theorem means_putStatic {f : Field} (hlink : l.Links f) (width : Nat) :
    Means l (putStatic f width) (Machine.putStatic f : Machine.Action γ) :=
  means_onField rfl hlink fun pool index m h => by rw [Machine.step, h]; rfl

end Emit

/-! ### Rearrangements -/

namespace Machine

variable {γ : Type}

/-- One or two topmost slots are repeated. -/
def dupValue (width : Nat) (m : Machine γ) : Except Fault (Machine γ) :=
  if width = 2 then m.rearrange fun | a :: b :: s => some (a :: b :: a :: b :: s) | _ => none
  else m.rearrange fun | a :: s => some (a :: a :: s) | _ => none

/-- The topmost slot is moved beneath one or two others. -/
def ownerBelow (width : Nat) (m : Machine γ) : Except Fault (Machine γ) :=
  if width = 2 then
    (m.rearrange fun | a :: b :: c :: s => some (a :: b :: c :: a :: s) | _ => none).bind fun m =>
      m.rearrange fun | _ :: s => some s | _ => none
  else m.rearrange fun | a :: b :: s => some (b :: a :: s) | _ => none

theorem dupValue_words {width : Nat} {v : Value} (hv : v.width = width) (s : List Word)
    (locals : Locals) (objects : γ) :
    dupValue width ⟨v.words ++ s, locals, objects⟩ =
      .ok ⟨v.words ++ (v.words ++ s), locals, objects⟩ := by
  subst hv
  unfold dupValue
  rcases v.width_eq_one_or_two with h | h
  · rw [h, Value.words_of_width_one h]
    rfl
  · rw [h, Value.words_of_width_two h]
    rfl

/-- A word on top of a value of the width is moved beneath it. -/
theorem ownerBelow_words {width : Nat} {v : Value} (hv : v.width = width) (a : Word)
    (s : List Word) (locals : Locals) (objects : γ) :
    ownerBelow width ⟨a :: (v.words ++ s), locals, objects⟩ =
      .ok ⟨v.words ++ (a :: s), locals, objects⟩ := by
  subst hv
  unfold ownerBelow
  rcases v.width_eq_one_or_two with h | h
  · rw [h, Value.words_of_width_one h]
    rfl
  · rw [h, Value.words_of_width_two h]
    rfl

end Machine

namespace Emit

variable {γ : Type} [ObjectGraph γ] {l : Loader}

theorem means_dupValue (width : Nat) :
    Means l (dupValue width) (Machine.dupValue width : Machine.Action γ) := by
  unfold dupValue Machine.dupValue
  split
  · exact means_write rfl _ fun _ _ => rfl
  · exact means_write rfl _ fun _ _ => rfl

theorem means_ownerBelow (width : Nat) :
    Means l (ownerBelow width) (Machine.ownerBelow width : Machine.Action γ) := by
  unfold ownerBelow Machine.ownerBelow
  split
  · exact (means_write rfl _ fun _ _ => rfl).seq (means_write rfl _ fun _ _ => rfl)
  · exact means_write rfl _ fun _ _ => rfl

/-- **Running a finished chunk makes the change that its emission means.** -/
theorem Means.run_chunkOf {x : Emit Unit} {act : Machine.Action γ}
    (hx : Means l x act) {pool pool' final : ConstantPool} {chunk : Chunk} (hpool : pool.Lawful)
    (hchunk : x.chunkOf pool = (.ok chunk, pool')) (hfinal : pool'.Within final)
    (m : Machine γ) : m.run l final chunk.code = act m := by
  unfold chunkOf at hchunk
  split at hchunk
  · next e he =>
    obtain ⟨hc, rfl⟩ := Prod.mk.inj hchunk
    obtain rfl := Except.ok.inj hc
    obtain ⟨-, -, code, hcode, hrun⟩ := hx (.new pool) e hpool he
    -- the emission started with no code, so all code of the chunk is its own
    have hcode' : e.chunk.code = code := hcode
    have hall := hrun final hfinal [] m
    rw [List.append_nil] at hall
    rw [hcode', hall]
    cases act m <;> rfl
  · simp at hchunk

end Emit

end FieldPath
