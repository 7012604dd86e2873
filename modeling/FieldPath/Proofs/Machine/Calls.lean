import FieldPath.Proofs.Machine.Decoding
import FieldPath.Proofs.Machine.Meaning
import FieldPath.Proofs.Machine.Parallel

/-!
# Calls on an emitter

Straight code is written down as a list of calls on the emitter, each of which sets the line or
writes one instruction.  An instruction takes slots from the top of the stack and puts others there,
so a list of calls has a course: the height after each instruction, as long as none of them takes
what lies beneath a base.  A course counts without bound.  Calls that succeed leave the emitter with
the heights of their course, counted in 32 bits.

A call fails only if an index does not fit into the two bytes of an operand.

## Main definitions

* `Opcode.moves?` — the slots that an operation takes and puts, where the operation alone tells it.
* `Call`, `Emit.calls` — calls on an emitter, one after the other.
* `Call.Wrote` — what a call leaves that has written an instruction.
* `Emitter.Counts` — an emitter counts a height and a greatest height in 32 bits.
* `Emit.course` — the height and the greatest height after some calls.
* `Emit.Needed`, `Emit.Fits` — the indices that some calls need, and that they all fit.

## Main results

* `Call.emit_eq_ok` — **a call sets the line or writes one instruction.**
* `Emit.calls_eq_ok` — **calls that succeed leave the heights of their course.**
* `Emit.calls_of_fits`, `Emit.calls_of_not_fits` — **calls fail exactly for an index that does not
  fit.**
-/

namespace FieldPath

/-! ### Operations -/

/-- The slots that an operation takes from the top of the stack and puts there, for operations that
move a fixed number of slots.  What is only repeated is not taken. -/
def Opcode.moves? : Opcode → Option (Nat × Nat)
  | pushNull => some (0, 1)
  | pop => some (1, 0)
  | pop2 => some (2, 0)
  | dup => some (0, 1)
  | dup2 => some (0, 2)
  | dupX2 => some (3, 4)
  | swap => some (2, 2)
  | _ => none

@[simp] theorem Opcode.moves?_pop : pop.moves? = some (1, 0) := rfl

@[simp] theorem Opcode.moves?_dup : dup.moves? = some (0, 1) := rfl

@[simp] theorem Opcode.moves?_dup2 : dup2.moves? = some (0, 2) := rfl

@[simp] theorem Opcode.moves?_dupX2 : dupX2.moves? = some (3, 4) := rfl

@[simp] theorem Opcode.moves?_swap : swap.moves? = some (2, 2) := rfl

theorem Opcode.fixedEffect?_eq (op : Opcode) :
    op.fixedEffect? = op.moves?.map fun (taken, put) => (put : Int) - taken := by
  cases op <;> rfl

/-- An operation that moves a fixed number of slots has no operand. -/
theorem Opcode.operandSize_of_moves {op : Opcode} {moves : Nat × Nat} (h : op.moves? = some moves) :
    op.operandSize = 0 := by
  cases op <;> first | rfl | simp [moves?] at h

namespace Emit

/-- A width of a value is its number of slots. -/
theorem slots_of_le_two {width : Nat} (h : width ≤ 2) : slots width = width := by
  have hcases : width = 0 ∨ width = 1 ∨ width = 2 := by omega
  rcases hcases with rfl | rfl | rfl <;> rfl

end Emit

/-! ### Calls -/

/-- A call on an emitter: the line is set, or one instruction is written. -/
inductive Call where
  /-- The bytes from here on come from another line. -/
  | line (n : Nat)
  /-- An operation that moves a fixed number of slots. -/
  | fixed (op : Opcode) (taken put : Nat) (moves : op.moves? = some (taken, put))
  /-- Push a local value. -/
  | getLocal (slot width : Nat)
  /-- Pop a value into a local slot. -/
  | setLocal (slot width : Nat)
  /-- Pop an owner and push the value of its field. -/
  | getField (f : Field) (width : Nat)
  /-- Pop a value and its owner, and store the value. -/
  | putField (f : Field) (width : Nat)
  /-- Push the value of a field of a class. -/
  | getStatic (f : Field) (width : Nat)
  /-- Pop a value into a field of a class. -/
  | putStatic (f : Field) (width : Nat)

namespace Call

/-- What the call does to an emitter. -/
def emit : Call → Emit Unit
  | .line n => Emit.setLine n
  | .fixed op _ _ _ => Emit.fixed op
  | .getLocal slot width => Emit.getLocal slot width
  | .setLocal slot width => Emit.setLocal slot width
  | .getField f width => Emit.getField f width
  | .putField f width => Emit.putField f width
  | .getStatic f width => Emit.getStatic f width
  | .putStatic f width => Emit.putStatic f width

/-- The slots that the instruction takes from the top of the stack and puts there. -/
def moves? : Call → Option (Nat × Nat)
  | .line _ => none
  | .fixed _ taken put _ => some (taken, put)
  | .getLocal _ width => some (0, width)
  | .setLocal _ width => some (width, 0)
  | .getField _ width => some (1, width)
  | .putField _ width => some (1 + width, 0)
  | .getStatic _ width => some (0, width)
  | .putStatic _ width => some (width, 0)

/-- The width of the value that is moved in or out. -/
def width : Call → Nat
  | .line _ => 0
  | .fixed _ _ _ _ => 0
  | .getLocal _ width => width
  | .setLocal _ width => width
  | .getField _ width => width
  | .putField _ width => width
  | .getStatic _ width => width
  | .putStatic _ width => width

/-- The change of the height that the emitter is told. -/
def effect : Call → Int
  | .line _ => 0
  | .fixed op _ _ _ => op.fixedEffect?.getD 0
  | .getLocal _ width => Emit.slots width
  | .setLocal _ width => -Emit.slots width
  | .getField _ width => Emit.slots width - 1
  | .putField _ width => -(1 + Emit.slots width)
  | .getStatic _ width => Emit.slots width
  | .putStatic _ width => -Emit.slots width

/-- The emitter is told what the instruction moves. -/
theorem effect_eq {c : Call} {taken put : Nat} (hwidth : c.width ≤ 2)
    (hmoves : c.moves? = some (taken, put)) : c.effect = put - taken := by
  cases c with
  | line n => simp [moves?] at hmoves
  | fixed op taken' put' hop =>
    obtain ⟨rfl, rfl⟩ := Prod.mk.inj (Option.some.inj hmoves)
    rw [effect, Opcode.fixedEffect?_eq, hop]
    rfl
  | _ =>
    obtain ⟨rfl, rfl⟩ := Prod.mk.inj (Option.some.inj hmoves)
    have hslots := Emit.slots_of_le_two hwidth
    simp only [width] at hslots
    simp only [effect, hslots]
    omega

/-- The call writes an instruction. -/
def writes (c : Call) : Bool := c.moves?.isSome

/-- The operations that the instruction may have; an index is written in one byte or two. -/
def ops : Call → List Opcode
  | .line _ => []
  | .fixed op _ _ _ => [op]
  | .getLocal _ _ => [.getLocal, .getLocalWide]
  | .setLocal _ _ => [.setLocal, .setLocalWide]
  | .getField _ _ => [.getField]
  | .putField _ _ => [.putField]
  | .getStatic _ _ => [.getStatic]
  | .putStatic _ _ => [.putStatic]

/-- The local slot of the instruction. -/
def slot? : Call → Option Nat
  | .getLocal slot _ => some slot
  | .setLocal slot _ => some slot
  | _ => none

/-- The field of the instruction. -/
def field? : Call → Option Field
  | .getField f _ => some f
  | .putField f _ => some f
  | .getStatic f _ => some f
  | .putStatic f _ => some f
  | _ => none

/-- The field reference of the instruction. -/
def reference? (c : Call) : Option Constant := c.field?.map Emit.fieldConstant

/-- The operand of the instruction, with a reference for its index. -/
def linked (c : Call) : LinkedOperand :=
  match c.field? with
  | some f => .field f.declaring.internal f.name f.valueClass.descriptor
  | none => .plain c.slot?

/-- The pool after the call. -/
def addTo (pool : ConstantPool) (c : Call) : ConstantPool :=
  match c.reference? with
  | some reference => (pool.add reference).2
  | none => pool

theorem within_addTo (pool : ConstantPool) (c : Call) : pool.Within (c.addTo pool) := by
  unfold addTo
  split
  · exact ConstantPool.within_add _ _
  · exact .refl _

theorem lawful_addTo {pool : ConstantPool} (h : pool.Lawful) (c : Call) :
    (c.addTo pool).Lawful := by
  unfold addTo
  split
  · exact h.add _
  · exact h

/-- The index that has to fit into the operand, with what it stands for. -/
def index? (pool : ConstantPool) (c : Call) : Option (OperandRole × Nat) :=
  match c.reference? with
  | some reference => some (.fieldReference, (pool.add reference).1)
  | none => c.slot?.map fun slot => (.localSlot, slot)

end Call

/-! ### Single calls -/

/-- One instruction was written, for the pool after it: the emitter is told the effect, and code
before it is continued with the instruction. -/
structure Call.Wrote (c : Call) (s s' : Emitter) (op : Opcode) (operand : Operand) : Prop where
  /-- The operation is one of those that the call may write. -/
  op_mem : op ∈ c.ops
  /-- The emitter has the instruction, and the constants that it refers to. -/
  state : s' = Emitter.write { s with pool := c.addTo s.pool } op operand c.effect
  /-- The instruction is decoded with the operand of the call. -/
  encodes : s.pool.Lawful → ∀ {d : Chunk} {code : List Instruction}, d.Encodes s.pool code →
    (d.addInstr op operand s.line).Encodes s'.pool (code ++ [⟨d.size, op, c.linked⟩])

/-- The emitter counts in 32 bits what `state` counts without bound.  Heights wrap around; the
greatest height of the emitter is that of the state as long as no height has wrapped. -/
structure Emitter.Counts (e : Emitter) (state : Int × Int) : Prop where
  /-- The heights agree in 32 bits. -/
  height : e.height = signed32 state.1
  /-- The greatest heights agree in the range of 32 bits. -/
  greatest : state.2 ≤ 2147483647 → e.maxHeight = state.2

theorem Emitter.counts_self (e : Emitter) : e.Counts (e.height, e.maxHeight) :=
  ⟨e.signed32_height.symm, fun _ => rfl⟩

/-- The instruction leaves the height that it should, and the greatest height notices. -/
theorem Call.Wrote.counts {c : Call} {s s' : Emitter} {op : Opcode} {operand : Operand}
    (h : c.Wrote s s' op operand) {taken put : Nat} (hwidth : c.width ≤ 2)
    (hmoves : c.moves? = some (taken, put)) {base height greatest : Int}
    (hlow : -2147483648 ≤ base) (hbase : base ≤ height - taken)
    (hs : s.Counts (height, greatest)) :
    s'.Counts (height - taken + put, max greatest (height - taken + put)) := by
  have heffect := Call.effect_eq hwidth hmoves
  have hsum : height + c.effect = height - taken + put := by omega
  have hheight : signed32 (s.height + c.effect) = signed32 (height - taken + put) := by
    rw [hs.height, signed32_signed32_add, hsum]
  rw [h.state]
  refine ⟨(Emitter.height_write ..).trans hheight, fun hrange => ?_⟩
  have hnext : signed32 (height - taken + put) = height - taken + put :=
    signed32_of_le (by omega) (by omega)
  rw [Emitter.maxHeight_write]
  show max s.maxHeight (signed32 (s.height + c.effect)) = _
  rw [hheight, hnext, hs.greatest (by omega)]

namespace Emit

variable {s s' : Emitter}

theorem wrote_fixed {op : Opcode} {taken put : Nat} (hop : op.moves? = some (taken, put))
    (h : fixed op s = .ok () s') : (Call.fixed op taken put hop).Wrote s s' op .none := by
  obtain ⟨-, rfl⟩ := EStateM.Result.ok.inj h
  refine ⟨List.mem_singleton.mpr rfl, rfl, fun _ d code hd => ?_⟩
  have hsize : Operand.none.bytes.length = op.operandSize :=
    (Opcode.operandSize_of_moves hop).symm
  have hplain : op.isField = false := by cases op <;> first | rfl | simp [Opcode.moves?] at hop
  exact hd.snoc_plain s.line hsize hplain

/-- An instruction with an index has the index as its operand, in one byte or two. -/
theorem wrote_indexed {c : Call} {short wide : Opcode} {slot : Nat}
    (hops : c.ops = [short, wide]) (hpool : c.addTo s.pool = s.pool)
    (hlinked : c.linked = .plain (some slot)) (hshort : short.operandSize = 1)
    (hwide : wide.operandSize = 2) (hshort' : short.isField = false)
    (hwide' : wide.isField = false)
    (h : indexed short wide .localSlot slot c.effect s = .ok () s') :
    ∃ op operand, c.Wrote s s' op operand := by
  rcases indexed_eq_ok h with ⟨hlt, rfl⟩ | ⟨hlt, rfl⟩
  · refine ⟨short, .byte (UInt8.ofNat slot), by simp [hops], by rw [hpool], fun _ d code hd => ?_⟩
    have hnumber : (Operand.byte (UInt8.ofNat slot)).number? = some slot := by
      simpa [Operand.number?] using Nat.mod_eq_of_lt hlt
    rw [hlinked, ← hnumber]
    exact hd.snoc_plain s.line hshort.symm hshort'
  · refine ⟨wide, .word (UInt16.ofNat slot), by simp [hops], by rw [hpool], fun _ d code hd => ?_⟩
    have hnumber : (Operand.word (UInt16.ofNat slot)).number? = some slot := by
      simpa [Operand.number?] using Nat.mod_eq_of_lt hlt
    rw [hlinked, ← hnumber]
    exact hd.snoc_plain s.line hwide.symm hwide'

/-- An instruction on a field has the reference of the field as its operand. -/
theorem wrote_onField {c : Call} {op : Opcode} {f : Field} (hops : c.ops = [op])
    (hfield : c.field? = some f) (hsize : op.operandSize = 2) (hop : op.isField = true)
    (h : onField op f c.effect s = .ok () s') : ∃ op operand, c.Wrote s s' op operand := by
  have hreference : c.reference? = some (fieldConstant f) := by rw [Call.reference?, hfield]; rfl
  have hadd : c.addTo s.pool = (s.pool.add (fieldConstant f)).2 := by
    rw [Call.addTo, hreference]
  have hlinked : c.linked = .field f.declaring.internal f.name f.valueClass.descriptor := by
    rw [Call.linked, hfield]
  obtain ⟨hlt, rfl⟩ := onField_eq_ok h
  refine ⟨op, _, by simp [hops], by rw [hadd], fun hpool d code hd => ?_⟩
  rw [hlinked]
  exact (hd.mono (ConstantPool.within_add _ _)).snoc_field s.line hsize hop hlt
    (ConstantPool.get?_add hpool _)

end Emit

/-- **A call sets the line or writes one instruction.** -/
theorem Call.emit_eq_ok {c : Call} {s s' : Emitter} (h : c.emit s = .ok () s') :
    (∃ n, c = .line n ∧ s' = { s with line := n }) ∨
      (∃ moves, c.moves? = some moves) ∧ ∃ op operand, c.Wrote s s' op operand := by
  cases c with
  | line n => exact Or.inl ⟨n, rfl, (EStateM.Result.ok.inj h).2.symm⟩
  | fixed op taken put hop => exact Or.inr ⟨⟨_, rfl⟩, _, _, Emit.wrote_fixed hop h⟩
  | getLocal slot width =>
    exact Or.inr ⟨⟨_, rfl⟩, Emit.wrote_indexed rfl rfl rfl rfl rfl rfl rfl h⟩
  | setLocal slot width =>
    exact Or.inr ⟨⟨_, rfl⟩, Emit.wrote_indexed rfl rfl rfl rfl rfl rfl rfl h⟩
  | _ => exact Or.inr ⟨⟨_, rfl⟩, Emit.wrote_onField rfl rfl rfl rfl h⟩

/-! ### Sequences of calls -/

namespace Emit

/-- The calls, one after the other. -/
def calls : List Call → Emit Unit
  | [] => return ()
  | c :: rest => do
      c.emit
      calls rest

theorem calls_append (cs ds : List Call) :
    calls (cs ++ ds) = (do calls cs; calls ds) := by
  induction cs with
  | nil => simp [calls]
  | cons c cs ih => simp [calls, ih]

theorem calls_singleton (c : Call) : calls [c] = c.emit := by simp [calls]

/-- The height and the greatest height after some calls, if no instruction takes slots beneath the
base. -/
def course (base : Int) : List Call → Int × Int → Option (Int × Int)
  | [], state => some state
  | c :: rest, (height, greatest) =>
      match c.moves? with
      | none => course base rest (height, greatest)
      | some (taken, put) =>
          if base ≤ height - taken then
            course base rest (height - taken + put, max greatest (height - taken + put))
          else none

theorem course_append (base : Int) (cs ds : List Call) (state : Int × Int) :
    course base (cs ++ ds) state = (course base cs state).bind (course base ds) := by
  induction cs generalizing state with
  | nil => rfl
  | cons c cs ih =>
    simp only [List.cons_append, course]
    split
    · exact ih _
    · split
      · exact ih _
      · rfl

/-- The first call succeeds, and the others from where it ends. -/
theorem calls_cons_eq_ok {c : Call} {cs : List Call} {s s' : Emitter}
    (h : calls (c :: cs) s = .ok () s') : ∃ next, c.emit s = .ok () next ∧
      calls cs next = .ok () s' := by
  obtain ⟨_, next, hc, hcs⟩ := bind_eq_ok h
  exact ⟨next, hc, hcs⟩

theorem course_nil {base : Int} (state : Int × Int) : course base [] state = some state := rfl

theorem course_cons {c : Call} {taken put : Nat} (hmoves : c.moves? = some (taken, put))
    {base height greatest : Int} (h : base ≤ height - taken) (cs : List Call) :
    course base (c :: cs) (height, greatest) =
      course base cs (height - taken + put, max greatest (height - taken + put)) := by
  simp only [course, hmoves, if_pos h]

/-- The course of a call that writes an instruction stays above the base, and goes on from the
height after it. -/
theorem course_cons_eq_some {c : Call} {taken put : Nat} (hmoves : c.moves? = some (taken, put))
    {base : Int} {cs : List Call} {height greatest : Int} {state : Int × Int}
    (h : course base (c :: cs) (height, greatest) = some state) :
    base ≤ height - taken ∧
      course base cs (height - taken + put, max greatest (height - taken + put)) = some state := by
  simp only [course, hmoves] at h
  split at h
  · next hbase => exact ⟨hbase, h⟩
  · simp at h

/-- **Calls that succeed leave the heights of their course.** -/
theorem calls_eq_ok {base : Int} (hlow : -2147483648 ≤ base) {cs : List Call}
    (hwidth : ∀ c ∈ cs, c.width ≤ 2) :
    ∀ {s s' : Emitter} {start state : Int × Int}, calls cs s = .ok () s' → s.Counts start →
      course base cs start = some state → s'.Counts state := by
  induction cs with
  | nil =>
    intro s s' start state h hs hcourse
    obtain ⟨-, rfl⟩ := EStateM.Result.ok.inj h
    obtain rfl := Option.some.inj hcourse
    exact hs
  | cons c cs ih =>
    intro s s' start state h hs hcourse
    obtain ⟨next, hc, hcs⟩ := calls_cons_eq_ok h
    have hrest : ∀ {start}, next.Counts start → course base cs start = some state →
        s'.Counts state := ih (fun d hd => hwidth d (List.mem_cons_of_mem _ hd)) hcs
    rcases Call.emit_eq_ok hc with ⟨n, rfl, rfl⟩ | ⟨⟨⟨taken, put⟩, hmoves⟩, op, operand, hwrote⟩
    · exact hrest ⟨hs.height, hs.greatest⟩ hcourse
    · obtain ⟨hbase, hafter⟩ := course_cons_eq_some hmoves hcourse
      exact hrest (hwrote.counts (hwidth c List.mem_cons_self) hmoves hlow hbase hs) hafter

/-! ### Indices that do not fit -/

/-- An index that the code for some slots and references needs: one of the slots, or the index of
one of the references in the pool that they are added to. -/
def Needed (slots : List Nat) (references : List Constant) (pool : ConstantPool)
    (role : OperandRole) (index : Nat) : Prop :=
  role = .localSlot ∧ index ∈ slots ∨
    role = .fieldReference ∧ index ∈ (pool.addAll references).1

/-- An index that some calls need. -/
def Needs (pool : ConstantPool) (cs : List Call) : OperandRole → Nat → Prop :=
  Needed (cs.filterMap Call.slot?) (cs.filterMap Call.reference?) pool

theorem not_needs_nil (pool : ConstantPool) (role : OperandRole) (index : Nat) :
    ¬ Needs pool [] role index := by
  simp [Needs, Needed, ConstantPool.addAll]

/-- The calls need what the first one needs, and what the others need after it. -/
theorem needs_cons {pool : ConstantPool} {c : Call} {cs : List Call} {role : OperandRole}
    {index : Nat} : Needs pool (c :: cs) role index ↔
      c.index? pool = some (role, index) ∨ Needs (c.addTo pool) cs role index := by
  cases c <;>
    simp [Needs, Needed, Call.index?, Call.addTo, Call.reference?, Call.slot?, Call.field?,
      ConstantPool.addAll, List.filterMap_cons, and_or_left, eq_comm, or_assoc, or_left_comm]

theorem indexed_of_lt {short wide : Opcode} {role : OperandRole} {index : Nat} (h : index < 65536)
    (effect : Int) (s : Emitter) :
    ∃ s', indexed short wide role index effect s = .ok () s' ∧ s'.pool = s.pool := by
  unfold indexed
  split
  · exact ⟨_, rfl, rfl⟩
  · rw [wordOf, if_pos h]
    exact ⟨_, rfl, rfl⟩

theorem indexed_of_ge {short wide : Opcode} {role : OperandRole} {index : Nat}
    (h : 65536 ≤ index) (effect : Int) (s : Emitter) :
    indexed short wide role index effect s = .error (.operandOverflow role index) s := by
  rw [indexed, if_neg (by omega), wordOf, if_neg (by omega)]
  rfl

theorem onField_of_lt {op : Opcode} {f : Field} {s : Emitter}
    (h : (s.pool.add (fieldConstant f)).1 < 65536) (effect : Int) :
    ∃ s', onField op f effect s = .ok () s' ∧ s'.pool = (s.pool.add (fieldConstant f)).2 := by
  rw [onField_eq, if_pos h]
  exact ⟨_, rfl, rfl⟩

theorem onField_of_ge {op : Opcode} {f : Field} {s : Emitter}
    (h : 65536 ≤ (s.pool.add (fieldConstant f)).1) (effect : Int) :
    ∃ s', onField op f effect s =
      .error (.operandOverflow .fieldReference (s.pool.add (fieldConstant f)).1) s' := by
  rw [onField_eq, if_neg (by omega)]
  exact ⟨_, rfl⟩

/-- A call of which the index fits succeeds. -/
theorem emit_of_fits {c : Call} {s : Emitter}
    (h : ∀ role index, c.index? s.pool = some (role, index) → index < 65536) :
    ∃ s', c.emit s = .ok () s' ∧ s'.pool = c.addTo s.pool := by
  cases c with
  | line n => exact ⟨_, rfl, rfl⟩
  | fixed op taken put hop => exact ⟨_, rfl, rfl⟩
  | getLocal slot width => exact indexed_of_lt (h _ _ rfl) _ s
  | setLocal slot width => exact indexed_of_lt (h _ _ rfl) _ s
  | _ => exact onField_of_lt (h _ _ rfl) _

/-- A call of which the index does not fit fails for it. -/
theorem emit_of_not_fits {c : Call} {s : Emitter} {role : OperandRole} {index : Nat}
    (hindex : c.index? s.pool = some (role, index)) (h : 65536 ≤ index) :
    ∃ s', c.emit s = .error (.operandOverflow role index) s' := by
  cases c with
  | line n => exact absurd hindex nofun
  | fixed op taken put hop => exact absurd hindex nofun
  | getLocal slot width =>
    obtain ⟨rfl, rfl⟩ := Prod.mk.inj (Option.some.inj hindex)
    exact ⟨s, indexed_of_ge h _ s⟩
  | setLocal slot width =>
    obtain ⟨rfl, rfl⟩ := Prod.mk.inj (Option.some.inj hindex)
    exact ⟨s, indexed_of_ge h _ s⟩
  | _ =>
    obtain ⟨rfl, rfl⟩ := Prod.mk.inj (Option.some.inj hindex)
    exact onField_of_ge h _

/-- All indices that the calls need fit into two bytes. -/
def Fits (pool : ConstantPool) (cs : List Call) : Prop :=
  ∀ role index, Needs pool cs role index → index < 65536

/-- **Calls of which all indices fit succeed.** -/
theorem calls_of_fits {cs : List Call} :
    ∀ {s : Emitter}, Fits s.pool cs → ∃ s', calls cs s = .ok () s' := by
  induction cs with
  | nil => exact fun _ => ⟨_, rfl⟩
  | cons c cs ih =>
    intro s h
    obtain ⟨next, hc, hpool⟩ :=
      emit_of_fits (c := c) fun role index hi => h role index (needs_cons.mpr (Or.inl hi))
    have hrest : Fits next.pool cs := by
      rw [hpool]
      exact fun role index hn => h role index (needs_cons.mpr (Or.inr hn))
    obtain ⟨s', hcs⟩ := ih hrest
    exact ⟨s', (bind_of_ok hc).trans hcs⟩

/-- **Calls of which some index does not fit fail**, for the first such index. -/
theorem calls_of_not_fits {cs : List Call} :
    ∀ {s : Emitter}, ¬ Fits s.pool cs → ∃ role index s',
      calls cs s = .error (.operandOverflow role index) s' ∧ Needs s.pool cs role index ∧
        65536 ≤ index := by
  induction cs with
  | nil => exact fun h => absurd (fun role index hn => absurd hn (not_needs_nil _ _ _)) h
  | cons c cs ih =>
    intro s h
    by_cases hfirst : ∀ role index, c.index? s.pool = some (role, index) → index < 65536
    · obtain ⟨next, hc, hpool⟩ := emit_of_fits hfirst
      have hrest : ¬ Fits next.pool cs := by
        refine fun hrest => h fun role index hn => ?_
        rcases needs_cons.mp hn with hi | hn
        · exact hfirst role index hi
        · exact hrest role index (by rwa [hpool])
      obtain ⟨role, index, s', herror, hneeds, hlarge⟩ := ih hrest
      rw [hpool] at hneeds
      exact ⟨role, index, s', (bind_of_ok hc).trans herror, needs_cons.mpr (Or.inr hneeds), hlarge⟩
    · obtain ⟨role, index, hi, hlarge⟩ :
          ∃ role index, c.index? s.pool = some (role, index) ∧ 65536 ≤ index := by
        simpa only [not_forall, Nat.not_lt, exists_prop] using hfirst
      obtain ⟨s', herror⟩ := emit_of_not_fits hi hlarge
      refine ⟨role, index, s', ?_, needs_cons.mpr (Or.inl hi), hlarge⟩
      show EStateM.bind c.emit _ s = _
      rw [EStateM.bind, herror]

end Emit

end FieldPath
