import FieldPath.Proofs.Machine.Execution
import FieldPath.Proofs.Machine.Pool

/-!
# Decoded code

The bytes of a chunk are read as instructions.  The operand of an operation on a field is an index
into the pool, and stands for the reference that is found there; the other operands are numbers that
stand for themselves.  With the references in the place of the indices, code can be compared across
pools.

Code grows by whole instructions.  One more instruction is decoded after the ones before it, and
changes nothing about them; neither does one more constant in the pool.

## Main definitions

* `Opcode.isField` — the operand is the index of a field reference.
* `Chunk.linked?` — the instructions of a chunk, with references for indices.
* `Chunk.Encodes` — a chunk is the code of some instructions, and nothing is left over.
* `Chunk.SameCode` — two chunks have the same instructions, each over its own pool.

## Main results

* `Chunk.Encodes.snoc` — one more instruction is decoded last.
* `Chunk.Encodes.mono` — the code stays what it is when the pool grows.
* `Chunk.Encodes.linked?` — **a chunk that encodes instructions is decoded as them.**
-/

namespace FieldPath

/-! ### Instructions -/

/-- The operand of the operation is the index of a field reference. -/
def Opcode.isField : Opcode → Bool
  | .getField | .putField | .getStatic | .putStatic => true
  | _ => false

/-- What the operand of an instruction stands for. -/
inductive LinkedOperand where
  /-- A number, if there is an operand. -/
  | plain (n : Option Nat)
  /-- A field, by the three texts of its reference. -/
  | field (owner name descriptor : String)
  deriving DecidableEq, Repr

/-- An instruction that does not depend on a pool. -/
structure Instruction where
  /-- Where the instruction starts. -/
  offset : Nat
  /-- The operation. -/
  op : Opcode
  /-- The operand. -/
  operand : LinkedOperand
  deriving DecidableEq, Repr

/-- The number of an operand, if there is one. -/
def Operand.number? : Operand → Option Nat
  | .none => Option.none
  | .byte n => some n.toNat
  | .word n => some n.toNat

namespace Chunk

/-- The operand of the operation at an offset, if its reference is in the pool. -/
def linkedOperand? (pool : ConstantPool) (c : Chunk) (offset : Nat) (op : Opcode) :
    Option LinkedOperand :=
  if op.isField then
    match (c.operand? offset op).bind pool.get? with
    | some (.fieldRef owner name descriptor) => some (.field owner name descriptor)
    | _ => none
  else some (.plain (c.operand? offset op))

/-- The instructions of a chunk, if the pool has all references. -/
def linked? (pool : ConstantPool) (c : Chunk) : Option (List Instruction) :=
  c.instructions.mapM fun i => (c.linkedOperand? pool i.1 i.2).map (⟨i.1, i.2, ·⟩)

/-- The chunks have the same lines and the same instructions, each over its own pool. -/
def SameCode (p q : ConstantPool) (c d : Chunk) : Prop :=
  c.lines = d.lines ∧ ∃ code, c.linked? p = some code ∧ d.linked? q = some code

/-! ### One more instruction -/

/-- The chunk with one more instruction. -/
def addInstr (c : Chunk) (op : Opcode) (operand : Operand) (line : Nat) : Chunk :=
  match operand with
  | .none => c.writeOp op line
  | .byte n => (c.writeOp op line).write n line
  | .word n => (c.writeOp op line).writeWord n line

variable {c : Chunk} {op : Opcode} {operand : Operand} {line : Nat}

theorem code_addInstr :
    (c.addInstr op operand line).code = c.code ++ op.toByte :: operand.bytes := by
  cases operand <;> simp [addInstr, writeOp, writeWord, Operand.bytes]

theorem lines_addInstr : (c.addInstr op operand line).lines =
    c.lines ++ List.replicate (1 + operand.bytes.length) line := by
  cases operand <;>
    simp [addInstr, writeOp, writeWord, Operand.bytes, List.replicate_succ]

theorem length_code (c : Chunk) : c.code.length = c.size := by simp [code, size]

theorem size_eq_of_lines {d : Chunk} (h : c.lines = d.lines) : c.size = d.size := by
  rw [← length_code, ← length_code, ← length_lines, ← length_lines, h]

theorem size_addInstr (hsize : operand.bytes.length = op.operandSize) :
    (c.addInstr op operand line).size = c.size + 1 + op.operandSize := by
  rw [← length_code, code_addInstr, List.length_append, length_code, List.length_cons, hsize]
  omega

theorem byte?_eq (c : Chunk) (offset : Nat) : c.byte? offset = c.code[offset]? := by
  simp [byte?, code]

/-- Operands before the end are not changed by what is added. -/
theorem operand?_addInstr_of_lt {offset : Nat} {op' : Opcode}
    (h : offset + op'.operandSize < c.size) :
    (c.addInstr op operand line).operand? offset op' = c.operand? offset op' := by
  have hbyte : ∀ i, i < c.size → (c.addInstr op operand line).byte? i = c.byte? i := by
    intro i hi
    rw [byte?_eq, byte?_eq, code_addInstr, List.getElem?_append_left (by rwa [length_code])]
  unfold operand?
  split
  · next hone =>
    rw [hbyte (offset + 1) (by omega)]
  · next htwo =>
    rw [word?, word?, hbyte (offset + 1) (by omega), hbyte (offset + 1 + 1) (by omega)]
  · rfl

/-- The operand of the last instruction is the number that was written. -/
theorem operand?_addInstr_self (hsize : operand.bytes.length = op.operandSize) :
    (c.addInstr op operand line).operand? c.size op = operand.number? := by
  have hbyte : ∀ i, (c.addInstr op operand line).byte? (c.size + 1 + i) = operand.bytes[i]? := by
    intro i
    rw [byte?_eq, code_addInstr, List.getElem?_append_right (by rw [length_code]; omega),
      length_code, show c.size + 1 + i - c.size = i + 1 by omega, List.getElem?_cons_succ]
  have hfirst := hbyte 0
  have hsecond := hbyte 1
  rw [Nat.add_zero] at hfirst
  cases operand with
  | none => rw [operand?, ← hsize]; rfl
  | byte n =>
    rw [operand?, ← hsize]
    show ((addInstr c op (.byte n) line).byte? (c.size + 1)).map _ = _
    rw [hfirst]
    rfl
  | word n =>
    rw [operand?, ← hsize]
    show ((addInstr c op (.word n) line).word? (c.size + 1)).map _ = _
    rw [word?, hfirst, hsecond]
    exact congrArg (some ·.toNat) (wordOfBytes_bytes n)

/-- An instruction is added to the end of a chunk, whatever is before it. -/
theorem cells_addInstr {c d : Chunk} {before : Array Cell}
    (h : c.cells = before ++ d.cells) (op : Opcode) (operand : Operand) (line : Nat) :
    (c.addInstr op operand line).cells = before ++ (d.addInstr op operand line).cells := by
  cases operand <;>
    simp [addInstr, writeOp, writeWord, write, h, Array.push_append]

theorem line?_eq (c : Chunk) (offset : Nat) : c.line? offset = c.lines[offset]? := by
  simp [line?, lines]

/-- Lines before the end are not changed by what is added. -/
theorem line?_addInstr_of_lt {offset : Nat} (h : offset < c.size) :
    (c.addInstr op operand line).line? offset = c.line? offset := by
  rw [line?_eq, line?_eq, lines_addInstr,
    List.getElem?_append_left (by rwa [length_lines, length_code])]

/-- All bytes of the last instruction have its line. -/
theorem line?_addInstr_self (hsize : operand.bytes.length = op.operandSize) {k : Nat}
    (hk : k ≤ op.operandSize) : (c.addInstr op operand line).line? (c.size + k) = some line := by
  have hpast : c.lines.length ≤ c.size + k := by
    rw [length_lines, length_code]
    exact Nat.le_add_right _ _
  rw [line?_eq, lines_addInstr, List.getElem?_append_right hpast, length_lines, length_code,
    Nat.add_sub_cancel_left, hsize, List.getElem?_replicate, if_pos (by omega)]

/-! ### Decoding -/

/-- The bytes of an operand are skipped. -/
theorem decode_skip (offset : Nat) (bytes rest : List UInt8) :
    decode offset bytes.length (bytes ++ rest) = decode (offset + bytes.length) 0 rest := by
  induction bytes generalizing offset with
  | nil => rfl
  | cons b bytes ih =>
    rw [List.length_cons, List.cons_append, decode, ih]
    congr 1
    omega

theorem decode_instr (hsize : operand.bytes.length = op.operandSize) (offset : Nat)
    (rest : List UInt8) :
    decode offset 0 (op.toByte :: operand.bytes ++ rest) =
      (offset, op) :: decode (offset + 1 + op.operandSize) 0 rest := by
  rw [List.cons_append, decode, Opcode.ofByte?_toByte]
  simp only
  rw [← hsize, decode_skip]

/-- The chunk is the code of some instructions over a pool. -/
structure Encodes (pool : ConstantPool) (c : Chunk) (code : List Instruction) : Prop where
  /-- Decoding finds the operations, and goes on with whatever follows the chunk. -/
  decode : ∀ rest, Chunk.decode 0 0 (c.code ++ rest) =
    code.map (fun i => (i.offset, i.op)) ++ Chunk.decode c.size 0 rest
  /-- The operands are all there, and stand for what they should. -/
  operands : ∀ i ∈ code, i.offset + i.op.operandSize < c.size ∧
    c.linkedOperand? pool i.offset i.op = some i.operand

theorem encodes_empty (pool : ConstantPool) : empty.Encodes pool [] :=
  ⟨fun _ => rfl, by simp⟩

variable {pool pool' : ConstantPool} {code : List Instruction}

/-- **One more instruction is decoded last.** -/
theorem Encodes.snoc (h : c.Encodes pool code) (hsize : operand.bytes.length = op.operandSize)
    {linked : LinkedOperand}
    (hlinked : (c.addInstr op operand line).linkedOperand? pool c.size op = some linked) :
    (c.addInstr op operand line).Encodes pool (code ++ [⟨c.size, op, linked⟩]) := by
  constructor
  · intro rest
    rw [code_addInstr, List.append_assoc, h.decode, decode_instr hsize, size_addInstr hsize]
    simp
  · intro i hi
    rw [size_addInstr hsize]
    rcases List.mem_append.mp hi with hi | hi
    · obtain ⟨hlt, hop⟩ := h.operands i hi
      refine ⟨by omega, ?_⟩
      rw [← hop, linkedOperand?, linkedOperand?, operand?_addInstr_of_lt hlt]
    · obtain rfl := List.mem_singleton.mp hi
      exact ⟨by simp only; omega, hlinked⟩

theorem Encodes.snoc_plain (h : c.Encodes pool code) (line : Nat)
    (hsize : operand.bytes.length = op.operandSize) (hop : op.isField = false) :
    (c.addInstr op operand line).Encodes pool
      (code ++ [⟨c.size, op, .plain operand.number?⟩]) := by
  apply h.snoc hsize
  rw [linkedOperand?, if_neg (by simp [hop]), operand?_addInstr_self hsize]

theorem Encodes.snoc_field (h : c.Encodes pool code) (line : Nat)
    (hsize : op.operandSize = 2) (hop : op.isField = true) {index : Nat} (hindex : index < 65536)
    {owner name descriptor : String}
    (hget : pool.get? index = some (.fieldRef owner name descriptor)) :
    (c.addInstr op (.word (UInt16.ofNat index)) line).Encodes pool
      (code ++ [⟨c.size, op, .field owner name descriptor⟩]) := by
  have hword : (UInt16.ofNat index).toNat = index := by simpa using Nat.mod_eq_of_lt hindex
  have hlen : (Operand.word (UInt16.ofNat index)).bytes.length = op.operandSize := hsize.symm
  apply h.snoc hlen
  rw [linkedOperand?, if_pos hop, operand?_addInstr_self hlen, Operand.number?, hword,
    Option.bind_some, hget]

/-- The code stays what it is when the pool grows. -/
theorem Encodes.mono (h : c.Encodes pool code) (hpool : pool.Within pool') :
    c.Encodes pool' code := by
  refine ⟨h.decode, fun i hi => ⟨(h.operands i hi).1, ?_⟩⟩
  have hop := (h.operands i hi).2
  unfold linkedOperand? at hop ⊢
  split
  · next hfield =>
    rw [if_pos hfield] at hop
    split at hop
    · next owner name descriptor hget =>
      obtain ⟨index, hindex, hat⟩ := Option.bind_eq_some_iff.mp hget
      rw [hindex, Option.bind_some, hpool _ _ hat]
      exact hop
    · simp at hop
  · next hplain => rwa [if_neg hplain] at hop

/-- **A chunk that encodes instructions is decoded as them.** -/
theorem Encodes.linked? (h : c.Encodes pool code) : c.linked? pool = some code := by
  have hinstructions : c.instructions = code.map fun i => (i.offset, i.op) := by
    have hall := h.decode []
    rwa [List.append_nil, Chunk.decode, List.append_nil] at hall
  have hoperands : ∀ i ∈ code, (c.linkedOperand? pool i.offset i.op).map
      (Instruction.mk i.offset i.op) = some i := by
    intro i hi
    rw [(h.operands i hi).2]
    rfl
  rw [Chunk.linked?, hinstructions]
  clear h hinstructions
  induction code with
  | nil => rfl
  | cons i code ih =>
    have hrest := ih fun j hj => hoperands j (List.mem_cons_of_mem _ hj)
    rw [List.map_cons, List.mapM_cons, hoperands i List.mem_cons_self, hrest]
    rfl

end Chunk

end FieldPath
