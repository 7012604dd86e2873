import FieldPath.Proofs.Machine.Calls

/-!
# Requests to an emitter

An emitter is asked for one thing after the other: to go on with another line, or to write an
instruction.  A request is granted or refused, and one that is refused is passed over.  The code
that comes out is read again byte by byte.  What is read is what was asked for: the operation in its
short form exactly if the operand is below 256, and the operand, which is a slot or the index of a
constant in the pool.  Encoding and decoding share nothing but the sizes of operands, so one wrong
size would shift all that follows.

## Main definitions

* `Wanted`, `Request` — an instruction that is asked for, and a request.
* `Chunk.Holds` — an instruction of a chunk is one that was asked for.
* `Chunk.Records` — the code of a chunk is what was asked for, from end to end.
* `Emitter.askAll`, `Emitter.granted` — requests, one after the other, and those that are granted.

## Main results

* `Chunk.Records.snoc` — one more instruction is recorded last.
* `Request.granted_or_refused` — **a request is refused exactly if an index does not fit**, and then
  it leaves the code and the heights alone.
* `Emitter.records_askAll` — requests record what they are granted.
* `decode_requested` — **decoding undoes emission.**
-/

namespace FieldPath

/-! ### Instructions that are asked for -/

/-- What the operand of an instruction stands for. -/
inductive Referent where
  /-- There is no operand. -/
  | none
  /-- A local slot. -/
  | slot (n : Nat)
  /-- A constant of the pool. -/
  | pooled (c : Constant)

namespace Referent

/-- The operand stands for the referent: a slot for itself, and an index for the constant that is
there in the pool. -/
def IsAt (pool : ConstantPool) : Referent → Option Nat → Prop
  | .none, operand => operand = Option.none
  | .slot n, operand => operand = some n
  | .pooled c, operand => ∃ index, operand = some index ∧ pool.get? index = some c

/-- The number that is to be the operand, and that has to fit. -/
def index? (pool : ConstantPool) : Referent → Option Nat
  | .none => Option.none
  | .slot n => some n
  | .pooled c => some (pool.add c).1

/-- The pool with what the operand stands for. -/
def addTo (pool : ConstantPool) : Referent → ConstantPool
  | .pooled c => (pool.add c).2
  | _ => pool

theorem IsAt.mono {pool pool' : ConstantPool} {r : Referent} {operand : Option Nat}
    (h : r.IsAt pool operand) (hpool : pool.Within pool') : r.IsAt pool' operand := by
  cases r with
  | pooled c =>
    obtain ⟨index, hindex, hget⟩ := h
    exact ⟨index, hindex, hpool _ _ hget⟩
  | _ => exact h

theorem within_addTo (pool : ConstantPool) (r : Referent) : pool.Within (r.addTo pool) := by
  cases r with
  | pooled c => exact ConstantPool.within_add _ _
  | _ => exact .refl _

theorem lawful_addTo {pool : ConstantPool} (h : pool.Lawful) (r : Referent) :
    (r.addTo pool).Lawful := by
  cases r with
  | pooled c => exact h.add c
  | _ => exact h

/-- The index that is answered stands for the referent from then on. -/
theorem isAt_index? {pool : ConstantPool} (h : pool.Lawful) (r : Referent) :
    r.IsAt (r.addTo pool) (r.index? pool) := by
  cases r with
  | none => rfl
  | slot n => rfl
  | pooled c => exact ⟨_, rfl, ConstantPool.get?_add h c⟩

end Referent

/-- An instruction that an emitter is asked for.  The short operation is for operands below 256 and
the wide one for all others; they are the same if the operand has one form only, or none. -/
structure Wanted where
  /-- The short operation. -/
  short : Opcode
  /-- The wide operation. -/
  wide : Opcode
  /-- What the operand stands for. -/
  referent : Referent

namespace Wanted

/-- An instruction without operand. -/
def fixed (op : Opcode) : Wanted := ⟨op, op, .none⟩

/-- An instruction that pushes a constant. -/
def constant (c : Constant) : Wanted := ⟨.constant, .constantWide, .pooled c⟩

/-- An instruction on a field. -/
def field (op : Opcode) (f : Field) : Wanted := ⟨op, op, .pooled (Emit.fieldConstant f)⟩

/-- The operation for an operand. -/
def opFor (q : Wanted) (operand : Option Nat) : Opcode :=
  if operand.getD 0 < 256 then q.short else q.wide

/-- The operation and the operand are the instruction that is asked for. -/
structure WrittenAs (pool : ConstantPool) (q : Wanted) (w : Opcode × Operand) : Prop where
  /-- The operand has the size that the operation has for it. -/
  size : w.2.bytes.length = w.1.operandSize
  /-- The operation has the form for the operand. -/
  op_eq : w.1 = q.opFor w.2.number?
  /-- The operand stands for what is asked for. -/
  isAt : q.referent.IsAt pool w.2.number?

end Wanted

/-! ### Code that records what was asked for -/

namespace Chunk

/-- The instruction of the chunk, an operation at an offset, is the one that was asked for, and all
of its bytes have the line. -/
structure Holds (pool : ConstantPool) (c : Chunk) (asked : Wanted × Nat) (i : Nat × Opcode) :
    Prop where
  /-- The operation has the form for the operand that is read. -/
  op_eq : i.2 = asked.1.opFor (c.operand? i.1 i.2)
  /-- The operand that is read stands for what was asked for. -/
  isAt : asked.1.referent.IsAt pool (c.operand? i.1 i.2)
  /-- The operation and its operand have the line. -/
  line : ∀ k, k ≤ i.2.operandSize → c.line? (i.1 + k) = some asked.2

/-- The instructions follow each other from one offset to another, each right behind the operand of
the one before. -/
def Consecutive : Nat → List (Nat × Opcode) → Nat → Prop
  | start, [], stop => start = stop
  | start, (offset, op) :: rest, stop =>
      offset = start ∧ Consecutive (start + 1 + op.operandSize) rest stop

/-- The code of the chunk is what was asked for, and nothing is left over. -/
structure Records (pool : ConstantPool) (c : Chunk) (asked : List (Wanted × Nat))
    (code : List (Nat × Opcode)) : Prop where
  /-- Decoding finds the code, and goes on with whatever follows the chunk. -/
  decode : ∀ rest, Chunk.decode 0 0 (c.code ++ rest) = code ++ Chunk.decode c.size 0 rest
  /-- The code fills the chunk. -/
  consecutive : Consecutive 0 code c.size
  /-- Each instruction is the one that was asked for. -/
  holds : List.Forall₂ (c.Holds pool) asked code

variable {c : Chunk} {pool pool' : ConstantPool} {asked : List (Wanted × Nat)}
  {code : List (Nat × Opcode)} {op : Opcode} {operand : Operand} {line : Nat}

theorem consecutive_snoc {start stop : Nat} (h : Consecutive start code stop) (op : Opcode) :
    Consecutive start (code ++ [(stop, op)]) (stop + 1 + op.operandSize) := by
  induction code generalizing start with
  | nil =>
    obtain rfl : start = stop := h
    exact ⟨rfl, rfl⟩
  | cons i code ih => exact ⟨h.1, ih h.2⟩

/-- What stands in a chunk stays there when one more instruction is added. -/
theorem Holds.addInstr {q : Wanted × Nat} {i : Nat × Opcode} (h : c.Holds pool q i) :
    (c.addInstr op operand line).Holds pool q i := by
  have hbound : ∀ k, k ≤ i.2.operandSize → i.1 + k < c.size := by
    intro k hk
    have hline := h.line k hk
    rw [line?_eq] at hline
    have hlt := (List.getElem?_eq_some_iff.mp hline).1
    rwa [length_lines, length_code] at hlt
  have hoperand : (c.addInstr op operand line).operand? i.1 i.2 = c.operand? i.1 i.2 :=
    operand?_addInstr_of_lt (hbound _ (Nat.le_refl _))
  constructor
  · rw [hoperand]
    exact h.op_eq
  · rw [hoperand]
    exact h.isAt
  · intro k hk
    rw [line?_addInstr_of_lt (hbound k hk)]
    exact h.line k hk

theorem Holds.mono {q : Wanted × Nat} {i : Nat × Opcode} (h : c.Holds pool q i)
    (hpool : pool.Within pool') : c.Holds pool' q i :=
  ⟨h.op_eq, h.isAt.mono hpool, h.line⟩

namespace Records

theorem empty (pool : ConstantPool) : Records pool .empty [] [] :=
  ⟨fun _ => rfl, rfl, .nil⟩

theorem mono (h : c.Records pool asked code) (hpool : pool.Within pool') :
    c.Records pool' asked code :=
  ⟨h.decode, h.consecutive, h.holds.imp fun _ _ hi => hi.mono hpool⟩

/-- **One more instruction is recorded last.** -/
theorem snoc (h : c.Records pool asked code) {q : Wanted}
    (hq : q.WrittenAs pool (op, operand)) (line : Nat) :
    (c.addInstr op operand line).Records pool (asked ++ [(q, line)]) (code ++ [(c.size, op)]) := by
  have hsize : operand.bytes.length = op.operandSize := hq.size
  constructor
  · intro rest
    rw [code_addInstr, List.append_assoc, h.decode, decode_instr hsize, size_addInstr hsize]
    simp
  · rw [size_addInstr hsize]
    exact consecutive_snoc h.consecutive op
  · have hlast : (c.addInstr op operand line).Holds pool (q, line) (c.size, op) := by
      refine ⟨?_, ?_, fun k hk => line?_addInstr_self hsize hk⟩
      · rw [operand?_addInstr_self hsize]
        exact hq.op_eq
      · rw [operand?_addInstr_self hsize]
        exact hq.isAt
    exact List.rel_append (h.holds.imp fun _ _ hi => hi.addInstr) (.cons hlast .nil)

/-- Some more instructions are recorded last, behind whatever is before the chunk. -/
theorem snocs {qs : List Wanted} {written : List (Opcode × Operand)}
    (hwritten : List.Forall₂ (Wanted.WrittenAs pool) qs written) (line : Nat)
    {before : Array Cell} : ∀ {d c : Chunk} {asked : List (Wanted × Nat)}
      {code : List (Nat × Opcode)}, d.cells = before ++ c.cells → c.Records pool asked code →
        ∃ c' code', (written.foldl (fun d w => d.addInstr w.1 w.2 line) d).cells =
            before ++ c'.cells ∧
          Records pool c' (asked ++ qs.map fun q => (q, line)) code' := by
  induction hwritten with
  | nil =>
    intro d c asked code hcells hc
    exact ⟨c, code, hcells, by simpa using hc⟩
  | @cons q w qs written hw _ ih =>
    intro d c asked code hcells hc
    obtain ⟨c', code', hcells', hc'⟩ := ih (cells_addInstr hcells w.1 w.2 line) (hc.snoc hw line)
    refine ⟨c', code', hcells', ?_⟩
    rwa [List.append_assoc] at hc'

/-- The code is what is decoded. -/
theorem instructions_eq (h : c.Records pool asked code) : c.instructions = code := by
  have hall := h.decode []
  rwa [List.append_nil, Chunk.decode, List.append_nil] at hall

end Records

end Chunk

/-! ### Requests -/

/-- A request to an emitter. -/
inductive Request where
  /-- The bytes from here on come from another line. -/
  | line (n : Nat)
  /-- An operation without operand. -/
  | fixed (op : Opcode) (size : op.operandSize = 0)
  /-- Push a constant. -/
  | constant (c : Constant) (width : Nat)
  /-- Push an integer of one slot. -/
  | int (n : Int)
  /-- Push an integer of two slots. -/
  | long (n : Int)
  /-- Push a double. -/
  | double (bits : UInt64)
  /-- Push the null reference. -/
  | null
  /-- Push a local value. -/
  | getLocal (slot width : Nat)
  /-- Pop a value into a local slot. -/
  | setLocal (slot width : Nat)
  /-- Pop an owner and push the value of its field. -/
  | getField (f : Field) (width : Nat)
  /-- Pop a value and its owner, and store the value. -/
  | putField (f : Field) (width : Nat)
  /-- Push the value of a field of a class. -/
  | getStatic (f : Field) (width : Nat)
  /-- Pop a value into a field of a class. -/
  | putStatic (f : Field) (width : Nat)
  /-- Repeat the top value. -/
  | dupValue (width : Nat)
  /-- Drop the top value. -/
  | popValue (width : Nat)
  /-- Move an owner beneath a value. -/
  | ownerBelow (width : Nat)

namespace Request

/-- What the request does to an emitter. -/
def emit : Request → Emit Unit
  | .line n => Emit.setLine n
  | .fixed op _ => Emit.fixed op
  | .constant c width => Emit.constant c width
  | .int n => Emit.int n
  | .long n => Emit.long n
  | .double bits => Emit.double bits
  | .null => Emit.null
  | .getLocal slot width => Emit.getLocal slot width
  | .setLocal slot width => Emit.setLocal slot width
  | .getField f width => Emit.getField f width
  | .putField f width => Emit.putField f width
  | .getStatic f width => Emit.getStatic f width
  | .putStatic f width => Emit.putStatic f width
  | .dupValue width => Emit.dupValue width
  | .popValue width => Emit.popValue width
  | .ownerBelow width => Emit.ownerBelow width

/-- The instructions that are asked for. -/
def wanted : Request → List Wanted
  | .line _ => []
  | .fixed op _ => [.fixed op]
  | .constant c _ => [.constant c]
  | .int n => [.constant (.int n)]
  | .long n => [.constant (.int n)]
  | .double bits => [.constant (.double bits)]
  | .null => [.fixed .pushNull]
  | .getLocal slot _ => [⟨.getLocal, .getLocalWide, .slot slot⟩]
  | .setLocal slot _ => [⟨.setLocal, .setLocalWide, .slot slot⟩]
  | .getField f _ => [.field .getField f]
  | .putField f _ => [.field .putField f]
  | .getStatic f _ => [.field .getStatic f]
  | .putStatic f _ => [.field .putStatic f]
  | .dupValue width => [.fixed (if width = 2 then .dup2 else .dup)]
  | .popValue width => [.fixed (if width = 2 then .pop2 else .pop)]
  | .ownerBelow width =>
      if width = 2 then [.fixed .dupX2, .fixed .pop] else [.fixed .swap]

/-- The line after the request. -/
def lineAfter (line : Nat) : Request → Nat
  | .line n => n
  | _ => line

/-- The indices that the request needs fit into two bytes. -/
def Fits (pool : ConstantPool) (r : Request) : Prop :=
  ∀ q ∈ r.wanted, ∀ index, q.referent.index? pool = some index → index < 65536

/-- The pool with the constants of the request. -/
def addTo (pool : ConstantPool) (r : Request) : ConstantPool :=
  r.wanted.foldl (fun p q => q.referent.addTo p) pool

theorem lawful_addTo {pool : ConstantPool} (h : pool.Lawful) (r : Request) :
    (r.addTo pool).Lawful := by
  unfold addTo
  induction r.wanted generalizing pool with
  | nil => exact h
  | cons q qs ih => exact ih (q.referent.lawful_addTo h)

theorem within_addTo (pool : ConstantPool) (r : Request) : pool.Within (r.addTo pool) := by
  unfold addTo
  induction r.wanted generalizing pool with
  | nil => exact .refl _
  | cons q qs ih => exact (q.referent.within_addTo pool).trans (ih _)

/-- The request is granted: its indices fit, and its instructions are added to the code. -/
structure Granted (r : Request) (s s' : Emitter) : Prop where
  /-- All indices fit. -/
  fits : r.Fits s.pool
  /-- The request succeeds. -/
  emit : r.emit s = .ok () s'
  /-- The constants are added to the pool. -/
  pool : s'.pool = r.addTo s.pool
  /-- The line is the one that was asked for. -/
  line : s'.line = r.lineAfter s.line
  /-- The instructions are written, each as it is asked for. -/
  written : ∃ written : List (Opcode × Operand),
    List.Forall₂ (Wanted.WrittenAs s'.pool) r.wanted written ∧
    s'.chunk = written.foldl (fun c w => c.addInstr w.1 w.2 s.line) s.chunk

/-- The request is refused: an index does not fit, and nothing is changed but the pool, which has
the constants of the request. -/
structure Refused (r : Request) (s : Emitter) (role : OperandRole) (index : Nat) : Prop where
  /-- The index is one that the request needs. -/
  needed : ∃ q ∈ r.wanted, q.referent.index? s.pool = some index
  /-- The index does not fit. -/
  le : 65536 ≤ index
  /-- The request fails. -/
  emit : r.emit s = .error (.operandOverflow role index) { s with pool := r.addTo s.pool }

theorem Refused.not_fits {r : Request} {s : Emitter} {role : OperandRole} {index : Nat}
    (h : r.Refused s role index) : ¬ r.Fits s.pool := by
  intro hfits
  obtain ⟨q, hq, hindex⟩ := h.needed
  have hlt := hfits q hq index hindex
  have hle := h.le
  omega

variable {r : Request} {s : Emitter}

/-- A request that writes its one instruction is granted. -/
theorem granted_of_write {q : Wanted} {op : Opcode} {operand : Operand} {effect : Int}
    (hpool : s.pool.Lawful) (hwanted : r.wanted = [q]) (hline : r.lineAfter s.line = s.line)
    (hemit : r.emit s =
      .ok () (Emitter.write { s with pool := q.referent.addTo s.pool } op operand effect))
    (hfits : ∀ index, operand.number? = some index → index < 65536)
    (hsize : operand.bytes.length = op.operandSize) (hop : op = q.opFor operand.number?)
    (hnumber : operand.number? = q.referent.index? s.pool) : ∃ s', r.Granted s s' := by
  refine ⟨_, ⟨?_, hemit, ?_, hline.symm, ⟨[(op, operand)], ?_, ?_⟩⟩⟩
  · intro q' hq' index hindex
    rw [hwanted] at hq'
    obtain rfl := List.mem_singleton.mp hq'
    exact hfits index (hnumber.trans hindex)
  · rw [addTo, hwanted]
    rfl
  · rw [hwanted]
    refine .cons ⟨hsize, hop, ?_⟩ .nil
    rw [hnumber]
    exact q.referent.isAt_index? hpool
  · rw [Emit.chunk_write]
    rfl

/-- An instruction without operand is always granted. -/
theorem granted_fixed {op : Opcode} (hpool : s.pool.Lawful) (hwanted : r.wanted = [.fixed op])
    (hline : r.lineAfter s.line = s.line) (hemit : r.emit s = Emit.fixed op s)
    (hsize : op.operandSize = 0) : ∃ s', r.Granted s s' := by
  have hwrite : r.emit s = .ok () (Emitter.write s op .none (op.fixedEffect?.getD 0)) := hemit
  exact granted_of_write hpool hwanted hline hwrite (by simp [Operand.number?]) hsize.symm rfl rfl

/-- An instruction with an index is granted if the index fits. -/
theorem granted_or_refused_indexed {q : Wanted} {role : OperandRole} {index : Nat} {effect : Int}
    (hpool : s.pool.Lawful) (hwanted : r.wanted = [q]) (hline : r.lineAfter s.line = s.line)
    (hindex : q.referent.index? s.pool = some index) (hshort : q.short.operandSize = 1)
    (hwide : q.wide.operandSize = 2)
    (hemit : r.emit s = Emit.indexed q.short q.wide role index effect
      { s with pool := q.referent.addTo s.pool }) :
    (∃ s', r.Granted s s') ∨ ∃ role index, r.Refused s role index := by
  rcases Nat.lt_or_ge index 65536 with hlt | hge
  · refine Or.inl ?_
    by_cases hbyte : index < 256
    · have hnumber : (Operand.byte (UInt8.ofNat index)).number? = some index := by
        simpa [Operand.number?] using Nat.mod_eq_of_lt hbyte
      rw [Emit.indexed, if_pos hbyte] at hemit
      refine granted_of_write hpool hwanted hline hemit ?_ hshort.symm ?_ ?_
      · simp only [hnumber, Option.some.injEq, forall_eq']
        exact hlt
      · rw [hnumber, Wanted.opFor, Option.getD_some, if_pos hbyte]
      · rw [hnumber, hindex]
    · have hnumber : (Operand.word (UInt16.ofNat index)).number? = some index := by
        simpa [Operand.number?] using Nat.mod_eq_of_lt hlt
      rw [Emit.indexed, if_neg hbyte, Emit.wordOf, if_pos hlt] at hemit
      refine granted_of_write hpool hwanted hline hemit ?_ hwide.symm ?_ ?_
      · simp only [hnumber, Option.some.injEq, forall_eq']
        exact hlt
      · rw [hnumber, Wanted.opFor, Option.getD_some, if_neg hbyte]
      · rw [hnumber, hindex]
  · have hadd : r.addTo s.pool = q.referent.addTo s.pool := by rw [addTo, hwanted]; rfl
    refine Or.inr ⟨role, index, ⟨q, by simp [hwanted], hindex⟩, hge, ?_⟩
    rw [hemit, Emit.indexed_of_ge hge, hadd]

/-- An instruction on a field is granted if the index of its reference fits. -/
theorem granted_or_refused_field {op : Opcode} {f : Field} {effect : Int}
    (hpool : s.pool.Lawful) (hwanted : r.wanted = [.field op f])
    (hline : r.lineAfter s.line = s.line) (hsize : op.operandSize = 2)
    (hemit : r.emit s = Emit.onField op f effect s) :
    (∃ s', r.Granted s s') ∨ ∃ role index, r.Refused s role index := by
  rw [Emit.onField_eq] at hemit
  split at hemit
  · next hlt =>
    have hnumber : (Operand.word (UInt16.ofNat (s.pool.add (Emit.fieldConstant f)).1)).number? =
        some (s.pool.add (Emit.fieldConstant f)).1 := by
      simpa [Operand.number?] using Nat.mod_eq_of_lt hlt
    refine Or.inl (granted_of_write hpool hwanted hline hemit ?_ hsize.symm ?_ ?_)
    · simp only [hnumber, Option.some.injEq, forall_eq']
      exact hlt
    · rw [Wanted.opFor]
      exact (ite_self op).symm
    · rw [hnumber]
      rfl
  · next hge =>
    have hadd : r.addTo s.pool = (s.pool.add (Emit.fieldConstant f)).2 := by
      rw [addTo, hwanted]
      rfl
    refine Or.inr ⟨.fieldReference, _, ⟨.field op f, by simp [hwanted], rfl⟩, by omega, ?_⟩
    rw [hemit, hadd]

/-- An owner is moved by one instruction or by two. -/
theorem granted_ownerBelow (hpool : s.pool.Lawful) (width : Nat) :
    ∃ s', (ownerBelow width).Granted s s' := by
  by_cases hwidth : width = 2
  · subst hwidth
    refine ⟨_, ⟨by simp [Fits, wanted, Wanted.fixed, Referent.index?], rfl, rfl, rfl,
      [(.dupX2, .none), (.pop, .none)], ?_, rfl⟩⟩
    exact .cons ⟨rfl, rfl, rfl⟩ (.cons ⟨rfl, rfl, rfl⟩ .nil)
  · have hwanted : (ownerBelow width).wanted = [.fixed .swap] := if_neg hwidth
    refine granted_fixed hpool hwanted rfl ?_ rfl
    simp only [emit, Emit.ownerBelow, if_neg hwidth]

/-- **A request is granted or refused.** -/
theorem granted_or_refused (r : Request) (hpool : s.pool.Lawful) :
    (∃ s', r.Granted s s') ∨ ∃ role index, r.Refused s role index := by
  cases r with
  | line n =>
    exact Or.inl ⟨{ s with line := n }, by simp [Fits, wanted], rfl, rfl, rfl, [], .nil, rfl⟩
  | fixed op size => exact Or.inl (granted_fixed hpool rfl rfl rfl size)
  | null => exact Or.inl (granted_fixed hpool rfl rfl rfl rfl)
  | dupValue width =>
    refine Or.inl (granted_fixed hpool rfl rfl rfl ?_)
    split <;> rfl
  | popValue width =>
    refine Or.inl (granted_fixed hpool rfl rfl rfl ?_)
    split <;> rfl
  | ownerBelow width => exact Or.inl (granted_ownerBelow hpool width)
  | constant c width => exact granted_or_refused_indexed hpool rfl rfl rfl rfl rfl rfl
  | int n => exact granted_or_refused_indexed hpool rfl rfl rfl rfl rfl rfl
  | long n => exact granted_or_refused_indexed hpool rfl rfl rfl rfl rfl rfl
  | double bits => exact granted_or_refused_indexed hpool rfl rfl rfl rfl rfl rfl
  | getLocal slot width => exact granted_or_refused_indexed hpool rfl rfl rfl rfl rfl rfl
  | setLocal slot width => exact granted_or_refused_indexed hpool rfl rfl rfl rfl rfl rfl
  | getField f width => exact granted_or_refused_field hpool rfl rfl rfl rfl
  | putField f width => exact granted_or_refused_field hpool rfl rfl rfl rfl
  | getStatic f width => exact granted_or_refused_field hpool rfl rfl rfl rfl
  | putStatic f width => exact granted_or_refused_field hpool rfl rfl rfl rfl

end Request

/-! ### Sequences of requests -/

namespace Request

/-- The instructions of some requests, each with the line of its bytes, if the first request finds
the line. -/
def marked : Nat → List Request → List (Wanted × Nat)
  | _, [] => []
  | n, r :: rs => (r.wanted.map fun q => (q, n)) ++ marked (r.lineAfter n) rs

/-- A request that is granted records its instructions, behind whatever is before the code. -/
theorem Granted.records {r : Request} {s next : Emitter} (h : r.Granted s next)
    (hpool : s.pool.Lawful) {before : Array Cell} {c : Chunk} {asked : List (Wanted × Nat)}
    {code : List (Nat × Opcode)} (hcells : s.chunk.cells = before ++ c.cells)
    (hc : c.Records s.pool asked code) :
    next.pool.Lawful ∧ ∃ c' code', next.chunk.cells = before ++ c'.cells ∧
      Chunk.Records next.pool c' (asked ++ r.wanted.map fun q => (q, s.line)) code' := by
  obtain ⟨written, hwritten, hchunk⟩ := h.written
  have hwithin : s.pool.Within next.pool := by
    rw [h.pool]
    exact r.within_addTo s.pool
  refine ⟨?_, ?_⟩
  · rw [h.pool]
    exact r.lawful_addTo hpool
  · rw [hchunk]
    exact Chunk.Records.snocs hwritten s.line hcells (hc.mono hwithin)

end Request

namespace Emitter

/-- The emitter after a request, granted or not. -/
def ask (s : Emitter) (r : Request) : Emitter := Emit.last (r.emit s)

/-- The emitter after some requests, one after the other; those that are refused are passed over. -/
def askAll (s : Emitter) (rs : List Request) : Emitter := rs.foldl ask s

/-- The requests that are granted. -/
def granted : Emitter → List Request → List Request
  | _, [] => []
  | s, r :: rs =>
      match r.emit s with
      | .ok _ s' => r :: granted s' rs
      | .error _ s' => granted s' rs

theorem askAll_cons (s : Emitter) (r : Request) (rs : List Request) :
    s.askAll (r :: rs) = (s.ask r).askAll rs := rfl

/-- **Requests record what they are granted**, behind whatever is before the code. -/
theorem records_askAll {before : Array Cell} (rs : List Request) : ∀ {s : Emitter} {c : Chunk}
    {asked : List (Wanted × Nat)} {code : List (Nat × Opcode)}, s.pool.Lawful →
      s.chunk.cells = before ++ c.cells → c.Records s.pool asked code →
        (s.askAll rs).pool.Lawful ∧ ∃ c' code', (s.askAll rs).chunk.cells = before ++ c'.cells ∧
          Chunk.Records (s.askAll rs).pool c' (asked ++ Request.marked s.line (s.granted rs))
            code' := by
  induction rs with
  | nil =>
    intro s c asked code hpool hcells hc
    refine ⟨hpool, c, code, hcells, ?_⟩
    rw [granted, Request.marked, List.append_nil]
    exact hc
  | cons r rs ih =>
    intro s c asked code hpool hcells hc
    rw [askAll_cons]
    rcases r.granted_or_refused hpool with ⟨next, hnext⟩ | ⟨role, index, hrefused⟩
    · have hask : s.ask r = next := by rw [ask, hnext.emit]; rfl
      have hgranted : s.granted (r :: rs) = r :: next.granted rs := by rw [granted, hnext.emit]
      obtain ⟨hlawful, c', code', hcells', hc'⟩ := hnext.records hpool hcells hc
      rw [hask, hgranted, Request.marked, ← List.append_assoc, ← hnext.line]
      exact ih hlawful hcells' hc'
    · have hask : s.ask r = { s with pool := r.addTo s.pool } := by rw [ask, hrefused.emit]; rfl
      have hgranted : s.granted (r :: rs) =
          granted { s with pool := r.addTo s.pool } rs := by rw [granted, hrefused.emit]
      rw [hask, hgranted]
      exact ih (r.lawful_addTo hpool) hcells (hc.mono (r.within_addTo s.pool))

end Emitter

/-! ### Listings -/

/-- No digit is a line break. -/
theorem count_newline_toDigits (n : Nat) : (Nat.toDigits 10 n).count '\n' = 0 := by
  refine List.count_eq_zero_of_not_mem fun hmem => ?_
  have hdigit := Nat.isDigit_of_mem_toDigits (by decide) (by decide) hmem
  simp [Char.isDigit] at hdigit

/-- The operand in a listing. -/
def operandText : Option Nat → String
  | some n => " " ++ toString n
  | none => ""

namespace Chunk

variable (c : Chunk)

/-- A line of a listing has the offset, the name of the operation, and the operand. -/
theorem listingLine_eq (offset : Nat) (op : Opcode) :
    c.listingLine offset op =
      offsetText offset ++ " " ++ op.name ++ operandText (c.operand? offset op) ++ "\n" := by
  unfold listingLine
  cases c.operand? offset op with
  | none => simp [operandText]
  | some n => simp [operandText, String.append_assoc]

/-- The line break at the end of a line of a listing is the only one in it. -/
theorem count_newline_listingLine (offset : Nat) (op : Opcode) :
    (c.listingLine offset op).toList.count '\n' = 1 := by
  have hname : op.name.toList.count '\n' = 0 := by cases op <;> decide
  have hoffset : (offsetText offset).toList.count '\n' = 0 := by
    simp [offsetText, List.count_replicate, count_newline_toDigits]
  have hoperand : (operandText (c.operand? offset op)).toList.count '\n' = 0 := by
    cases c.operand? offset op with
    | none => rfl
    | some n => simp [operandText, count_newline_toDigits]
  simp [listingLine_eq, hname, hoffset, hoperand]

/-- A listing has one line for each instruction. -/
theorem count_newline_listing :
    c.listing.toList.count '\n' = c.instructions.length := by
  unfold listing
  induction c.instructions with
  | nil => rfl
  | cons i rest ih =>
    rw [List.map_cons, String.join_cons, String.toList_append, List.count_append, ih,
      count_newline_listingLine, List.length_cons, Nat.add_comm]

end Chunk

/-! ### The finished chunk -/

/-- **Decoding undoes emission.**  Take any requests to a new emitter over any pool that is made.
The next one is granted exactly if its indices fit; a request that is refused leaves the code, the
heights and the line as they were.  The instructions that are read from the code are those of the
requests that were granted, one behind the other from the start to the end of the code.  Each has
the short form exactly if its operand is below 256, its operand is the slot that was given or the
index of the constant that was given, and each of its bytes has the line that was set last.  The
listing has one line for each. -/
theorem decode_requested {pool : ConstantPool} (hpool : pool.Made) (rs : List Request) :
    let s := (Emitter.new pool).askAll rs
    (∀ r : Request, (r.Fits s.pool ∧ ∃ s', r.emit s = .ok () s') ∨
      (¬ r.Fits s.pool ∧ ∃ role index pool', 65536 ≤ index ∧
        r.emit s = .error (.operandOverflow role index) { s with pool := pool' })) ∧
    List.Forall₂ (s.chunk.Holds s.pool) (Request.marked 1 ((Emitter.new pool).granted rs))
      s.chunk.instructions ∧
    Chunk.Consecutive 0 s.chunk.instructions s.chunk.size ∧
    s.chunk.lines.length = s.chunk.code.length ∧
    s.chunk.listing = String.join (s.chunk.instructions.map fun (offset, op) =>
      Chunk.offsetText offset ++ " " ++ op.name ++ operandText (s.chunk.operand? offset op) ++
        "\n") ∧
    s.chunk.listing.toList.count '\n' = s.chunk.instructions.length := by
  intro s
  have hstart : (Emitter.new pool).chunk.cells = #[] ++ Chunk.empty.cells := rfl
  obtain ⟨hlawful, c, code, hcells, hrecords⟩ :=
    Emitter.records_askAll rs hpool.lawful hstart (Chunk.Records.empty pool)
  obtain rfl : c = s.chunk := by
    rw [Array.empty_append] at hcells
    rw [Chunk.mk.injEq]
    exact hcells.symm
  obtain rfl := hrecords.instructions_eq
  refine ⟨fun r => ?_, hrecords.holds, hrecords.consecutive, Chunk.length_lines _, ?_,
    Chunk.count_newline_listing _⟩
  · rcases r.granted_or_refused hlawful with ⟨s', h⟩ | ⟨role, index, h⟩
    · exact Or.inl ⟨h.fits, s', h.emit⟩
    · exact Or.inr ⟨h.not_fits, role, index, _, h.le, h.emit⟩
  · simp only [Chunk.listing, Chunk.listingLine_eq]

namespace Mixed

/-- A constant, and slots of which one is too great. -/
def requests : List Request :=
  [.int 7, .line 3, .getLocal 70000 1, .getLocal 300 2, .ownerBelow 2]

/-- The emitter after the constant. -/
def pushed : Emitter :=
  { chunk := ⟨#[⟨0, 1⟩, ⟨0, 1⟩]⟩, pool := (ConstantPool.empty.add (.int 7)).2,
    stack := ⟨1, 1⟩ }

theorem emit_int : (Request.int 7).emit (.new .empty) = .ok () pushed := by
  have hindex : (ConstantPool.empty.add (.int 7)).1 = 0 := by
    simp [ConstantPool.add, ConstantPool.empty, ConstantPool.size]
  show Emit.indexed .constant .constantWide .constant (ConstantPool.empty.add (.int 7)).1 1
    { Emitter.new .empty with pool := (ConstantPool.empty.add (.int 7)).2 } = _
  rw [hindex]
  rfl

end Mixed

open Mixed in
/-- The slot that is too great is passed over, and the other one takes two bytes. -/
theorem decode_requested_mixed :
    let s := (Emitter.new .empty).askAll requests
    s.chunk.instructions = [(0, .constant), (2, .getLocalWide), (5, .dupX2), (6, .pop)] ∧
      List.Forall₂ (s.chunk.Holds s.pool)
        [(.constant (.int 7), 1), (⟨.getLocal, .getLocalWide, .slot 300⟩, 3), (.fixed .dupX2, 3),
          (.fixed .pop, 3)] s.chunk.instructions ∧
      s.chunk.listing.toList.count '\n' = 4 := by
  intro s
  have hs : s = pushed.askAll (requests.drop 1) := by
    show ((Emitter.new .empty).ask (.int 7)).askAll _ = _
    rw [Emitter.ask, emit_int]
    rfl
  have hgranted : Request.marked 1 ((Emitter.new .empty).granted requests) =
      [(.constant (.int 7), 1), (⟨.getLocal, .getLocalWide, .slot 300⟩, 3), (.fixed .dupX2, 3),
          (.fixed .pop, 3)] := by
    rw [requests, Emitter.granted, emit_int]
    rfl
  have hcode : s.chunk.instructions =
      [(0, .constant), (2, .getLocalWide), (5, .dupX2), (6, .pop)] := by
    rw [hs]
    decide +kernel
  obtain ⟨-, hholds, -, -, -, hlines⟩ := decode_requested .empty requests
  rw [hgranted] at hholds
  refine ⟨hcode, hholds, hlines.trans (congrArg List.length hcode)⟩

end FieldPath
