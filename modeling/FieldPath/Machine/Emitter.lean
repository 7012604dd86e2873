import FieldPath.Machine.Chunk
import FieldPath.Machine.ConstantPool
import FieldPath.Ty.Field

/-!
# Emission of code

An emitter writes one chunk over a pool of constants that it shares with others.  It follows the
height of the operand stack from instruction to instruction, keeps the greatest height, and marks
every byte with the current line of the rule text.  An emission that fails keeps what was done
before it failed.

Heights are counted in 32 bits.  A height beyond that range wraps around, as it does in a build
without checks for overflow; a build with such checks stops there.

## Main definitions

* `CodegenError` — why an emission fails.
* `signed32`, `StackTracker` — the height of the stack and the greatest one, in 32 bits.
* `Emitter`, `Emit` — the state, and the emissions over it.
* `Emit.constant`, `Emit.getLocal`, `Emit.getField`, … — one instruction each.
* `Emit.verify` — a check of the stack height.
-/

namespace FieldPath

/-! ### Errors -/

/-- What an operand of an instruction stands for. -/
inductive OperandRole where
  /-- A constant of the pool. -/
  | constant
  /-- A local slot. -/
  | localSlot
  /-- A field reference of the pool. -/
  | fieldReference
  deriving DecidableEq, Repr

/-- The name of an operand in messages. -/
def OperandRole.text : OperandRole → String
  | .constant => "constant"
  | .localSlot => "local slot"
  | .fieldReference => "field reference"

/-- Why an emission fails. -/
inductive CodegenError where
  /-- The stack does not have the height that the emitted code should leave. -/
  | stackHeight (context : String) (expected actual : Int)
  /-- The expression has no meaning yet. -/
  | unresolved (text : String)
  /-- An index does not fit into two bytes. -/
  | operandOverflow (role : OperandRole) (index : Nat)
  deriving DecidableEq, Repr

/-- The text of a failed emission. -/
def CodegenError.message : CodegenError → String
  | .stackHeight context expected actual =>
      "invalid stack height " ++ toString actual ++ " expecting " ++ toString expected ++
        " after " ++ context
  | .unresolved text => "expression " ++ text ++ " compiled before resolution"
  | .operandOverflow role index =>
      role.text ++ " index " ++ toString index ++ " does not fit a 16-bit operand"

/-! ### The height of the stack -/

/-- The number that the low 32 bits of an integer stand for, read as signed. -/
def signed32 (n : Int) : Int := n.bmod 0x100000000

theorem signed32_of_le {n : Int} (hlow : -2147483648 ≤ n) (hhigh : n ≤ 2147483647) :
    signed32 n = n := by
  apply Int.bmod_eq_of_le <;> omega

@[simp] theorem signed32_signed32_add (m n : Int) : signed32 (signed32 m + n) = signed32 (m + n) :=
  Int.bmod_add_bmod

/-- The height of an operand stack, counted from the start of a chunk, and the greatest height. -/
structure StackTracker where
  /-- The present height. -/
  height : Int32 := 0
  /-- The greatest height so far. -/
  greatest : Int32 := 0
  deriving DecidableEq, Repr

/-- The stack has grown by `delta` slots. -/
def StackTracker.adjust (t : StackTracker) (delta : Int) : StackTracker :=
  let height := t.height + Int32.ofInt delta
  { height := height, greatest := max t.greatest height }

theorem toInt_max (m n : Int32) : (max m n).toInt = max m.toInt n.toInt := by
  show (if m ≤ n then n else m).toInt = _
  simp only [Int32.le_iff_toInt_le]
  split <;> omega

theorem StackTracker.height_adjust (t : StackTracker) (delta : Int) :
    (t.adjust delta).height.toInt = signed32 (t.height.toInt + delta) := by
  rw [adjust, Int32.toInt_add, Int32.toInt_ofInt]
  exact Int.add_bmod_bmod

theorem StackTracker.greatest_adjust (t : StackTracker) (delta : Int) :
    (t.adjust delta).greatest.toInt =
      max t.greatest.toInt (signed32 (t.height.toInt + delta)) := by
  rw [← height_adjust]
  exact toInt_max _ _

/-! ### The state of an emitter -/

/-- The state of an emission. -/
structure Emitter where
  /-- The code so far. -/
  chunk : Chunk := {}
  /-- The shared constants. -/
  pool : ConstantPool
  /-- The operand stack. -/
  stack : StackTracker := {}
  /-- The line of the rule text that the next bytes come from. -/
  line : Nat := 1

/-- The operand of an instruction. -/
inductive Operand where
  /-- No operand. -/
  | none
  /-- One byte. -/
  | byte (n : UInt8)
  /-- Two bytes. -/
  | word (n : UInt16)
  deriving DecidableEq, Repr

namespace Emitter

/-- An emitter at the start of a chunk. -/
def new (pool : ConstantPool) : Emitter := { pool := pool }

/-- The present height of the operand stack. -/
def height (e : Emitter) : Int := e.stack.height.toInt

/-- The greatest height of the operand stack so far. -/
def maxHeight (e : Emitter) : Int := e.stack.greatest.toInt

theorem le_height (e : Emitter) : -2147483648 ≤ e.height := e.stack.height.le_toInt

theorem height_le (e : Emitter) : e.height ≤ 2147483647 :=
  Int.le_of_lt_add_one e.stack.height.toInt_lt

theorem signed32_height (e : Emitter) : signed32 e.height = e.height :=
  signed32_of_le e.le_height e.height_le

/-- The emitter after one instruction that changes the stack height by `effect`. -/
def write (e : Emitter) (op : Opcode) (operand : Operand) (effect : Int) : Emitter :=
  let chunk := e.chunk.writeOp op e.line
  { e with
    chunk := match operand with
      | .none => chunk
      | .byte n => chunk.write n e.line
      | .word n => chunk.writeWord n e.line
    stack := e.stack.adjust effect }

theorem height_write (e : Emitter) (op : Opcode) (operand : Operand) (effect : Int) :
    (e.write op operand effect).height = signed32 (e.height + effect) :=
  e.stack.height_adjust effect

theorem maxHeight_write (e : Emitter) (op : Opcode) (operand : Operand) (effect : Int) :
    (e.write op operand effect).maxHeight = max e.maxHeight (signed32 (e.height + effect)) :=
  e.stack.greatest_adjust effect

end Emitter

/-- An emission: it changes the state of an emitter and may fail. -/
abbrev Emit := EStateM CodegenError Emitter

namespace Emit

/-! ### Lines and heights -/

/-- The bytes from here on come from another line. -/
def setLine (line : Nat) : Emit Unit := modify fun e => { e with line := line }

/-- The present height of the stack. -/
def mark : Emit Int := return (← get).height

/-- The stack height has changed by `delta` since it was `mark`. -/
def verify (mark delta : Int) (context : String) : Emit Unit := do
  let expected := signed32 (mark + delta)
  let actual := (← get).height
  if actual = expected then return () else throw (.stackHeight context expected actual)

/-! ### Instructions -/

/-- One instruction is written. -/
def write (op : Opcode) (operand : Operand) (effect : Int) : Emit Unit :=
  modify (·.write op operand effect)

/-- An instruction without operand, whose operation tells the change of the height. -/
def fixed (op : Opcode) : Emit Unit := write op .none (op.fixedEffect?.getD 0)

/-- An index as a word, if it fits. -/
def wordOf (role : OperandRole) (index : Nat) : Emit UInt16 :=
  if index < 65536 then return UInt16.ofNat index else throw (.operandOverflow role index)

/-- An instruction with an index: in the short form below 256, else in the wide form. -/
def indexed (short wide : Opcode) (role : OperandRole) (index : Nat) (effect : Int) :
    Emit Unit := do
  if index < 256 then write short (.byte (UInt8.ofNat index)) effect
  else write wide (.word (← wordOf role index)) effect

/-- The height that a width stands for.  Widths are words of 32 bits and are read as signed. -/
def slots (width : Nat) : Int := signed32 width

/-- The index of a constant, which is added to the pool if it is new. -/
def intern (c : Constant) : Emit Nat := do
  let e ← get
  let (index, pool) := e.pool.add c
  set { e with pool := pool }
  return index

/-- Push a constant. -/
def constant (c : Constant) (width : Nat) : Emit Unit := do
  let index ← intern c
  indexed .constant .constantWide .constant index (slots width)

/-- Push an integer of one slot. -/
def int (n : Int) : Emit Unit := constant (.int n) 1

/-- Push an integer of two slots. -/
def long (n : Int) : Emit Unit := constant (.int n) 2

/-- Push a double. -/
def double (bits : UInt64) : Emit Unit := constant (.double bits) 2

/-- Push the null reference. -/
def null : Emit Unit := fixed .pushNull

/-- Push the local value at a slot. -/
def getLocal (slot width : Nat) : Emit Unit :=
  indexed .getLocal .getLocalWide .localSlot slot (slots width)

/-- Pop the top value into a slot. -/
def setLocal (slot width : Nat) : Emit Unit :=
  indexed .setLocal .setLocalWide .localSlot slot (-slots width)

/-- The symbolic reference to a field. -/
def fieldConstant (f : Field) : Constant :=
  .fieldRef f.declaring.internal f.name f.valueClass.descriptor

/-- An instruction on a field, which is referred to through the pool. -/
def onField (op : Opcode) (f : Field) (effect : Int) : Emit Unit := do
  let index ← intern (fieldConstant f)
  write op (.word (← wordOf .fieldReference index)) effect

/-- Pop an owner and push the value of its field. -/
def getField (f : Field) (width : Nat) : Emit Unit := onField .getField f (slots width - 1)

/-- Pop a value and the owner beneath it, and store the value. -/
def putField (f : Field) (width : Nat) : Emit Unit := onField .putField f (-(1 + slots width))

/-- Push the value of a field of a class. -/
def getStatic (f : Field) (width : Nat) : Emit Unit := onField .getStatic f (slots width)

/-- Pop a value and store it in a field of a class. -/
def putStatic (f : Field) (width : Nat) : Emit Unit := onField .putStatic f (-slots width)

/-! ### Rearrangement of the stack -/

/-- Repeat the top value. -/
def dupValue (width : Nat) : Emit Unit := fixed (if width = 2 then .dup2 else .dup)

/-- Drop the top value. -/
def popValue (width : Nat) : Emit Unit := fixed (if width = 2 then .pop2 else .pop)

/-- Move the owner on top of a value beneath it.  No instruction exchanges one slot with two, so
over a value of two slots the owner is repeated beneath it and dropped from the top. -/
def ownerBelow (width : Nat) : Emit Unit :=
  if width = 2 then do
    fixed .dupX2
    fixed .pop
  else fixed .swap

end Emit

end FieldPath
