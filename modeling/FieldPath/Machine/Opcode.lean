/-!
# Operation codes

Rules run on an operand-stack machine.  An instruction is one byte for its operation and zero, one
or two bytes for its operand.  A stack slot holds one word; a value of eight bytes takes two slots.

## Main definitions

* `Opcode` — the operations.
* `Opcode.toByte`, `Opcode.ofByte?` — their encoding.
* `Opcode.operandSize` — the bytes of the operand.
* `Opcode.fixedEffect?` — the change of the stack height, where the operation alone tells it.
-/

namespace FieldPath

/-- An operation of the machine. -/
inductive Opcode where
  /-- Push a constant with an 8-bit index. -/
  | constant
  /-- Push a constant with a 16-bit index. -/
  | constantWide
  /-- Push the null reference. -/
  | pushNull
  /-- Drop the top slot. -/
  | pop
  /-- Drop the two top slots. -/
  | pop2
  /-- Repeat the top slot. -/
  | dup
  /-- Repeat the two top slots. -/
  | dup2
  /-- Repeat the top slot beneath the third. -/
  | dupX2
  /-- Exchange the two top slots. -/
  | swap
  /-- Push a local value with an 8-bit slot. -/
  | getLocal
  /-- Pop a value into an 8-bit slot. -/
  | setLocal
  /-- Push a local value with a 16-bit slot. -/
  | getLocalWide
  /-- Pop a value into a 16-bit slot. -/
  | setLocalWide
  /-- Pop an owner and push the value of its field. -/
  | getField
  /-- Pop a value and the owner beneath it, and store the value in the owner's field. -/
  | putField
  /-- Push the value of a field of a class. -/
  | getStatic
  /-- Pop a value and store it in a field of a class. -/
  | putStatic
  deriving DecidableEq, Repr, Inhabited

namespace Opcode

/-- The operations in the order of their encoding. -/
def all : List Opcode :=
  [constant, constantWide, pushNull, pop, pop2, dup, dup2, dupX2, swap, getLocal, setLocal,
    getLocalWide, setLocalWide, getField, putField, getStatic, putStatic]

/-- The byte of an operation: its place in the order. -/
def toByte : Opcode → UInt8
  | constant => 0
  | constantWide => 1
  | pushNull => 2
  | pop => 3
  | pop2 => 4
  | dup => 5
  | dup2 => 6
  | dupX2 => 7
  | swap => 8
  | getLocal => 9
  | setLocal => 10
  | getLocalWide => 11
  | setLocalWide => 12
  | getField => 13
  | putField => 14
  | getStatic => 15
  | putStatic => 16

/-- The operation of a byte. -/
def ofByte? (b : UInt8) : Option Opcode := all[b.toNat]?

/-- The bytes of the operand. -/
def operandSize : Opcode → Nat
  | pushNull | pop | pop2 | dup | dup2 | dupX2 | swap => 0
  | constant | getLocal | setLocal => 1
  | constantWide | getLocalWide | setLocalWide | getField | putField | getStatic | putStatic => 2

/-- The change of the stack height for operations that move a fixed number of slots. -/
def fixedEffect? : Opcode → Option Int
  | pushNull => some 1
  | pop => some (-1)
  | pop2 => some (-2)
  | dup | dupX2 => some 1
  | dup2 => some 2
  | swap => some 0
  | _ => none

/-- The name of the operation in listings. -/
def name : Opcode → String
  | constant => "CONSTANT"
  | constantWide => "CONSTANT_WIDE"
  | pushNull => "PUSH_NULL"
  | pop => "POP"
  | pop2 => "POP2"
  | dup => "DUP"
  | dup2 => "DUP2"
  | dupX2 => "DUP_X2"
  | swap => "SWAP"
  | getLocal => "GET_LOCAL"
  | setLocal => "SET_LOCAL"
  | getLocalWide => "GET_LOCAL_WIDE"
  | setLocalWide => "SET_LOCAL_WIDE"
  | getField => "GET_FIELD"
  | putField => "PUT_FIELD"
  | getStatic => "GET_STATIC"
  | putStatic => "PUT_STATIC"

/-- The byte of an operation is read as that operation. -/
@[simp] theorem ofByte?_toByte (op : Opcode) : ofByte? op.toByte = some op := by
  cases op <;> rfl

end Opcode

end FieldPath
