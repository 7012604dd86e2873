import FieldPath.Machine.Opcode

/-!
# Chunks of code

A chunk is the code of one expression: bytes, each with the line of the rule text that it comes
from.  Operands of two bytes have the high byte first.  Decoding walks over the bytes, takes one
operation and skips its operand, and stops at a byte that is no operation.

## Main definitions

* `Chunk` — the bytes with their lines.
* `Chunk.write`, `Chunk.writeWord` — bytes added at the end.
* `Chunk.byte?`, `Chunk.word?`, `Chunk.op?`, `Chunk.line?` — what stands at an offset.
* `Chunk.instructions`, `Chunk.listing` — the decoded operations, and their listing.
-/

namespace FieldPath

/-- One byte of code and the line that it comes from. -/
structure Cell where
  /-- The byte. -/
  byte : UInt8
  /-- The line of the rule text. -/
  line : Nat
  deriving DecidableEq, Repr, Inhabited

/-- The code of one expression.  The bytes and their lines are two vectors that grow together:
`Chunk.write` is the only thing that adds to either, and it adds one byte with its line.  So they
are kept as one array of cells, and have the same length by construction. -/
structure Chunk where
  /-- The bytes, in order. -/
  cells : Array Cell := #[]
  deriving DecidableEq, Repr

namespace Chunk

/-- No code. -/
def empty : Chunk := {}

/-! ### Writing -/

/-- The chunk with one more byte. -/
def write (c : Chunk) (byte : UInt8) (line : Nat) : Chunk := ⟨c.cells.push ⟨byte, line⟩⟩

/-- The chunk with one more operation. -/
def writeOp (c : Chunk) (op : Opcode) (line : Nat) : Chunk := c.write op.toByte line

/-- The chunk with two more bytes, the high byte of the word first. -/
def writeWord (c : Chunk) (word : UInt16) (line : Nat) : Chunk :=
  (c.write (word >>> 8).toUInt8 line).write word.toUInt8 line

/-! ### Reading -/

/-- The bytes of the chunk. -/
def code (c : Chunk) : List UInt8 := c.cells.toList.map (·.byte)

/-- The line of each byte. -/
def lines (c : Chunk) : List Nat := c.cells.toList.map (·.line)

/-- The number of bytes. -/
def size (c : Chunk) : Nat := c.cells.size

/-- The byte at an offset. -/
def byte? (c : Chunk) (offset : Nat) : Option UInt8 := c.cells[offset]?.map (·.byte)

/-- The line of the byte at an offset. -/
def line? (c : Chunk) (offset : Nat) : Option Nat := c.cells[offset]?.map (·.line)

/-- The word of the two bytes at an offset, the high byte first. -/
def word? (c : Chunk) (offset : Nat) : Option UInt16 :=
  match c.byte? offset, c.byte? (offset + 1) with
  | some high, some low => some ((high.toUInt16 <<< 8) ||| low.toUInt16)
  | _, _ => none

/-- The operation at an offset. -/
def op? (c : Chunk) (offset : Nat) : Option Opcode := (c.byte? offset).bind Opcode.ofByte?

/-! ### Decoding -/

/-- The operations of some bytes with their offsets.  The first byte stands at `offset`, and the
first `skip` bytes are the rest of an operand. -/
def decode : Nat → Nat → List UInt8 → List (Nat × Opcode)
  | _, _, [] => []
  | offset, skip + 1, _ :: rest => decode (offset + 1) skip rest
  | offset, 0, b :: rest =>
      match Opcode.ofByte? b with
      | none => []
      | some op => (offset, op) :: decode (offset + 1) op.operandSize rest

/-- The operations of the chunk with their offsets, up to the first byte that is none. -/
def instructions (c : Chunk) : List (Nat × Opcode) := decode 0 0 c.code

/-- The operations without offsets and operands. -/
def ops (c : Chunk) : List Opcode := c.instructions.map (·.2)

/-- The operand of the operation at an offset, as far as its bytes are there. -/
def operand? (c : Chunk) (offset : Nat) (op : Opcode) : Option Nat :=
  match op.operandSize with
  | 1 => (c.byte? (offset + 1)).map UInt8.toNat
  | 2 => (c.word? (offset + 1)).map UInt16.toNat
  | _ => none

/-- A number with at least four digits. -/
def offsetText (n : Nat) : String :=
  let digits := Nat.toDigits 10 n
  String.ofList (List.replicate (4 - digits.length) '0' ++ digits)

/-- The line of a listing for one operation: offset, name and operand. -/
def listingLine (c : Chunk) (offset : Nat) (op : Opcode) : String :=
  let start := offsetText offset ++ " " ++ op.name
  match c.operand? offset op with
  | some operand => start ++ " " ++ toString operand ++ "\n"
  | none => start ++ "\n"

/-- The listing of the chunk, a line for each operation. -/
def listing (c : Chunk) : String :=
  String.join (c.instructions.map fun i => c.listingLine i.1 i.2)

@[simp] theorem code_empty : empty.code = [] := rfl

@[simp] theorem code_write (c : Chunk) (byte : UInt8) (line : Nat) :
    (c.write byte line).code = c.code ++ [byte] := by
  simp [code, write]

@[simp] theorem lines_write (c : Chunk) (byte : UInt8) (line : Nat) :
    (c.write byte line).lines = c.lines ++ [line] := by
  simp [lines, write]

/-- Code and lines have the same length. -/
theorem length_lines (c : Chunk) : c.lines.length = c.code.length := by
  simp [lines, code]

end Chunk

end FieldPath
