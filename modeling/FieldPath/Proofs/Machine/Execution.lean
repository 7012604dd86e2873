import FieldPath.Machine.Emitter
import FieldPath.Store.Graph

/-!
# The operand-stack machine

What the operations mean.  The stack and the locals hold words.  A value of eight bytes is two
words, an upper and a lower one, and every other value is one; the operations that rearrange the
stack move words and do not know the values that they belong to.  Fields are accessed through the
object graph, and a constant of the pool names the field.

Running code reads one operation with its operand after the other.  An operation faults when its
owner is null or when the graph refuses the access; code that no emission makes may be stuck.

## Main definitions

* `Word`, `Value.words` — the words of a value.
* `Locals` — the local words, with `Locals.load` and `Locals.store`.
* `Loader` — what the constants of a pool stand for.
* `Machine`, `Machine.step`, `Machine.run` — the machine, one operation, and code.

## Main results

* `popValue_words` — a pushed value is popped again.
* `Locals.load_store_self`, `Locals.load_store_of_apart` — loads after stores.
* `Machine.run_instruction` — code that starts with an operation runs it first.
-/

namespace FieldPath

/-! ### Words -/

/-- What one slot of the stack or of the locals holds. -/
inductive Word where
  /-- A value of one slot. -/
  | whole (v : Value)
  /-- The first slot of a value of two. -/
  | upper (v : Value)
  /-- The second slot of a value of two. -/
  | lower (v : Value)
  deriving DecidableEq

/-- The slots of a value: two for a long and a double, one for the others. -/
def Value.width (v : Value) : Nat :=
  match v.kind? with
  | some k => (Ty.primitive k).width
  | none => 1

/-- The words of a value, the topmost first. -/
def Value.words (v : Value) : List Word :=
  if v.width = 2 then [.upper v, .lower v] else [.whole v]

/-- Why code stops. -/
inductive Fault where
  /-- The owner of a field is null. -/
  | nullOwner
  /-- The object graph refuses an access. -/
  | refused (e : AccessError)
  /-- The code, or what it finds on the stack, makes no sense. -/
  | stuck
  deriving DecidableEq, Repr

/-- The value on top of a stack, and the stack beneath it. -/
def popValue : List Word → Except Fault (Value × List Word)
  | .whole v :: s => .ok (v, s)
  | .upper v :: .lower w :: s => if v = w then .ok (v, s) else .error .stuck
  | _ => .error .stuck

theorem Value.width_eq_one_or_two (v : Value) : v.width = 1 ∨ v.width = 2 := by
  unfold Value.width
  split
  · exact Ty.width_eq_one_or_two _
  · exact Or.inl rfl

theorem Value.words_of_width_one {v : Value} (h : v.width = 1) : v.words = [.whole v] := by
  rw [Value.words, h]
  rfl

theorem Value.words_of_width_two {v : Value} (h : v.width = 2) :
    v.words = [.upper v, .lower v] := by
  rw [Value.words, if_pos h]

/-- **A value on top of the stack is popped.** -/
@[simp] theorem popValue_words (v : Value) (s : List Word) :
    popValue (v.words ++ s) = .ok (v, s) := by
  rcases v.width_eq_one_or_two with h | h
  · rw [Value.words_of_width_one h]
    rfl
  · rw [Value.words_of_width_two h]
    exact if_pos rfl

/-! ### Locals -/

/-- The word in each local slot. -/
abbrev Locals := Nat → Option Word

namespace Locals

/-- The value that starts at a slot. -/
def load (locals : Locals) (slot : Nat) : Option Value :=
  match locals slot with
  | some (.whole v) => some v
  | some (.upper v) =>
      if v.width = 2 ∧ locals (slot + 1) = some (.lower v) then some v else none
  | _ => none

/-- The locals with a value from a slot on. -/
def store (locals : Locals) (slot : Nat) (v : Value) : Locals := fun i =>
  if slot ≤ i ∧ i < slot + v.width then v.words[i - slot]? else locals i

theorem load_store_self (locals : Locals) (slot : Nat) (v : Value) :
    (locals.store slot v).load slot = some v := by
  rcases v.width_eq_one_or_two with h | h
  · simp [load, store, h, Value.words_of_width_one h]
  · simp [load, store, h, Value.words_of_width_two h]

/-- A value is loaded from the words that it takes, whatever else there is. -/
theorem load_congr {locals locals' : Locals} {slot : Nat} {v : Value}
    (hload : locals.load slot = some v)
    (hsame : ∀ i, slot ≤ i → i < slot + v.width → locals' i = locals i) :
    locals'.load slot = some v := by
  have hpos : 0 < v.width := by rcases v.width_eq_one_or_two with h | h <;> omega
  unfold load at hload ⊢
  rw [hsame slot (Nat.le_refl _) (by omega)]
  split at hload
  · exact hload
  · next w hw =>
    split at hload
    · next hwide =>
      obtain rfl := Option.some.inj hload
      rw [hsame (slot + 1) (by omega) (by omega), if_pos hwide]
    · simp at hload
  · simp at hload

/-- **A store leaves the values in other slots alone.** -/
theorem load_store_of_apart {locals : Locals} {slot slot' : Nat} {v w : Value}
    (hload : locals.load slot' = some w)
    (hapart : slot + v.width ≤ slot' ∨ slot' + w.width ≤ slot) :
    (locals.store slot v).load slot' = some w := by
  refine load_congr hload fun i hi hi' => ?_
  unfold store
  rw [if_neg (by omega)]

end Locals

/-! ### The machine -/

/-- What the constants of a pool stand for when code is loaded. -/
structure Loader where
  /-- The field that a constant refers to. -/
  field? : Constant → Option Field
  /-- The value of a constant that is pushed. -/
  value? : Constant → Option Value

/-- The state of the machine. -/
structure Machine (γ : Type) where
  /-- The operand stack, the topmost word first. -/
  stack : List Word
  /-- The locals. -/
  locals : Locals
  /-- The objects. -/
  objects : γ

/-- A change of the machine, which may fault. -/
abbrev Machine.Action (γ : Type) := Machine γ → Except Fault (Machine γ)

namespace Machine

variable {γ : Type} [ObjectGraph γ]

/-- The object that a popped value names. -/
def ownerOf : Value → Except Fault Handle
  | .object h => .ok h
  | .null => .error .nullOwner
  | _ => .error .stuck

/-- A value is pushed. -/
def push (m : Machine γ) (v : Value) : Machine γ := { m with stack := v.words ++ m.stack }

/-- An operation that only rearranges the stack. -/
def rearrange (m : Machine γ) (f : List Word → Option (List Word)) : Except Fault (Machine γ) :=
  match f m.stack with
  | some stack => .ok { m with stack := stack }
  | none => .error .stuck

/-- The value of a local is pushed. -/
def getLocal (slot : Nat) (m : Machine γ) : Except Fault (Machine γ) :=
  match m.locals.load slot with
  | some v => .ok (m.push v)
  | none => .error .stuck

/-- A value is popped into a local. -/
def setLocal (slot : Nat) (m : Machine γ) : Except Fault (Machine γ) :=
  (popValue m.stack).map fun (v, stack) =>
    { m with stack := stack, locals := m.locals.store slot v }

/-- An owner is popped, and the value of its field is pushed. -/
def getField (f : Field) (m : Machine γ) : Except Fault (Machine γ) :=
  (popValue m.stack).bind fun (owner, stack) => (ownerOf owner).bind fun h =>
    ((ObjectGraph.getField m.objects h f).mapError .refused).map fun v =>
      push { m with stack := stack } v

/-- A value and the owner beneath it are popped, and the value is stored. -/
def putField (f : Field) (m : Machine γ) : Except Fault (Machine γ) :=
  (popValue m.stack).bind fun (v, stack) => (popValue stack).bind fun (owner, stack) =>
    (ownerOf owner).bind fun h =>
      ((ObjectGraph.setField m.objects h f v).mapError .refused).map fun objects =>
        { m with stack := stack, objects := objects }

/-- The value of a field of a class is pushed. -/
def getStatic (f : Field) (m : Machine γ) : Except Fault (Machine γ) :=
  ((ObjectGraph.getStatic m.objects f).mapError .refused).map m.push

/-- A value is popped and stored in a field of a class. -/
def putStatic (f : Field) (m : Machine γ) : Except Fault (Machine γ) :=
  (popValue m.stack).bind fun (v, stack) =>
    ((ObjectGraph.setStatic m.objects f v).mapError .refused).map fun objects =>
      { m with stack := stack, objects := objects }

/-- A field of an owner that was just pushed is read. -/
theorem getField_push (f : Field) (m : Machine γ) (v : Value) :
    getField f (m.push v) = ((ownerOf v).bind fun h =>
      (ObjectGraph.getField m.objects h f).mapError .refused).map m.push := by
  simp only [getField, push, popValue_words]
  show (ownerOf v).bind _ = _
  cases ownerOf v with
  | error fault => rfl
  | ok h =>
    show ((ObjectGraph.getField m.objects h f).mapError Fault.refused).map _ =
      ((ObjectGraph.getField m.objects h f).mapError Fault.refused).map _
    rfl

/-- A value that stands on an owner is stored in a field of it. -/
theorem putField_words (f : Field) (v owner : Value) (s : List Word) (locals : Locals)
    (objects : γ) :
    putField f ⟨v.words ++ (owner.words ++ s), locals, objects⟩ = (ownerOf owner).bind fun h =>
      ((ObjectGraph.setField objects h f v).mapError .refused).map fun objects =>
        ⟨s, locals, objects⟩ := by
  simp only [putField, popValue_words]
  show (popValue (owner.words ++ s)).bind _ = _
  rw [popValue_words]
  rfl

theorem putStatic_words (f : Field) (v : Value) (s : List Word) (locals : Locals) (objects : γ) :
    putStatic f ⟨v.words ++ s, locals, objects⟩ =
      ((ObjectGraph.setStatic objects f v).mapError .refused).map fun objects =>
        ⟨s, locals, objects⟩ := by
  simp only [putStatic, popValue_words]
  rfl

theorem setLocal_words {δ : Type} (slot : Nat) (v : Value) (s : List Word) (locals : Locals)
    (objects : δ) :
    setLocal slot ⟨v.words ++ s, locals, objects⟩ = .ok ⟨s, locals.store slot v, objects⟩ := by
  simp only [setLocal, popValue_words]
  rfl

/-- What a constant stands for, by its index in the pool. -/
def operandOf {α : Type} (find : Constant → Option α) (pool : ConstantPool) (index : Nat) :
    Except Fault α :=
  match (pool.get? index).bind find with
  | some a => .ok a
  | none => .error .stuck

/-- One operation with its operand. -/
def step (l : Loader) (pool : ConstantPool) (op : Opcode) (operand : Nat) (m : Machine γ) :
    Except Fault (Machine γ) :=
  match op with
  | .constant | .constantWide => (operandOf l.value? pool operand).map m.push
  | .pushNull => .ok (m.push .null)
  | .pop => m.rearrange fun | _ :: s => some s | _ => none
  | .pop2 => m.rearrange fun | _ :: _ :: s => some s | _ => none
  | .dup => m.rearrange fun | a :: s => some (a :: a :: s) | _ => none
  | .dup2 => m.rearrange fun | a :: b :: s => some (a :: b :: a :: b :: s) | _ => none
  | .dupX2 => m.rearrange fun | a :: b :: c :: s => some (a :: b :: c :: a :: s) | _ => none
  | .swap => m.rearrange fun | a :: b :: s => some (b :: a :: s) | _ => none
  | .getLocal | .getLocalWide => m.getLocal operand
  | .setLocal | .setLocalWide => m.setLocal operand
  | .getField => (operandOf l.field? pool operand).bind m.getField
  | .putField => (operandOf l.field? pool operand).bind m.putField
  | .getStatic => (operandOf l.field? pool operand).bind m.getStatic
  | .putStatic => (operandOf l.field? pool operand).bind m.putStatic

/-- The word of two bytes, the high byte first. -/
def wordOfBytes (high low : UInt8) : UInt16 := (high.toUInt16 <<< 8) ||| low.toUInt16

/-- The code is run from its first byte to its last. -/
def run (l : Loader) (pool : ConstantPool) : List UInt8 → Machine γ → Except Fault (Machine γ)
  | [], m => .ok m
  | b :: rest, m =>
      match Opcode.ofByte? b with
      | none => .error .stuck
      | some op =>
          match op.operandSize, rest with
          | 0, rest => (m.step l pool op 0).bind (run l pool rest)
          | 1, x :: rest => (m.step l pool op x.toNat).bind (run l pool rest)
          | 2, x :: y :: rest =>
              (m.step l pool op (wordOfBytes x y).toNat).bind (run l pool rest)
          | _, _ => .error .stuck

/-! ### Encoded operations -/

end Machine

namespace Operand

/-- The bytes of an operand. -/
def bytes : Operand → List UInt8
  | .none => []
  | .byte n => [n]
  | .word n => [(n >>> 8).toUInt8, n.toUInt8]

/-- The number that an operand stands for. -/
def toNat : Operand → Nat
  | .none => 0
  | .byte n => n.toNat
  | .word n => n.toNat

end Operand

theorem wordOfBytes_bytes (n : UInt16) :
    Machine.wordOfBytes (n >>> 8).toUInt8 n.toUInt8 = n := by
  unfold Machine.wordOfBytes
  apply UInt16.toNat_inj.mp
  have hn := n.toNat_lt
  have hlow : n.toNat % 2 ^ 8 < 2 ^ 8 := Nat.mod_lt _ (by decide)
  have hhigh : n.toNat >>> 8 % 2 ^ 8 = n.toNat / 2 ^ 8 := by
    rw [Nat.shiftRight_eq_div_pow]
    omega
  have hfits : (n.toNat / 2 ^ 8) <<< 8 < 2 ^ 16 := by
    rw [Nat.shiftLeft_eq]
    omega
  have hbytes : (((n >>> 8).toUInt8.toUInt16 <<< 8) ||| n.toUInt8.toUInt16).toNat =
      (n.toNat >>> 8 % 2 ^ 8) <<< 8 % 2 ^ 16 ||| n.toNat % 2 ^ 8 := by simp
  -- the low byte fills the bits that the shift leaves free, so "or" is addition
  rw [hbytes, hhigh, Nat.mod_eq_of_lt hfits, ← Nat.shiftLeft_add_eq_or_of_lt hlow,
    Nat.shiftLeft_eq]
  omega

namespace Machine

variable {γ : Type} [ObjectGraph γ]

/-- **Code that starts with an operation runs it first.** -/
theorem run_instruction (l : Loader) (pool : ConstantPool) {op : Opcode} {operand : Operand}
    (hsize : operand.bytes.length = op.operandSize) (rest : List UInt8) (m : Machine γ) :
    m.run l pool (op.toByte :: operand.bytes ++ rest) =
      (m.step l pool op operand.toNat).bind (run l pool rest) := by
  -- the operation tells how many bytes are read, the operand how many there are
  cases operand with
  | none =>
    simp only [Operand.bytes, List.length_nil] at hsize
    simp only [Operand.bytes, Operand.toNat, List.cons_append, List.nil_append, run,
      Opcode.ofByte?_toByte, ← hsize]
  | byte n =>
    simp only [Operand.bytes, List.length_singleton] at hsize
    simp only [Operand.bytes, Operand.toNat, List.cons_append, List.nil_append, run,
      Opcode.ofByte?_toByte, ← hsize]
  | word n =>
    simp only [Operand.bytes, List.length_cons, List.length_nil] at hsize
    simp only [Operand.bytes, Operand.toNat, List.cons_append, List.nil_append, run,
      Opcode.ofByte?_toByte, ← hsize, wordOfBytes_bytes]

end Machine

end FieldPath
