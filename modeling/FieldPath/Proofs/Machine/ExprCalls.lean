import FieldPath.Proofs.Machine.Calls
import FieldPath.Proofs.Machine.Correctness

/-!
# The calls of an expression

The code of an expression is straight: it is a list of calls on the emitter, with checks of the
height between them.  The code of a typed expression keeps what lies beneath it on the stack and
ends on the height that it should, because the owner of a field is a reference, which takes one
slot.  So the checks never fail, and emitting the code is the same as making the calls.

## Main definitions

* `Expr.calls`, `Expr.assignCalls` — the calls of the code of an expression.
* `Expr.room` — how far assigning code reaches above the stack that it finds.
* `Expr.slots`, `Expr.references` — the local slots and field references that the code names.

## Main results

* `Expr.HasType.course_calls`, `Expr.HasType.course_assignCalls` — **the course of typed code.**
* `Expr.HasType.compile_eq_calls`, `Expr.HasType.compileAssign_eq_calls` — **the code of a typed
  expression is its calls.**
-/

namespace FieldPath

/-! ### The calls of an expression -/

/-- The call that repeats a value. -/
def Call.dupValue (width : Nat) : Call :=
  if width = 2 then .fixed .dup2 0 2 Opcode.moves?_dup2 else .fixed .dup 0 1 Opcode.moves?_dup

/-- The calls that move an owner beneath a value. -/
def Call.ownerBelow (width : Nat) : List Call :=
  if width = 2 then
    [.fixed .dupX2 3 4 Opcode.moves?_dupX2, .fixed .pop 1 0 Opcode.moves?_pop]
  else [.fixed .swap 2 2 Opcode.moves?_swap]

/-- The calls that read a field of a class. -/
def StaticRef.calls (r : StaticRef) : List Call :=
  match r.resolved with
  | some found => [.getStatic found.field found.ty.width]
  | none => []

/-- The calls that assign to a field of a class. -/
def StaticRef.assignCalls (r : StaticRef) : List Call :=
  match r.resolved with
  | some found => [.dupValue found.ty.width, .putStatic found.field found.ty.width]
  | none => []

namespace Expr

/-- The calls that read an expression, as far as it has its meaning. -/
def calls : Expr → List Call
  | .binding _ span ty (some slot) => [.line span.line, .getLocal slot ty.width]
  | .static r => .line r.span.line :: r.calls
  | .qualified target _ span (some _) => .line span.line :: target.calls
  | .member owner _ span (some found) =>
      .line span.line :: (owner.calls ++ [.getField found.field found.ty.width])
  | e => [.line e.span.line]

/-- The calls that assign to an expression, as far as it has its meaning. -/
def assignCalls : Expr → List Call
  | .binding _ span ty (some slot) =>
      [.line span.line, .dupValue ty.width, .setLocal slot ty.width]
  | .static r => .line r.span.line :: r.assignCalls
  | .qualified target _ span (some _) => .line span.line :: target.assignCalls
  | .member owner _ span (some found) =>
      .line span.line :: .dupValue found.ty.width :: (owner.calls ++
        (Call.ownerBelow found.ty.width ++ [.putField found.field found.ty.width]))
  | e => [.line e.span.line]

/-- How far the code that assigns a value of a width reaches above the stack that it finds.  The
value is repeated, and an owner goes above it and beneath it. -/
def room (width : Nat) : Expr → Nat
  | .member _ _ _ _ => 2 * width
  | _ => width

end Expr

/-! ### The course of typed code -/

namespace Emit

variable {base height greatest : Int}

theorem moves?_dupValue {width : Nat} (h : width = 1 ∨ width = 2) :
    (Call.dupValue width).moves? = some (0, width) := by
  rcases h with rfl | rfl <;> rfl

/-- An owner of one slot stays on its height when it is moved beneath a value; beneath a value of
two slots it is repeated on the way. -/
theorem course_ownerBelow {width : Nat} (hwidth : width = 1 ∨ width = 2)
    (h : base + width + 1 ≤ height) (hgreatest : height ≤ greatest) :
    course base (Call.ownerBelow width) (height, greatest) =
      some (height, max greatest (height + width - 1)) := by
  rcases hwidth with rfl | rfl
  · have hswap : base ≤ height - (2 : Nat) := by omega
    rw [Call.ownerBelow, if_neg (by decide), course_cons rfl hswap, course_nil]
    congr 2 <;> omega
  · have hdup : base ≤ height - (3 : Nat) := by omega
    have hpop : base ≤ height - (3 : Nat) + (4 : Nat) - (1 : Nat) := by omega
    rw [Call.ownerBelow, if_pos rfl, course_cons rfl hdup, course_cons rfl hpop, course_nil]
    congr 2 <;> omega

end Emit

open Emit

namespace Expr

variable {u : Universe} {bindings : Bindings} {base height greatest : Int}

/-- The owner of a field is a reference, which takes one slot. -/
theorem width_of_findMember {t : Ty} {field : String} {span : Span} {found : ResolvedField}
    (h : u.findMember t field span = .ok found) : t.width = 1 := by
  obtain ⟨o, ho, -⟩ := Universe.findMember_eq_ok h
  rw [← Ty.width_deref, ho]
  rfl

theorem course_static {r : StaticRef} {found : ResolvedField} (hres : r.resolved = some found)
    (h : base ≤ height) (line : Nat) :
    course base (.line line :: r.calls) (height, greatest) =
      some (height + found.ty.width, max greatest (height + found.ty.width)) := by
  have hpush : base ≤ height - (0 : Nat) := by omega
  simp only [StaticRef.calls, hres]
  show course base [Call.getStatic found.field found.ty.width] (height, greatest) = _
  rw [course_cons rfl hpush, course_nil]
  congr 2 <;> omega

/-- **The code that reads a typed expression keeps what is beneath it, and puts the value on top.**
Nothing on the way is higher than the value. -/
theorem HasType.course_calls {e : Expr} {t : Ty} (he : HasType u bindings e t) :
    ∀ {height greatest : Int}, base ≤ height →
      course base e.calls (height, greatest) =
        some (height + t.width, max greatest (height + t.width)) := by
  induction he with
  | @binding name span b hb =>
    intro height greatest h
    have hpush : base ≤ height - (0 : Nat) := by omega
    show course base [Call.getLocal b.slot b.ty.width] (height, greatest) = _
    rw [course_cons rfl hpush, course_nil]
    congr 2 <;> omega
  | static _ hres => exact fun h => course_static hres h _
  | qualified _ hres => exact fun h => course_static hres h _
  | @member owner t field span found _ hfind ih =>
    intro height greatest h
    have hone := width_of_findMember hfind
    have hpos := found.ty.width_eq_one_or_two
    have htake : base ≤ height + (1 : Nat) - (1 : Nat) := by omega
    show course base (owner.calls ++ [.getField found.field found.ty.width]) (height, greatest) = _
    rw [course_append, ih h, hone]
    show course base [Call.getField found.field found.ty.width] (height + (1 : Nat), _) = _
    rw [course_cons rfl htake, course_nil]
    congr 2 <;> omega

theorem course_assignStatic {r : StaticRef} {found : ResolvedField}
    (hres : r.resolved = some found) (h : base ≤ height) (line : Nat) :
    course base (.line line :: r.assignCalls) (height, greatest) =
      some (height, max greatest (height + found.ty.width)) := by
  have hdup : base ≤ height - (0 : Nat) := by omega
  have hput : base ≤ height - (0 : Nat) + found.ty.width - found.ty.width := by omega
  simp only [StaticRef.assignCalls, hres]
  show course base [Call.dupValue found.ty.width, .putStatic found.field found.ty.width]
    (height, greatest) = _
  rw [course_cons (moves?_dupValue found.ty.width_eq_one_or_two) hdup, course_cons rfl hput,
    course_nil]
  congr 2 <;> omega

/-- **The code that assigns to a typed expression keeps what is beneath it**, the value that it
assigns included. -/
theorem HasType.course_assignCalls {e : Expr} {t : Ty} (he : HasType u bindings e t)
    (h : base ≤ height) :
    course base e.assignCalls (height, greatest) =
      some (height, max greatest (height + e.room t.width)) := by
  have hdup : base ≤ height - (0 : Nat) := by omega
  cases he with
  | @binding name span b hb =>
    have hpop : base ≤ height - (0 : Nat) + b.ty.width - b.ty.width := by omega
    show course base [Call.dupValue b.ty.width, .setLocal b.slot b.ty.width] (height, greatest) =
      some (height, max greatest (height + b.ty.width))
    rw [course_cons (moves?_dupValue b.ty.width_eq_one_or_two) hdup, course_cons rfl hpop,
      course_nil]
    congr 2 <;> omega
  | static _ hres => exact course_assignStatic hres h _
  | qualified _ hres => exact course_assignStatic hres h _
  | @member owner t field span found howner hfind =>
    have hone := width_of_findMember hfind
    have hwidth := found.ty.width_eq_one_or_two
    show course base (Call.dupValue found.ty.width :: (owner.calls ++
      (Call.ownerBelow found.ty.width ++ [.putField found.field found.ty.width])))
        (height, greatest) = _
    rw [course_cons (moves?_dupValue hwidth) hdup, course_append,
      howner.course_calls (by omega), hone]
    show course base (Call.ownerBelow found.ty.width ++
      [.putField found.field found.ty.width]) (_, _) = _
    rw [course_append, course_ownerBelow hwidth (by omega) (by omega)]
    show course base [Call.putField found.field found.ty.width] (_, _) = _
    rw [course_cons rfl (by omega), course_nil, room]
    congr 2 <;> omega

/-! ### The code of a typed expression -/

theorem width_le_two (t : Ty) : t.width ≤ 2 := by
  have h := t.width_eq_one_or_two
  omega

theorem width_dupValue (width : Nat) : (Call.dupValue width).width ≤ 2 := by
  unfold Call.dupValue
  split <;> simp [Call.width]

theorem width_ownerBelow (width : Nat) : ∀ c ∈ Call.ownerBelow width, c.width ≤ 2 := by
  unfold Call.ownerBelow
  split <;> simp [Call.width]

theorem width_staticCalls (r : StaticRef) : ∀ c ∈ r.calls, c.width ≤ 2 := by
  unfold StaticRef.calls
  split <;> simp [Call.width, width_le_two]

/-- The values that are moved take two slots at most. -/
theorem width_calls (e : Expr) : ∀ c ∈ e.calls, c.width ≤ 2 := by
  induction e with
  | binding name span ty slot => cases slot <;> simp [calls, Call.width, width_le_two]
  | static r => simpa [calls, Call.width] using width_staticCalls r
  | path segments field span => simp [calls, Call.width]
  | member owner field span found ih =>
    cases found with
    | none => simp [calls, Call.width]
    | some found =>
      simp only [calls, List.forall_mem_cons, List.forall_mem_append]
      exact ⟨by simp [Call.width], ih, by simp [Call.width, width_le_two]⟩
  | qualified target field span found =>
    cases found with
    | none => simp [calls, Call.width]
    | some found => simpa [calls, Call.width] using width_staticCalls target

theorem width_staticAssignCalls (r : StaticRef) : ∀ c ∈ r.assignCalls, c.width ≤ 2 := by
  unfold StaticRef.assignCalls
  split
  · simp only [List.forall_mem_cons]
    exact ⟨width_dupValue _, width_le_two _, List.forall_mem_nil _⟩
  · exact List.forall_mem_nil _

theorem width_assignCalls (e : Expr) : ∀ c ∈ e.assignCalls, c.width ≤ 2 := by
  cases e with
  | binding name span ty slot =>
    cases slot with
    | none => simp [assignCalls, Call.width]
    | some slot =>
      simp only [assignCalls, List.forall_mem_cons]
      exact ⟨Nat.zero_le 2, width_dupValue _, width_le_two ty, List.forall_mem_nil _⟩
  | static r => simpa [assignCalls, Call.width] using width_staticAssignCalls r
  | path segments field span => simp [assignCalls, Call.width]
  | member owner field span found =>
    cases found with
    | none => simp [assignCalls, Call.width]
    | some found =>
      simp only [assignCalls, List.forall_mem_cons, List.forall_mem_append]
      exact ⟨by simp [Call.width], width_dupValue _, width_calls owner, width_ownerBelow _,
        by simp [Call.width, width_le_two]⟩
  | qualified target field span found =>
    cases found with
    | none => simp [assignCalls, Call.width]
    | some found => simpa [assignCalls, Call.width] using width_staticAssignCalls target

/-- A check of the height after calls that end where it expects them to goes unnoticed. -/
theorem calls_verify {n : Nat} {cs : List Call} (delta : Int)
    (hwidth : ∀ c ∈ Call.line n :: cs, c.width ≤ 2)
    (hcourse : ∀ height greatest : Int, ∃ greatest',
      course height (.line n :: cs) (height, greatest) = some (height + delta, greatest'))
    (context : String) :
    (do
      setLine n
      let start ← mark
      Emit.calls cs
      verify start delta context) = Emit.calls (.line n :: cs) := by
  have hrest : (do
      let start ← mark
      Emit.calls cs
      verify start delta context) = Emit.calls cs := by
    funext s
    show (Emit.calls cs >>= fun _ => verify s.height delta context) s = _
    cases hcs : Emit.calls cs s with
    | error err s' =>
      show EStateM.bind _ _ s = _
      rw [EStateM.bind, hcs]
    | ok _ s' =>
      obtain ⟨greatest', hend⟩ := hcourse s.height s.maxHeight
      have hcounts := calls_eq_ok s.le_height (fun c hc => hwidth c (List.mem_cons_of_mem _ hc)) hcs
        s.counts_self hend
      rw [bind_of_ok hcs, verify_eq, if_pos hcounts.height]
  exact congrArg (setLine n >>= fun _ => ·) hrest

theorem compile_static_eq_calls {r : StaticRef} {found : ResolvedField}
    (hres : r.resolved = some found) (n : Nat) :
    (do setLine n; r.compile) = Emit.calls (.line n :: r.calls) := by
  have hcalls : r.calls = [.getStatic found.field found.ty.width] := by
    rw [StaticRef.calls, hres]
  rw [← calls_verify (slots found.ty.width) ?_ ?_ "static field read",
    StaticRef.compile_eq hres, hcalls, calls_singleton]
  · rfl
  · exact List.forall_mem_cons.mpr ⟨Nat.zero_le 2, hcalls ▸ width_staticCalls r⟩
  · intro height greatest
    rw [slots_of_le_two (width_le_two _)]
    exact ⟨_, course_static hres (Int.le_refl height) n⟩

/-- **The code that reads a typed expression is its calls.** -/
theorem HasType.compile_eq_calls {e : Expr} {t : Ty} (he : HasType u bindings e t) :
    e.compile = Emit.calls e.calls := by
  induction he with
  | @binding name span b hb =>
    simp only [compile, calls, Emit.calls, Call.emit, bind_pure_unit]
  | static _ hres => exact compile_static_eq_calls hres _
  | qualified _ hres => exact compile_static_eq_calls hres _
  | @member owner t field span found howner hfind ih =>
    rw [calls, ← calls_verify (slots found.ty.width)
      (width_calls (.member owner field span (some found))) ?_ "field read", calls_append,
      calls_singleton, ← ih]
    · simp only [compile, Call.emit, bind_assoc]
    · intro height greatest
      rw [slots_of_le_two (width_le_two _)]
      exact ⟨_, (howner.member hfind).course_calls (Int.le_refl height)⟩

theorem emit_dupValue (width : Nat) : (Call.dupValue width).emit = Emit.dupValue width := by
  unfold Call.dupValue Emit.dupValue
  split <;> rfl

theorem calls_ownerBelow (width : Nat) :
    Emit.calls (Call.ownerBelow width) = Emit.ownerBelow width := by
  unfold Call.ownerBelow Emit.ownerBelow
  split <;> simp only [Emit.calls, Call.emit, bind_pure_unit]

theorem compileAssign_static_eq_calls {r : StaticRef} {found : ResolvedField}
    (hres : r.resolved = some found) (n : Nat) :
    (do setLine n; r.compileAssign) = Emit.calls (.line n :: r.assignCalls) := by
  have hcalls : r.assignCalls =
      [.dupValue found.ty.width, .putStatic found.field found.ty.width] := by
    rw [StaticRef.assignCalls, hres]
  rw [← calls_verify 0 ?_ ?_ "static field write", StaticRef.compileAssign_eq hres,
    hcalls]
  · simp only [Emit.calls, emit_dupValue, bind_pure_unit, bind_assoc]
    rfl
  · exact List.forall_mem_cons.mpr ⟨Nat.zero_le 2, hcalls ▸ width_staticAssignCalls r⟩
  · intro height greatest
    rw [Int.add_zero]
    exact ⟨_, course_assignStatic hres (Int.le_refl height) n⟩

/-- **The code that assigns to a typed expression is its calls.** -/
theorem HasType.compileAssign_eq_calls {e : Expr} {t : Ty} (he : HasType u bindings e t) :
    e.compileAssign = Emit.calls e.assignCalls := by
  have hcourse : ∀ height greatest : Int, ∃ greatest',
      course height e.assignCalls (height, greatest) = some (height + 0, greatest') := by
    intro height greatest
    rw [Int.add_zero]
    exact ⟨_, he.course_assignCalls (Int.le_refl height)⟩
  cases he with
  | @binding name span b hb =>
    simp only [compileAssign, assignCalls, Emit.calls, emit_dupValue, bind_pure_unit]
    rfl
  | static _ hres => exact compileAssign_static_eq_calls hres _
  | qualified _ hres => exact compileAssign_static_eq_calls hres _
  | @member owner t field span found howner hfind =>
    rw [assignCalls, ← calls_verify 0 (width_assignCalls (.member owner field span (some found)))
      hcourse "field write"]
    simp only [compileAssign, Emit.calls, calls_append, calls_ownerBelow, emit_dupValue,
      bind_pure_unit, howner.compile_eq_calls, bind_assoc]
    rfl

/-! ### The indices of an expression -/

/-- The local slots that the code of an expression names. -/
def slots : Expr → List Nat
  | .binding _ _ _ slot => slot.toList
  | .member owner _ _ _ => owner.slots
  | _ => []

/-- The field reference that the code of a field of a class names. -/
def staticReferences (r : StaticRef) : List Constant :=
  r.resolved.toList.map fun found => fieldConstant found.field

/-- The field references that the code of an expression names, from the innermost node outwards. -/
def references : Expr → List Constant
  | .static r => staticReferences r
  | .qualified target _ _ _ => staticReferences target
  | .member owner _ _ found =>
      owner.references ++ found.toList.map fun found => fieldConstant found.field
  | _ => []

end Expr

end FieldPath
