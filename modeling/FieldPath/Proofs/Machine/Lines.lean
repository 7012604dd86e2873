import FieldPath.Proofs.Machine.Heights
import FieldPath.Proofs.Machine.Requests
import FieldPath.Proofs.Path.Rendering

/-!
# Lines of code

An emitter has one current line, which goes to every byte that is written.  The code of an
expression sets it when the code of a node starts, and a node whose owner is read before its own
instruction is written comes back with the line of the owner.  So all of the code that reads an
expression has the line of the innermost node.  The code that assigns to one repeats the value
first, on the line of the outermost node, and goes on with the line of the innermost one.  Nodes
that are all on one line make no difference, and the nodes of an expression that is read from a text
are.

## Main definitions

* `Expr.root`, `Expr.spine` — the innermost node, and the nodes that have code.
* `Expr.asked`, `Expr.assignAsked` — the instructions of an expression, each with its node.
* `Role.recorded`, `Role.due` — the instructions with the lines that they get, and with the lines of
  their nodes.

## Main results

* `Emit.records_calls` — calls record what they ask for, up to the first one that fails.
* `Expr.HasType.marked_calls` — **code that reads an expression is on the line of its root.**
* `Expr.HasType.recorded_eq_due_iff` — nodes on different lines are what makes a difference.
* `Expr.Placed.recorded_eq_due` — **code for an expression that stands for a path has its lines.**
* `recorded_lines` — **the line of every byte that is emitted.**
-/

namespace FieldPath

/-! ### Lines of calls -/

namespace Call

/-- The call as a request. -/
def request : Call → Request
  | .line n => .line n
  | .fixed op _ _ moves => .fixed op (Opcode.operandSize_of_moves moves)
  | .getLocal slot width => .getLocal slot width
  | .setLocal slot width => .setLocal slot width
  | .getField f width => .getField f width
  | .putField f width => .putField f width
  | .getStatic f width => .getStatic f width
  | .putStatic f width => .putStatic f width

theorem emit_request (c : Call) : c.request.emit = c.emit := by
  cases c <;> rfl

/-- The line after some calls. -/
def lineAfter (n : Nat) (cs : List Call) : Nat := cs.foldl (fun n c => c.request.lineAfter n) n

/-- The instructions that some calls ask for, each with the line of its bytes. -/
def marked (n : Nat) (cs : List Call) : List (Wanted × Nat) := Request.marked n (cs.map request)

theorem marked_cons (n : Nat) (c : Call) (cs : List Call) :
    marked n (c :: cs) =
      (c.request.wanted.map fun q => (q, n)) ++ marked (c.request.lineAfter n) cs := rfl

theorem lineAfter_append (n : Nat) (cs ds : List Call) :
    lineAfter n (cs ++ ds) = lineAfter (lineAfter n cs) ds := List.foldl_append

theorem marked_append (n : Nat) (cs ds : List Call) :
    marked n (cs ++ ds) = marked n cs ++ marked (lineAfter n cs) ds := by
  induction cs generalizing n with
  | nil => rfl
  | cons c cs ih =>
    rw [List.cons_append, marked_cons, marked_cons, ih, List.append_assoc]
    rfl

/-- An instruction changes no line. -/
theorem lineAfter_of_writes {c : Call} (h : c.writes = true) (n : Nat) :
    c.request.lineAfter n = n := by
  cases c with
  | line m => exact absurd h nofun
  | _ => rfl

/-- Instructions change no line. -/
theorem lineAfter_eq_of_writes {cs : List Call} (h : ∀ c ∈ cs, c.writes = true) (n : Nat) :
    lineAfter n cs = n := by
  induction cs with
  | nil => rfl
  | cons c cs ih =>
    show lineAfter (c.request.lineAfter n) cs = n
    rw [lineAfter_of_writes (h c List.mem_cons_self)]
    exact ih fun d hd => h d (List.mem_cons_of_mem _ hd)

end Call

namespace Emit

/-- **Calls record what they ask for**, up to the first one that fails. -/
theorem records_calls {before : Array Cell} (cs : List Call) : ∀ {s : Emitter} {c : Chunk}
    {asked : List (Wanted × Nat)} {code : List (Nat × Opcode)}, s.pool.Lawful →
      s.chunk.cells = before ++ c.cells → c.Records s.pool asked code →
        ∃ c' code' more, (last (calls cs s)).chunk.cells = before ++ c'.cells ∧
          Chunk.Records (last (calls cs s)).pool c' (asked ++ more) code' ∧
          more <+: Call.marked s.line cs ∧
          ((∃ s', calls cs s = .ok () s') → more = Call.marked s.line cs) := by
  induction cs with
  | nil =>
    intro s c asked code _ hcells hc
    exact ⟨c, code, [], hcells, by rwa [List.append_nil], List.nil_prefix, fun _ => rfl⟩
  | cons d cs ih =>
    intro s c asked code hpool hcells hc
    rcases d.request.granted_or_refused hpool with ⟨next, hnext⟩ | ⟨role, index, hrefused⟩
    · have hcalls : calls (d :: cs) s = calls cs next :=
        bind_of_ok (d.emit_request ▸ hnext.emit)
      obtain ⟨hlawful, c', code', hcells', hc'⟩ := hnext.records hpool hcells hc
      obtain ⟨c'', code'', more, hcells'', hc'', hstart, hall⟩ := ih hlawful hcells' hc'
      rw [hcalls]
      rw [hnext.line] at hstart hall
      refine ⟨c'', code'', _ ++ more, hcells'', ?_, (List.prefix_append_right_inj _).mpr hstart,
        fun hok => congrArg _ (hall hok)⟩
      rwa [← List.append_assoc]
    · have hcalls : calls (d :: cs) s = .error (.operandOverflow role index)
          { s with pool := d.request.addTo s.pool } := by
        show EStateM.bind d.emit _ s = _
        rw [EStateM.bind, ← d.emit_request, hrefused.emit]
      rw [hcalls]
      refine ⟨c, code, [], hcells, ?_, List.nil_prefix, fun ⟨_, h⟩ => absurd h nofun⟩
      rw [List.append_nil]
      exact hc.mono (d.request.within_addTo s.pool)

end Emit

/-! ### Instructions and their nodes -/

namespace Expr

/-- The node that the code of an expression starts with, which is the innermost one. -/
def root : Expr → Expr
  | .member owner _ _ _ => owner.root
  | e => e

/-- The nodes that have code.  A path that names a field of a class as a whole has the code of the
field. -/
def spine : Expr → List Expr
  | .member owner field span recorded => .member owner field span recorded :: owner.spine
  | e => [e]

/-- The instructions of some calls, all of them for one node. -/
def ownedBy (n : Expr) (cs : List Call) : List (Expr × Wanted) :=
  cs.flatMap fun c => c.request.wanted.map fun q => (n, q)

/-- The instructions that read an expression, each with the node that it is for. -/
def asked : Expr → List (Expr × Wanted)
  | .member owner field span (some found) =>
      owner.asked ++
        ownedBy (.member owner field span (some found)) [.getField found.field found.ty.width]
  | e => ownedBy e e.calls

/-- The instructions that assign to an expression, each with the node that it is for. -/
def assignAsked : Expr → List (Expr × Wanted)
  | .member owner field span (some found) =>
      ownedBy (.member owner field span (some found)) [.dupValue found.ty.width] ++
        (owner.asked ++ ownedBy (.member owner field span (some found))
          (Call.ownerBelow found.ty.width ++ [.putField found.field found.ty.width]))
  | e => ownedBy e e.assignCalls

end Expr

namespace Role

/-- The instructions of the code for the use, each with the node that it is for. -/
def asked (role : Role) (e : Expr) : List (Expr × Wanted) :=
  match role with
  | .read => e.asked
  | .assign => e.assignAsked

/-- The instructions with the lines of their nodes. -/
def due (role : Role) (e : Expr) : List (Wanted × Nat) :=
  (role.asked e).map fun own => (own.2, own.1.span.line)

/-- The instructions with the lines that they get.  An assignment repeats the value before the
owner is read; this one instruction has the line of its node, and all others that of the root. -/
def recorded (role : Role) (e : Expr) : List (Wanted × Nat) :=
  match role with
  | .read => e.asked.map fun own => (own.2, e.root.span.line)
  | .assign =>
      match e.assignAsked with
      | [] => []
      | first :: rest =>
          (first.2, first.1.span.line) :: rest.map fun own => (own.2, e.root.span.line)

end Role

namespace Expr

variable {u : Universe} {bindings : Bindings}

theorem ownedBy_cons (e : Expr) (c : Call) (cs : List Call) :
    e.ownedBy (c :: cs) = (c.request.wanted.map fun q => (e, q)) ++ e.ownedBy cs :=
  List.flatMap_cons

/-- Instructions of one node are all on one line. -/
theorem marked_of_writes {cs : List Call} (h : ∀ c ∈ cs, c.writes = true) (e : Expr) (n : Nat) :
    Call.marked n cs = (ownedBy e cs).map fun own => (own.2, n) := by
  induction cs with
  | nil => rfl
  | cons c cs ih =>
    rw [Call.marked_cons, Call.lineAfter_of_writes (h c List.mem_cons_self),
      ih fun d hd => h d (List.mem_cons_of_mem _ hd), ownedBy_cons, List.map_append, List.map_map]
    rfl

/-- The code of a node that sets its line first is all on that line. -/
theorem marked_line_cons {cs : List Call} (h : ∀ c ∈ cs, c.writes = true) (e : Expr) (n l : Nat) :
    Call.marked n (.line l :: cs) = (ownedBy e (.line l :: cs)).map fun own => (own.2, l) :=
  marked_of_writes h e l

theorem writes_staticCalls (r : StaticRef) : ∀ c ∈ r.calls, c.writes = true := by
  unfold StaticRef.calls
  split <;> simp [Call.writes, Call.moves?]

theorem writes_dupValue (width : Nat) : (Call.dupValue width).writes = true := by
  unfold Call.dupValue
  split <;> rfl

theorem writes_ownerBelow (width : Nat) : ∀ c ∈ Call.ownerBelow width, c.writes = true := by
  unfold Call.ownerBelow
  split <;> simp [Call.writes, Call.moves?]

theorem writes_staticAssignCalls (r : StaticRef) : ∀ c ∈ r.assignCalls, c.writes = true := by
  unfold StaticRef.assignCalls
  split
  · exact List.forall_mem_cons.mpr ⟨writes_dupValue _, List.forall_mem_singleton.mpr rfl⟩
  · exact List.forall_mem_nil _

/-- **Code that reads an expression is on the line of its root**, and leaves the emitter there. -/
theorem HasType.marked_calls {e : Expr} {t : Ty} (h : HasType u bindings e t) (n : Nat) :
    Call.marked n e.calls = e.asked.map (fun own => (own.2, e.root.span.line)) ∧
      Call.lineAfter n e.calls = e.root.span.line := by
  induction h generalizing n with
  | binding _ => exact ⟨rfl, rfl⟩
  | @static r found _ _ =>
    exact ⟨marked_line_cons (writes_staticCalls r) _ n _,
      Call.lineAfter_eq_of_writes (writes_staticCalls r) _⟩
  | @qualified target field span found _ _ =>
    exact ⟨marked_line_cons (writes_staticCalls target) _ n _,
      Call.lineAfter_eq_of_writes (writes_staticCalls target) _⟩
  | @member owner t field span found _ _ ih =>
    obtain ⟨hmarked, hline⟩ := ih span.line
    have hget : ∀ c ∈ [Call.getField found.field found.ty.width], c.writes = true :=
      List.forall_mem_singleton.mpr rfl
    constructor
    · show Call.marked span.line (owner.calls ++ [.getField found.field found.ty.width]) = _
      rw [Call.marked_append, hmarked, hline,
        marked_of_writes hget (.member owner field span (some found)), asked, List.map_append]
      rfl
    · show Call.lineAfter span.line (owner.calls ++ [.getField found.field found.ty.width]) = _
      rw [Call.lineAfter_append, hline, Call.lineAfter_eq_of_writes hget]
      rfl

theorem fst_of_mem_ownedBy {e : Expr} {cs : List Call} {own : Expr × Wanted}
    (h : own ∈ e.ownedBy cs) : own.1 = e := by
  obtain ⟨c, -, hown⟩ := List.mem_flatMap.mp h
  obtain ⟨q, -, rfl⟩ := List.mem_map.mp hown
  rfl

/-- The value is repeated by one instruction. -/
theorem ownedBy_dupValue (e : Expr) (width : Nat) :
    e.ownedBy [Call.dupValue width] = [(e, .fixed (if width = 2 then .dup2 else .dup))] := by
  unfold Call.dupValue
  split <;> rfl

end Expr

/-- Instructions that are all on the line of the root get that line. -/
theorem Role.recorded_of_line {role : Role} {e : Expr}
    (h : ∀ own ∈ role.asked e, own.1.span.line = e.root.span.line) :
    role.recorded e = (role.asked e).map fun own => (own.2, e.root.span.line) := by
  cases role with
  | read => rfl
  | assign =>
    simp only [asked] at h
    simp only [recorded, asked]
    cases hasked : e.assignAsked with
    | nil => rfl
    | cons first rest =>
      rw [hasked] at h
      simp only [List.map_cons, h first List.mem_cons_self]

/-- Instructions that are all on the line of the root are on the lines of their nodes. -/
theorem Role.recorded_eq_due {role : Role} {e : Expr}
    (h : ∀ own ∈ role.asked e, own.1.span.line = e.root.span.line) :
    role.recorded e = role.due e := by
  rw [recorded_of_line h, due]
  exact List.map_congr_left fun own hown => by rw [h own hown]

namespace Expr

/-- What has one node only has one line. -/
theorem marked_assignCalls_of_root {e : Expr} {cs : List Call} (hroot : e.root = e)
    (hcalls : e.assignCalls = .line e.span.line :: cs)
    (hasked : e.assignAsked = e.ownedBy e.assignCalls)
    (hwrites : ∀ c ∈ cs, c.writes = true) (n : Nat) :
    Call.marked n e.assignCalls = Role.assign.recorded e := by
  have hline : ∀ own ∈ Role.assign.asked e, own.1.span.line = e.root.span.line := by
    intro own hown
    rw [Role.asked, hasked] at hown
    rw [fst_of_mem_ownedBy hown, hroot]
  rw [Role.recorded_of_line hline, Role.asked, hasked, hcalls, hroot]
  exact marked_line_cons hwrites e n _

/-- **Code that assigns to an expression leaves the line of the expression** when it reads an
owner. -/
theorem HasType.marked_assignCalls {e : Expr} {t : Ty} (h : HasType u bindings e t) (n : Nat) :
    Call.marked n e.assignCalls = Role.assign.recorded e := by
  cases h with
  | @binding name span b _ =>
    refine marked_assignCalls_of_root rfl rfl rfl ?_ n
    exact List.forall_mem_cons.mpr ⟨writes_dupValue _, List.forall_mem_singleton.mpr rfl⟩
  | @static r found _ _ =>
    exact marked_assignCalls_of_root rfl rfl rfl (writes_staticAssignCalls r) n
  | @qualified target field span found _ _ =>
    exact marked_assignCalls_of_root rfl rfl rfl (writes_staticAssignCalls target) n
  | @member owner t field span found howner _ =>
    have hstore : ∀ c ∈ Call.ownerBelow found.ty.width ++
        [.putField found.field found.ty.width], c.writes = true :=
      List.forall_mem_append.mpr ⟨writes_ownerBelow _, List.forall_mem_singleton.mpr rfl⟩
    have hdup : ∀ c ∈ [Call.dupValue found.ty.width], c.writes = true :=
      List.forall_mem_singleton.mpr (writes_dupValue _)
    obtain ⟨hmarked, hline⟩ := howner.marked_calls span.line
    show Call.marked span.line ([.dupValue found.ty.width] ++ (owner.calls ++
      (Call.ownerBelow found.ty.width ++ [.putField found.field found.ty.width]))) = _
    rw [Call.marked_append, Call.lineAfter_eq_of_writes hdup, Call.marked_append, hmarked, hline,
      marked_of_writes hdup (.member owner field span (some found)),
      marked_of_writes hstore (.member owner field span (some found)), ownedBy_dupValue,
      ← List.map_append]
    simp only [Role.recorded, assignAsked, ownedBy_dupValue]
    rfl

theorem HasType.marked_role {e : Expr} {t : Ty} (h : HasType u bindings e t) (role : Role)
    (n : Nat) : Call.marked n (role.calls e) = role.recorded e := by
  cases role with
  | read => exact (h.marked_calls n).1
  | assign => exact h.marked_assignCalls n

/-! ### Nodes on different lines -/

/-- Every node that has code has an instruction in the code that reads the expression. -/
theorem HasType.forall_asked {e : Expr} {t : Ty} (h : HasType u bindings e t) {P : Expr → Prop} :
    (∀ own ∈ e.asked, P own.1) ↔ ∀ n ∈ e.spine, P n := by
  induction h with
  | binding _ => simp [asked, calls, ownedBy, Call.request, Request.wanted, spine]
  | static _ hres =>
    simp [asked, calls, StaticRef.calls, hres, ownedBy, Call.request, Request.wanted, spine]
  | qualified _ hres =>
    simp [asked, calls, StaticRef.calls, hres, ownedBy, Call.request, Request.wanted, spine]
  | member _ _ ih =>
    rw [asked, List.forall_mem_append, ih, spine, List.forall_mem_cons, and_comm]
    simp [ownedBy, Call.request, Request.wanted]

/-- What holds of the node of every instruction holds of the node, if there are instructions. -/
theorem forall_mem_ownedBy {e : Expr} {cs : List Call} {P : Expr → Prop} (h : e.ownedBy cs ≠ []) :
    (∀ own ∈ e.ownedBy cs, P own.1) ↔ P e := by
  constructor
  · intro hall
    obtain ⟨own, hown⟩ := List.exists_mem_of_ne_nil _ h
    exact fst_of_mem_ownedBy hown ▸ hall own hown
  · intro he own hown
    exact fst_of_mem_ownedBy hown ▸ he

theorem map_line_eq_iff {l : List (Expr × Wanted)} {n : Nat} :
    (l.map fun own => (own.2, n)) = (l.map fun own => (own.2, own.1.span.line)) ↔
      ∀ own ∈ l, own.1.span.line = n := by
  rw [List.map_inj_left]
  simp only [Prod.mk.injEq, true_and, eq_comm]

/-- **The instructions are on the lines of their nodes exactly if all nodes are on one line.** -/
theorem HasType.recorded_eq_due_iff {e : Expr} {t : Ty} (h : HasType u bindings e t)
    (role : Role) :
    role.recorded e = role.due e ↔ ∀ n ∈ e.spine, n.span.line = e.root.span.line := by
  cases role with
  | read => exact map_line_eq_iff.trans (h.forall_asked (P := fun n => n.span.line = _))
  | assign =>
    have hone : e.root = e → e.assignAsked = e.ownedBy e.assignCalls → e.spine = [e] →
        (Role.assign.recorded e = Role.assign.due e ↔
          ∀ n ∈ e.spine, n.span.line = e.root.span.line) := by
      intro hroot hasked hspine
      rw [hspine, hroot]
      refine iff_of_true (Role.recorded_eq_due fun own hown => ?_) (by simp)
      rw [Role.asked, hasked] at hown
      rw [fst_of_mem_ownedBy hown, hroot]
    cases h with
    | binding _ => exact hone rfl rfl rfl
    | static _ _ => exact hone rfl rfl rfl
    | qualified _ _ => exact hone rfl rfl rfl
    | @member owner t field span found howner _ =>
      -- the first instruction has the line of its node in any case
      simp only [Role.recorded, Role.due, Role.asked, assignAsked, ownedBy_dupValue,
        List.singleton_append, List.map_cons, List.cons.injEq, true_and]
      rw [map_line_eq_iff, List.forall_mem_append,
        howner.forall_asked (P := fun n => n.span.line = _), spine, List.forall_mem_cons, and_comm]
      refine and_congr_left fun _ => ?_
      refine forall_mem_ownedBy (P := fun n => n.span.line = _) ?_
      simp [ownedBy, Call.request, Request.wanted]

/-- The nodes that have code are among the nodes. -/
theorem mem_nodes_of_mem_spine {e n : Expr} (h : n ∈ e.spine) : n ∈ e.nodes := by
  induction e with
  | member owner field span recorded ih =>
    rcases List.mem_cons.mp h with rfl | hn
    · exact List.mem_cons_self
    · exact List.mem_cons_of_mem _ (ih hn)
  | qualified target field span recorded =>
    obtain rfl := List.mem_singleton.mp h
    exact List.mem_cons_self
  | _ => exact h

theorem root_mem_spine (e : Expr) : e.root ∈ e.spine := by
  induction e with
  | member owner field span recorded ih => exact List.mem_cons_of_mem _ ih
  | _ => exact List.mem_singleton_self _

/-- **Code for an expression that stands for a path is on the line of the path.** -/
theorem Placed.recorded_eq_due {span : Span} {path : List String} {count : Nat} {e : Expr} {t : Ty}
    (h : Placed span path count e) (hty : HasType u bindings e t) (role : Role) :
    role.recorded e = role.due e := by
  have hline : ∀ n ∈ e.spine, n.span.line = span.line := by
    intro n hn
    obtain ⟨c, -, hplaced⟩ := h.nodes n (mem_nodes_of_mem_spine hn)
    rw [hplaced.span_eq]
    rfl
  refine (hty.recorded_eq_due_iff role).mpr fun n hn => ?_
  rw [hline n hn, hline _ e.root_mem_spine]

end Expr

/-- **The line of every byte.**  Code for a checked expression records the instructions of its nodes
in order, all of them unless the emission fails.  They have the lines of their nodes exactly if the
nodes are on one line. -/
theorem recorded_lines {u : Universe} {bindings : Bindings} {e : Expr} {ty : Ty}
    (he : Expr.Checked u bindings e ty) (role : Role) {s : Emitter} (hpool : s.pool.Made) :
    let s' := Emit.last (role.emission e s)
    (∃ (written : Chunk) (asked : List (Wanted × Nat)),
      s'.chunk.cells = s.chunk.cells ++ written.cells ∧
      List.Forall₂ (written.Holds s'.pool) asked written.instructions ∧
      Chunk.Consecutive 0 written.instructions written.size ∧
      asked <+: role.recorded e ∧
      ((∃ next, role.emission e s = .ok () next) → asked = role.recorded e)) ∧
    (role.recorded e = role.due e ↔ ∀ n ∈ e.spine, n.span.line = e.root.span.line) := by
  obtain ⟨ty', hty, -⟩ := he.hasType
  refine ⟨?_, hty.recorded_eq_due_iff role⟩
  obtain ⟨written, code, asked, hcells, hrecords, hstart, hall⟩ :=
    Emit.records_calls (role.calls e) hpool.lawful (Array.append_empty).symm
      (Chunk.Records.empty s.pool)
  obtain rfl := hrecords.instructions_eq
  rw [List.nil_append] at hrecords
  rw [hty.marked_role] at hstart hall
  rw [hty.emission_eq_calls role]
  exact ⟨written, asked, hcells, hrecords.holds, hrecords.consecutive, hstart, hall⟩

namespace LinkedList

/-- The count of the binding, written on the line below it. -/
def countBelow : Expr :=
  .member (.binding "n" ⟨1, 1, 1⟩ (.object nodeType) (some 0)) "count" ⟨2, 1, 7⟩
    (some ⟨countField, .primitive .long⟩)

/-- `GET_LOCAL 0`. -/
def localCode : Chunk := ⟨#[⟨9, 1⟩, ⟨0, 1⟩]⟩

/-- The same with `GET_FIELD 0`. -/
def countBelowCode : Chunk := (localCode.writeOp .getField 1).writeWord 0 1

/-- What reading the count asks for. -/
def countWanted : List Wanted :=
  [⟨.getLocal, .getLocalWide, .slot 0⟩, .field .getField countField]

theorem checked_countBelow :
    Expr.Checked table.toUniverse bindings countBelow (.primitive .long) := by
  refine ⟨.ofOwner (.ofName "n" ⟨1, 1, 1⟩) "count" ⟨2, 1, 7⟩,
    .ofOwner (.binding "n" ⟨1, 1, 1⟩ (.object nodeType) (some 0)) "count" ⟨2, 1, 7⟩, .undefined,
    .ofOwner _ _ (.ofName _ _), ?_, by rfl⟩
  rw [Expr.ofName, Expr.ofOwner, Expr.bind, Expr.bind, lookup_eq, if_pos rfl]
  rfl

theorem compile_countBelow : ∃ pool,
    countBelow.compile (.new .empty) = .ok () ⟨countBelowCode, pool, ⟨2, 2⟩, 1⟩ := by
  obtain ⟨pool, hpool⟩ : ∃ pool,
      ConstantPool.empty.add (Emit.fieldConstant countField) = (0, pool) := by
    simp [ConstantPool.add, ConstantPool.empty, ConstantPool.size]
  have hget : Emit.getField countField 2 ⟨localCode, .empty, ⟨1, 1⟩, 1⟩ =
      .ok () ⟨countBelowCode, pool, ⟨2, 2⟩, 1⟩ := by
    rw [Emit.getField, Emit.onField, Emit.bind_of_ok (Emit.intern_eq _ _), hpool]
    rfl
  refine ⟨pool, ?_⟩
  show (Emit.getField countField 2 >>= fun _ => Emit.verify 0 (Emit.slots 2) "field read")
    ⟨localCode, .empty, ⟨1, 1⟩, 1⟩ = _
  rw [Emit.bind_of_ok hget]
  rfl

end LinkedList

open LinkedList in
/-- The count that is written below its node is read on the line of the node. -/
theorem recorded_lines_linkedList : ∃ s',
    countBelow.compile (.new .empty) = .ok () s' ∧
      List.Forall₂ (s'.chunk.Holds s'.pool) (countWanted.map fun q => (q, 1))
        s'.chunk.instructions := by
  obtain ⟨pool, hrun⟩ := compile_countBelow
  obtain ⟨⟨written, asked, hcells, hholds, -, -, hall⟩, -⟩ :=
    recorded_lines checked_countBelow .read (s := .new .empty) .empty
  obtain rfl := hall ⟨_, hrun⟩
  simp only [Role.emission, hrun] at hcells hholds
  obtain rfl : written = countBelowCode := by
    rw [Chunk.mk.injEq]
    exact Array.empty_append.symm.trans hcells.symm
  exact ⟨_, hrun, hholds⟩

open LinkedList in
/-- It is not on its own line, which is the second. -/
theorem getField_countBelow_off_line : ∃ s',
    countBelow.compile (.new .empty) = .ok () s' ∧
      Role.read.due countBelow =
        [(⟨.getLocal, .getLocalWide, .slot 0⟩, 1), (.field .getField countField, 2)] ∧
      s'.chunk.instructions = [(0, .getLocal), (2, .getField)] ∧ s'.chunk.line? 2 = some 1 ∧
      ¬ List.Forall₂ (s'.chunk.Holds s'.pool) (Role.read.due countBelow)
        s'.chunk.instructions := by
  obtain ⟨pool, hrun⟩ := compile_countBelow
  refine ⟨_, hrun, rfl, rfl, rfl, fun h => ?_⟩
  obtain ⟨-, htail⟩ := List.forall₂_cons.mp h
  obtain ⟨hget, -⟩ := List.forall₂_cons.mp htail
  have hline : countBelowCode.line? 2 = some 2 := hget.line 0 (Nat.zero_le _)
  exact absurd hline (by decide)

end FieldPath
