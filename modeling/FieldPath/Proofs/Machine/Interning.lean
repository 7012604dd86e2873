import FieldPath.Proofs.Machine.Calls
import FieldPath.Proofs.Machine.Linking
import Mathlib.Data.Finset.Card

/-!
# Interned constants

The constants of a pool are numbered by the calls that add them.  A call with a new constant answers
how many different constants there were before it, and a call with a constant that was added already
answers the index that was answered then.  So the indices are dense, in the order of first calls,
and two calls answer the same index exactly if their constants are the same.

Code refers to a field through such an index.  The three texts of a reference tell the declaring
class, the name and the class of the values, as long as no class name has a slash in it: then two
accesses have the same index exactly if all three are the same.

## Main definitions

* `Addition`, `ConstantPool.runs` — calls on a pool, one after the other.
* `ConstantPool.Interned` — how additions to an empty pool number the constants.
* `Field.Slashless` — no class that a field names has a slash in its name.
* `Call.usedIndex?` — the index through which an emitted access refers to its field.

## Main results

* `ConstantPool.interned_runs` — **indices are dense, in the order of first calls.**
* `Emit.fieldConstant_eq_iff` — **a reference tells its field**, up to the flags.
* `Call.access_eq` — an access uses the index of the reference of its field.
* `constants_interned` — **the indices of constants, and of accesses to fields.**
-/

namespace FieldPath

/-! ### Calls on a pool -/

/-- A call that adds to a pool. -/
inductive Addition where
  /-- A constant of any form is added. -/
  | constant (c : Constant)
  /-- A reference to a field is added, by its three texts. -/
  | fieldRef (owner name descriptor : String)

namespace Addition

/-- What the call answers, and the pool after it. -/
def run (p : ConstantPool) : Addition → Nat × ConstantPool
  | constant c => p.add c
  | fieldRef owner name descriptor => p.addFieldRef owner name descriptor

/-- The constant that the call adds. -/
def added : Addition → Constant
  | constant c => c
  | fieldRef owner name descriptor => .fieldRef owner name descriptor

theorem run_eq (p : ConstantPool) (a : Addition) : a.run p = p.add a.added := by
  cases a <;> rfl

end Addition

namespace ConstantPool

/-- What the calls answer, one after the other, and the pool after them. -/
def runs (p : ConstantPool) : List Addition → List Nat × ConstantPool
  | [] => ([], p)
  | a :: rest => ((a.run p).1 :: ((a.run p).2.runs rest).1, ((a.run p).2.runs rest).2)

variable {p : ConstantPool}

theorem runs_eq_addAll (p : ConstantPool) (calls : List Addition) :
    p.runs calls = p.addAll (calls.map Addition.added) := by
  induction calls generalizing p with
  | nil => rfl
  | cons a rest ih => simp only [runs, List.map_cons, addAll, Addition.run_eq, ih]

/-! ### Several constants -/

theorem addAll_append (p : ConstantPool) (cs ds : List Constant) :
    p.addAll (cs ++ ds) =
      ((p.addAll cs).1 ++ ((p.addAll cs).2.addAll ds).1, ((p.addAll cs).2.addAll ds).2) := by
  induction cs generalizing p with
  | nil => rfl
  | cons c cs ih => simp only [List.cons_append, addAll, ih]

theorem length_addAll (p : ConstantPool) (cs : List Constant) :
    (p.addAll cs).1.length = cs.length := by
  induction cs generalizing p with
  | nil => rfl
  | cons c cs ih => simp only [addAll, List.length_cons, ih]

theorem grows_addAll (p : ConstantPool) (cs : List Constant) : p.Grows (p.addAll cs).2 := by
  induction cs generalizing p with
  | nil => exact .refl
  | cons c cs ih => exact (Grows.refl.add c).trans (ih _)

/-- Each index denotes its constant after all additions. -/
theorem Lawful.get?_addAll (hp : p.Lawful) {cs : List Constant} {k i : Nat} {c : Constant}
    (hc : cs[k]? = some c) (hi : (p.addAll cs).1[k]? = some i) :
    (p.addAll cs).2.get? i = some c := by
  induction cs generalizing p k with
  | nil => simp at hc
  | cons d cs ih =>
    cases k with
    | zero =>
      obtain rfl := Option.some.inj hc
      obtain rfl := Option.some.inj hi
      exact (grows_addAll _ cs).within _ _ (get?_add hp d)
    | succ k => exact ih (hp.add d) hc hi

theorem Lawful.has_addAll (hp : p.Lawful) {cs : List Constant} {c : Constant} :
    (p.addAll cs).2.Has c ↔ p.Has c ∨ c ∈ cs := by
  induction cs generalizing p with
  | nil => simp [addAll]
  | cons d cs ih =>
    show ((p.add d).2.addAll cs).2.Has c ↔ _
    rw [ih (hp.add d), hp.has_add, List.mem_cons, or_assoc]

theorem lawful_addAll_empty (cs : List Constant) : (empty.addAll cs).2.Lawful :=
  (grows_addAll empty cs).lawful lawful_empty

theorem has_addAll_empty {cs : List Constant} {c : Constant} :
    (empty.addAll cs).2.Has c ↔ c ∈ cs := by
  rw [lawful_empty.has_addAll]
  simp [Has, empty, get?]

/-- There are as many constants as different ones were added. -/
theorem size_addAll_empty (cs : List Constant) :
    (empty.addAll cs).2.size = cs.toFinset.card := by
  have hsame : (empty.addAll cs).2.constants.toList.toFinset = cs.toFinset := by
    ext c
    rw [List.mem_toFinset, List.mem_toFinset, ← has_iff_mem, has_addAll_empty]
  rw [← hsame, List.toFinset_card_of_nodup (lawful_addAll_empty cs).nodup_constants]
  exact Array.length_toList.symm

/-! ### The numbering -/

/-- How constants that were added to an empty pool are numbered, one after the other. -/
structure Interned (added : List Constant) (indices : List Nat) (pool : ConstantPool) : Prop where
  /-- Every addition answers an index. -/
  length_eq : indices.length = added.length
  /-- The index of an addition denotes its constant. -/
  denotes : ∀ {k i : Nat} {c : Constant}, added[k]? = some c → indices[k]? = some i →
    pool.get? i = some c
  /-- Two additions answer the same index exactly if their constants are the same. -/
  same : ∀ {j k m n : Nat} {c d : Constant}, added[j]? = some c → added[k]? = some d →
    indices[j]? = some m → indices[k]? = some n → (m = n ↔ c = d)
  /-- The first addition of a constant answers how many different ones there were before. -/
  first : ∀ {k i : Nat} {c : Constant}, added[k]? = some c → indices[k]? = some i →
    c ∉ added.take k → i = (added.take k).toFinset.card
  /-- The indices are those below the number of constants. -/
  dense : ∀ i, i ∈ indices ↔ i < pool.size
  /-- There are as many constants as different ones were added. -/
  size_eq : pool.size = added.toFinset.card

variable {cs : List Constant} {c d : Constant} {i j k : Nat}

/-- Additions denote the same constant exactly if they answer the same index. -/
theorem addAll_same {m n : Nat} (hc : cs[j]? = some c) (hd : cs[k]? = some d)
    (hm : (empty.addAll cs).1[j]? = some m) (hn : (empty.addAll cs).1[k]? = some n) :
    m = n ↔ c = d := by
  have hmc := lawful_empty.get?_addAll hc hm
  have hnd := lawful_empty.get?_addAll hd hn
  constructor
  · rintro rfl
    exact Option.some.inj (hmc.symm.trans hnd)
  · rintro rfl
    exact (lawful_addAll_empty cs).eq_of_get? hmc hnd

/-- A new constant is numbered by the different constants before it. -/
theorem addAll_first (hc : cs[k]? = some c) (hi : (empty.addAll cs).1[k]? = some i)
    (hnew : c ∉ cs.take k) : i = (cs.take k).toFinset.card := by
  obtain ⟨hk, rfl⟩ := List.getElem?_eq_some_iff.mp hc
  have hbefore : (empty.addAll (cs.take k)).1.length = k := by
    rw [length_addAll, List.length_take_of_le hk.le]
  have hlast : ((empty.addAll (cs.take k)).2.add cs[k]).1 = (empty.addAll (cs.take k)).2.size :=
    ((lawful_addAll_empty _).add_of_new fun i hi => hnew (has_addAll_empty.mp ⟨i, hi⟩)).1
  -- the addition at `k` comes right after the ones before it
  have hsplit : cs = cs.take k ++ cs[k] :: cs.drop (k + 1) := by
    rw [← List.drop_eq_getElem_cons hk, List.take_append_drop]
  have hat : (empty.addAll cs).1[k]? = some ((empty.addAll (cs.take k)).2.add cs[k]).1 := by
    conv_lhs => rw [hsplit, addAll_append]
    rw [List.getElem?_append_right hbefore.le, hbefore, Nat.sub_self]
    rfl
  rw [hat, hlast, size_addAll_empty] at hi
  exact (Option.some.inj hi).symm

/-- The indices are those below the number of constants. -/
theorem mem_addAll : i ∈ (empty.addAll cs).1 ↔ i < (empty.addAll cs).2.size := by
  constructor
  · intro hi
    obtain ⟨k, hk⟩ := List.mem_iff_getElem?.mp hi
    have hlt := (List.getElem?_eq_some_iff.mp hk).1
    rw [length_addAll] at hlt
    exact lt_size_of_get? (lawful_empty.get?_addAll (List.getElem?_eq_getElem hlt) hk)
  · -- the constant at the index was added at some time, and got the index then
    intro hi
    obtain ⟨c, hc⟩ := exists_get?_of_lt_size hi
    obtain ⟨k, hk⟩ := List.mem_iff_getElem?.mp (has_addAll_empty.mp ⟨i, hc⟩)
    have hlt : k < (empty.addAll cs).1.length := by
      rw [length_addAll]
      exact (List.getElem?_eq_some_iff.mp hk).1
    have hat := List.getElem?_eq_getElem hlt
    rw [(lawful_addAll_empty cs).eq_of_get? hc (lawful_empty.get?_addAll hk hat)]
    exact List.mem_of_getElem? hat

/-- **Indices are dense, in the order of first calls.** -/
theorem interned_runs (calls : List Addition) :
    Interned (calls.map Addition.added) (empty.runs calls).1 (empty.runs calls).2 := by
  rw [runs_eq_addAll]
  exact {
    length_eq := length_addAll _ _
    denotes := lawful_empty.get?_addAll
    same := addAll_same
    first := addAll_first
    dense := fun _ => mem_addAll
    size_eq := size_addAll_empty _ }

/-- Later calls leave the indices as they are, and what they denote. -/
theorem runs_append (calls later : List Addition) :
    (empty.runs calls).1 <+: (empty.runs (calls ++ later)).1 ∧
      (empty.runs calls).2.Within (empty.runs (calls ++ later)).2 := by
  rw [runs_eq_addAll, runs_eq_addAll, List.map_append, addAll_append]
  exact ⟨List.prefix_append _ _, (grows_addAll _ _).within⟩

/-- A constant that is added to a pool, and one that is added when the pool has grown, have the same
index exactly if they are the same. -/
theorem Lawful.add_eq_add_iff {q : ConstantPool} (hp : p.Lawful)
    (hgrows : (p.add c).2.Grows q) : (p.add c).1 = (q.add d).1 ↔ c = d := by
  have hq : q.Lawful := hgrows.lawful (hp.add c)
  have hc : q.get? (p.add c).1 = some c := hgrows.within _ _ (get?_add hp c)
  constructor
  · intro heq
    have hd := get?_add hq d
    rw [← heq, within_add q d _ _ hc] at hd
    exact Option.some.inj hd
  · rintro rfl
    rw [hq.add_of_get? hc]

end ConstantPool

/-! ### References to fields -/

/-- The class of the values, where it has a name, has no slash in it. -/
def ValueClass.Slashless : ValueClass → Prop
  | named n => n.Slashless
  | _ => True

/-- No class that the field names has a slash in its name. -/
structure Field.Slashless (f : Field) : Prop where
  /-- The declaring class has none. -/
  declaring : f.declaring.Slashless
  /-- The class of the values has none. -/
  valueClass : f.valueClass.Slashless

theorem Kind.descriptor_injective : Function.Injective Kind.descriptor := by
  intro k l h
  cases k <;> cases l <;> first | rfl | exact absurd h (by decide)

theorem Kind.descriptor_ne_void (k : Kind) : k.descriptor ≠ 'V' := by cases k <;> decide

/-- Without slashes, the descriptor tells the class of the values. -/
theorem ValueClass.eq_of_descriptor_eq {a b : ValueClass} (ha : a.Slashless) (hb : b.Slashless)
    (h : a.descriptor = b.descriptor) : a = b := by
  have hlist := congrArg String.toList h
  cases a with
  | void =>
    cases b with
    | void => rfl
    | primitive k =>
      simp only [descriptor, String.toList_singleton] at hlist
      exact absurd (List.head_eq_of_cons_eq hlist).symm k.descriptor_ne_void
    | named n => simp [descriptor] at hlist
  | primitive k =>
    cases b with
    | void =>
      simp only [descriptor, String.toList_singleton] at hlist
      exact absurd (List.head_eq_of_cons_eq hlist) k.descriptor_ne_void
    | primitive l =>
      simp only [descriptor, String.toList_singleton] at hlist
      rw [Kind.descriptor_injective (List.head_eq_of_cons_eq hlist)]
    | named n => simp [descriptor] at hlist
  | named n =>
    cases b with
    | void => simp [descriptor] at hlist
    | primitive l => simp [descriptor] at hlist
    | named m =>
      have hinternal : n.internal = m.internal := by
        simpa [descriptor, ← String.toList_inj] using hlist
      rw [ClassName.eq_of_internal_eq ha hb hinternal]

namespace Emit

/-- **A reference tells its field**, up to the flags. -/
theorem fieldConstant_eq_iff {f g : Field} (hf : f.Slashless) (hg : g.Slashless) :
    fieldConstant f = fieldConstant g ↔
      f.declaring = g.declaring ∧ f.name = g.name ∧ f.valueClass = g.valueClass := by
  rw [fieldConstant, fieldConstant, Constant.fieldRef.injEq]
  constructor
  · rintro ⟨hdeclaring, hname, hvalue⟩
    exact ⟨ClassName.eq_of_internal_eq hf.declaring hg.declaring hdeclaring, hname,
      ValueClass.eq_of_descriptor_eq hf.valueClass hg.valueClass hvalue⟩
  · rintro ⟨hdeclaring, hname, hvalue⟩
    rw [hdeclaring, hname, hvalue]
    exact ⟨rfl, rfl, rfl⟩

end Emit

/-! ### Accesses -/

/-- The index that a call uses: the operand of the instruction that it writes, or the index that it
fails for because it does not fit into an operand. -/
def Call.usedIndex? (c : Call) (s : Emitter) : Option Nat :=
  match c.emit s with
  | .ok () s' => (s'.chunk.op? s.chunk.size).bind (s'.chunk.operand? s.chunk.size)
  | .error (.operandOverflow _ index) _ => some index
  | .error _ _ => none

theorem Chunk.op?_addInstr_self {c : Chunk} {op : Opcode} {operand : Operand} {line : Nat} :
    (c.addInstr op operand line).op? c.size = some op := by
  rw [op?, byte?_eq, code_addInstr, List.getElem?_append_right (by rw [length_code]), length_code,
    Nat.sub_self, List.getElem?_cons_zero, Option.bind_some, Opcode.ofByte?_toByte]

/-- **An access to a field** adds the reference of the field, and uses its index. -/
theorem Call.access_eq {c : Call} {f : Field} (hf : c.field? = some f) (s : Emitter) :
    c.usedIndex? s = some (s.pool.add (Emit.fieldConstant f)).1 ∧
      (Emit.last (c.emit s)).pool = (s.pool.add (Emit.fieldConstant f)).2 := by
  have hall : ∃ op effect, op.operandSize = 2 ∧ c.emit = Emit.onField op f effect := by
    cases c with
    | line n => simp [field?] at hf
    | fixed op taken put hop => simp [field?] at hf
    | getLocal slot width => simp [field?] at hf
    | setLocal slot width => simp [field?] at hf
    | _ =>
      obtain rfl := Option.some.inj hf
      exact ⟨_, _, rfl, rfl⟩
  obtain ⟨op, effect, hsize, hemit⟩ := hall
  rw [usedIndex?, hemit, Emit.onField_eq]
  by_cases hlt : (s.pool.add (Emit.fieldConstant f)).1 < 65536
  · rw [if_pos hlt]
    refine ⟨?_, rfl⟩
    generalize (s.pool.add (Emit.fieldConstant f)).1 = index at hlt ⊢
    have hbytes : (Operand.word (UInt16.ofNat index)).bytes.length = op.operandSize := hsize.symm
    have hnumber : (Operand.word (UInt16.ofNat index)).number? = some index := by
      simpa [Operand.number?] using Nat.mod_eq_of_lt hlt
    simp only [Emit.chunk_write]
    rw [Chunk.op?_addInstr_self, Option.bind_some, Chunk.operand?_addInstr_self hbytes, hnumber]
  · rw [if_neg hlt]
    exact ⟨rfl, rfl⟩

/-- **The indices of constants, and of accesses to fields.**  Calls on an empty pool number the
constants without gaps, in the order of the first call with each, and later calls leave the numbers
as they are.  An access to a field uses the index that stands for its reference from then on; an
access to another field, however many constants were added in between, uses the same index exactly
if declaring class, name and class of the values are the same. -/
theorem constants_interned (calls : List Addition) :
    ConstantPool.Interned (calls.map Addition.added) (ConstantPool.empty.runs calls).1
        (ConstantPool.empty.runs calls).2 ∧
      (∀ later : List Addition,
        (ConstantPool.empty.runs calls).1 <+: (ConstantPool.empty.runs (calls ++ later)).1 ∧
          (ConstantPool.empty.runs calls).2.Within
            (ConstantPool.empty.runs (calls ++ later)).2) ∧
      (∀ {c d : Call} {f g : Field} {s t : Emitter}, c.field? = some f → d.field? = some g →
        f.Slashless → g.Slashless → s.pool = (ConstantPool.empty.runs calls).2 →
        (Emit.last (c.emit s)).pool.Grows t.pool →
        ∃ i j, c.usedIndex? s = some i ∧ d.usedIndex? t = some j ∧
          t.pool.get? i = some (Emit.fieldConstant f) ∧
          (i = j ↔ f.declaring = g.declaring ∧ f.name = g.name ∧ f.valueClass = g.valueClass)) := by
  refine ⟨ConstantPool.interned_runs calls, ConstantPool.runs_append calls, ?_⟩
  intro c d f g s t hf hg hfs hgs hpool hgrows
  have hlawful : s.pool.Lawful := by
    rw [hpool, ConstantPool.runs_eq_addAll]
    exact ConstantPool.lawful_addAll_empty _
  obtain ⟨hc, hlast⟩ := c.access_eq hf s
  rw [hlast] at hgrows
  refine ⟨_, _, hc, (d.access_eq hg t).1, ?_, ?_⟩
  · exact hgrows.within _ _ (ConstantPool.get?_add hlawful _)
  · rw [hlawful.add_eq_add_iff hgrows, Emit.fieldConstant_eq_iff hfs hgs]

namespace Counter

/-- The two zeros, and the first one again. -/
def zeros : List Addition :=
  [.constant (.double 0), .constant (.double 0x8000000000000000), .constant (.double 0)]

/-- A field of a class of counters. -/
def count : Field := .instanceField ⟨"a.Counter"⟩ "count" (.primitive .long)

/-- Another field of the class. -/
def total : Field := .instanceField ⟨"a.Counter"⟩ "total" (.primitive .long)

theorem slashless : (⟨"a.Counter"⟩ : ClassName).Slashless := by
  rw [ClassName.Slashless]
  decide

/-- An emitter behind the two zeros. -/
def start : Emitter := .new (ConstantPool.empty.runs zeros).2

/-- The first field is read. -/
def read : Call := .getField count 2

/-- The second field is written. -/
def write : Call := .putField total 2

end Counter

/-- The two zeros have the first two indices, and two fields of a class have two others. -/
theorem constants_interned_counter :
    (ConstantPool.empty.runs Counter.zeros).1 = [0, 1, 0] ∧
      ∃ i j, Counter.read.usedIndex? Counter.start = some i ∧
        Counter.write.usedIndex? (Emit.last (Counter.read.emit Counter.start)) = some j ∧
        i ≠ j := by
  refine ⟨by simp [ConstantPool.runs, Counter.zeros, Addition.run, ConstantPool.add,
    ConstantPool.empty, ConstantPool.size, Std.HashMap.getElem_insert], ?_⟩
  have hcount : Counter.count.Slashless := ⟨Counter.slashless, trivial⟩
  have htotal : Counter.total.Slashless := ⟨Counter.slashless, trivial⟩
  have hpool : Counter.start.pool = (ConstantPool.empty.runs Counter.zeros).2 := rfl
  obtain ⟨i, j, hi, hj, -, hsame⟩ := (constants_interned Counter.zeros).2.2
    (show Counter.read.field? = some Counter.count from rfl)
    (show Counter.write.field? = some Counter.total from rfl) hcount htotal hpool .refl
  exact ⟨i, j, hi, hj, fun heq => absurd (hsame.mp heq).2.1 (by decide)⟩

end FieldPath
