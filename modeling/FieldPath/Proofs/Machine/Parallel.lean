import FieldPath.Machine.Compile
import FieldPath.Proofs.Machine.Decoding
import FieldPath.Proofs.Machine.Meaning
import FieldPath.Proofs.Outcome

/-!
# The same emission over two pools

What an emission does over one pool is compared with what it does over another.  A comparison says
how the pools are related and how chunks over them are, and comes with what single instructions
need: an instruction with a fixed operand can be added to both chunks, and so can one that refers to
a field, whose reference is then added to both pools.  From these the emission of every expression
ends alike over both pools: with related chunks, or with the same error.

An index has to fit into an operand, and an emission may fail over one pool because of constants
that the other does not have.  So a comparison is only about emissions that reach a pool which fits.

## Main definitions

* `Comparison` — how pools and chunks are related.
* `Comparison.Emitters`, `Comparison.Results` — the same for the states of emissions and their ends.
* `Emit.Parallel` — an emission ends alike over related pools.
* `Comparison.Runs` — the same for a computation that leaves a pool.
* `Comparison.onTheWay` — pools with the same places, and the same chunks.
* `Comparison.upToIndices` — pools with the same constants, and the same code up to their places.

## Main results

* `Emit.Parallel.bind` — sequences of emissions.
* `Expr.parallel_compile`, `Expr.parallel_compileAssign` — **the code of every expression.**
* `Comparison.runs_chunkOf` — **the chunk of an emission that ends alike.**
-/

namespace FieldPath

/-- How two pools are related, and chunks over them.  Only emissions are compared that reach a
pool which `Fits` in the first run. -/
structure Comparison where
  /-- The pools that the first run may reach. -/
  Fits : ConstantPool → Prop
  /-- How the pools are related. -/
  Pools : ConstantPool → ConstantPool → Prop
  /-- How the chunks are related. -/
  Chunks : ConstantPool → ConstantPool → Chunk → Chunk → Prop
  /-- A pool fits if one does that it is within. -/
  fits_of_within : ∀ {p q}, p.Within q → Fits q → Fits p
  /-- No code is related to no code. -/
  empty : ∀ p q, Chunks p q .empty .empty
  /-- Chunks stay related when the pools grow. -/
  mono : ∀ {p p' q q' c d}, Chunks p q c d → p.Within p' → q.Within q' → Chunks p' q' c d
  /-- An instruction that refers to no constant can be added to both chunks. -/
  plain : ∀ {p q c d op operand} line, Chunks p q c d →
    operand.bytes.length = Opcode.operandSize op → op.isField = false →
    Chunks p q (c.addInstr op operand line) (d.addInstr op operand line)
  /-- A field reference can be added to both pools. -/
  intern : ∀ {p q} f, Pools p q → Fits (p.add (Emit.fieldConstant f)).2 →
    Pools (p.add (Emit.fieldConstant f)).2 (q.add (Emit.fieldConstant f)).2
  /-- The reference has the same index in both pools, or indices that are not too great. -/
  index : ∀ {p q} f, Pools p q → Fits (p.add (Emit.fieldConstant f)).2 →
    (p.add (Emit.fieldConstant f)).1 = (q.add (Emit.fieldConstant f)).1 ∨
      (p.add (Emit.fieldConstant f)).1 < 65536 ∧ (q.add (Emit.fieldConstant f)).1 < 65536
  /-- An instruction on a field can be added to both chunks. -/
  field : ∀ {p q c d op} f line, Pools p q → Fits (p.add (Emit.fieldConstant f)).2 →
    Chunks p q c d → op.operandSize = 2 → op.isField = true →
    (p.add (Emit.fieldConstant f)).1 < 65536 → (q.add (Emit.fieldConstant f)).1 < 65536 →
    Chunks (p.add (Emit.fieldConstant f)).2 (q.add (Emit.fieldConstant f)).2
      (c.addInstr op (.word (UInt16.ofNat (p.add (Emit.fieldConstant f)).1)) line)
      (d.addInstr op (.word (UInt16.ofNat (q.add (Emit.fieldConstant f)).1)) line)

variable {ρ : Comparison} {α β : Type}

/-! ### States and ends -/

namespace Comparison

/-- Two emitters have related pools and chunks, and agree otherwise. -/
structure Emitters (ρ : Comparison) (e₁ e₂ : Emitter) : Prop where
  /-- The pools are related. -/
  pools : ρ.Pools e₁.pool e₂.pool
  /-- The chunks are related. -/
  chunks : ρ.Chunks e₁.pool e₂.pool e₁.chunk e₂.chunk
  /-- The heights are the same. -/
  height : e₁.height = e₂.height
  /-- The lines are the same. -/
  line : e₁.line = e₂.line

/-- Both emissions succeed with the same value, or both fail with the same error. -/
inductive Results (ρ : Comparison) :
    EStateM.Result CodegenError Emitter α → EStateM.Result CodegenError Emitter α → Prop
  /-- Both succeed. -/
  | ok {a : α} {e₁ e₂ : Emitter} : ρ.Emitters e₁ e₂ → Results ρ (.ok a e₁) (.ok a e₂)
  /-- Both fail. -/
  | error {err : CodegenError} {e₁ e₂ : Emitter} :
      ρ.Emitters e₁ e₂ → Results ρ (.error err e₁) (.error err e₂)

end Comparison

namespace Emit

/-- The emitter at the end of an emission. -/
def last : EStateM.Result CodegenError Emitter α → Emitter
  | .ok _ e => e
  | .error _ e => e

/-- The emission only adds to the pool, and ends alike over related pools. -/
structure Parallel (ρ : Comparison) (x : Emit α) : Prop where
  /-- The pool grows. -/
  grows : ∀ e : Emitter, e.pool.Grows (last (x e)).pool
  /-- The ends are related. -/
  results : ∀ e₁ e₂, ρ.Emitters e₁ e₂ → ρ.Fits (last (x e₁)).pool → ρ.Results (x e₁) (x e₂)

/-! ### Sequences -/

/-- **Sequences of emissions.**  The first part reaches only pools that fit, because the second one
adds to them. -/
theorem Parallel.bind {x : Emit α} {f : α → Emit β} (hx : Parallel ρ x)
    (hf : ∀ a, Parallel ρ (f a)) : Parallel ρ (x >>= f) := by
  have hrun : ∀ e, (x >>= f) e = match x e with
      | .ok a e => f a e
      | .error err e => .error err e := by
    intro e
    show EStateM.bind x f e = _
    rw [EStateM.bind]
    cases x e <;> rfl
  constructor
  · intro e
    rw [hrun]
    have hgrows := hx.grows e
    cases hxe : x e with
    | ok a next =>
      rw [hxe] at hgrows
      exact hgrows.trans ((hf a).grows next)
    | error err next =>
      rw [hxe] at hgrows
      exact hgrows
  · intro e₁ e₂ he hfits
    rw [hrun] at hfits
    have hfirst : ρ.Fits (last (x e₁)).pool := by
      cases hxe : x e₁ with
      | ok a next =>
        rw [hxe] at hfits
        exact ρ.fits_of_within ((hf a).grows next).within hfits
      | error err next =>
        rw [hxe] at hfits
        exact hfits
    have hresults := hx.results e₁ e₂ he hfirst
    rw [hrun, hrun]
    generalize x e₁ = r₁ at hresults hfits
    generalize x e₂ = r₂ at hresults
    cases hresults with
    | ok hnext => exact (hf _).results _ _ hnext hfits
    | error hnext => exact .error hnext

theorem parallel_of_state {x : Emit Unit} {g : Emitter → Emitter} (hx : ∀ e, x e = .ok () (g e))
    (hgrows : ∀ e : Emitter, e.pool.Grows (g e).pool)
    (hg : ∀ e₁ e₂, ρ.Emitters e₁ e₂ → ρ.Emitters (g e₁) (g e₂)) : Parallel ρ x := by
  refine ⟨fun e => by rw [hx]; exact hgrows e, fun e₁ e₂ he _ => ?_⟩
  rw [hx, hx]
  exact .ok (hg e₁ e₂ he)

theorem parallel_throw (err : CodegenError) : Parallel ρ (throw err : Emit α) :=
  ⟨fun _ => .refl, fun _ _ he _ => .error he⟩

theorem parallel_pure (a : α) : Parallel ρ (pure a : Emit α) :=
  ⟨fun _ => .refl, fun _ _ he _ => .ok he⟩

theorem parallel_setLine (line : Nat) : Parallel ρ (setLine line) :=
  parallel_of_state (fun _ => rfl) (fun _ => .refl) fun _ _ he =>
    ⟨he.pools, he.chunks, he.height, rfl⟩

theorem parallel_mark : Parallel ρ mark := by
  refine ⟨fun _ => .refl, fun e₁ e₂ he _ => ?_⟩
  show ρ.Results (.ok e₁.height e₁) (.ok e₂.height e₂)
  rw [he.height]
  exact .ok he

theorem verify_eq (start delta : Int) (context : String) (e : Emitter) :
    verify start delta context e = if e.height = signed32 (start + delta) then .ok () e
      else .error (.stackHeight context (signed32 (start + delta)) e.height) e := by
  show (if e.height = signed32 (start + delta) then (pure () : Emit Unit)
    else throw (.stackHeight context (signed32 (start + delta)) e.height)) e = _
  split <;> rfl

theorem parallel_verify (start delta : Int) (context : String) :
    Parallel ρ (verify start delta context) := by
  constructor
  · intro e
    rw [verify_eq]
    split <;> exact .refl
  · intro e₁ e₂ he _
    rw [verify_eq, verify_eq, he.height]
    split
    · exact .ok he
    · exact .error he

/-! ### Instructions -/

theorem chunk_write (e : Emitter) (op : Opcode) (operand : Operand) (effect : Int) :
    (e.write op operand effect).chunk = e.chunk.addInstr op operand e.line := by
  cases operand <;> rfl

theorem parallel_write {op : Opcode} {operand : Operand}
    (hsize : operand.bytes.length = op.operandSize) (hop : op.isField = false) (effect : Int) :
    Parallel ρ (write op operand effect) := by
  refine parallel_of_state (fun _ => rfl) (fun _ => .refl) fun e₁ e₂ he =>
    ⟨he.pools, ?_, ?_, he.line⟩
  · rw [chunk_write, chunk_write, he.line]
    exact ρ.plain _ he.chunks hsize hop
  · rw [Emitter.height_write, Emitter.height_write, he.height]

theorem parallel_wordOf (role : OperandRole) (index : Nat) : Parallel ρ (wordOf role index) := by
  unfold wordOf
  split
  · exact parallel_pure _
  · exact parallel_throw _

theorem parallel_indexed {short wide : Opcode} (hshort : short.operandSize = 1)
    (hwide : wide.operandSize = 2) (hshortField : short.isField = false)
    (hwideField : wide.isField = false) (role : OperandRole) (index : Nat) (effect : Int) :
    Parallel ρ (indexed short wide role index effect) := by
  have hbyte : (Operand.byte (UInt8.ofNat index)).bytes.length = short.operandSize := hshort.symm
  have hword : ∀ w, (Operand.word w).bytes.length = wide.operandSize := fun _ => hwide.symm
  unfold indexed
  split
  · exact parallel_write hbyte hshortField _
  · exact (parallel_wordOf role index).bind fun w => parallel_write (hword w) hwideField _

theorem onField_eq (op : Opcode) (f : Field) (effect : Int) (e : Emitter) :
    onField op f effect e =
      if (e.pool.add (fieldConstant f)).1 < 65536 then
        .ok () (Emitter.write { e with pool := (e.pool.add (fieldConstant f)).2 } op
          (.word (UInt16.ofNat (e.pool.add (fieldConstant f)).1)) effect)
      else .error (.operandOverflow .fieldReference (e.pool.add (fieldConstant f)).1)
        { e with pool := (e.pool.add (fieldConstant f)).2 } := by
  rw [onField, bind_of_ok (intern_eq _ _), wordOf]
  split <;> rfl

/-- **An instruction on a field** adds the reference of the field to both pools. -/
theorem parallel_onField {op : Opcode} (hsize : op.operandSize = 2) (hop : op.isField = true)
    (f : Field) (effect : Int) : Parallel ρ (onField op f effect) := by
  have hlast : ∀ e, (last (onField op f effect e)).pool = (e.pool.add (fieldConstant f)).2 := by
    intro e
    rw [onField_eq]
    split <;> rfl
  constructor
  · intro e
    rw [hlast]
    exact .add _ .refl
  · intro e₁ e₂ he hfits
    rw [hlast] at hfits
    have hpools := ρ.intern f he.pools hfits
    have hold := ρ.mono he.chunks (ConstantPool.within_add _ (fieldConstant f))
      (ConstantPool.within_add _ (fieldConstant f))
    have hboth : (e₁.pool.add (fieldConstant f)).1 < 65536 ↔
        (e₂.pool.add (fieldConstant f)).1 < 65536 := by
      rcases ρ.index f he.pools hfits with heq | hlt
      · rw [heq]
      · exact iff_of_true hlt.1 hlt.2
    rw [onField_eq, onField_eq]
    by_cases h₁ : (e₁.pool.add (fieldConstant f)).1 < 65536
    · rw [if_pos h₁, if_pos (hboth.mp h₁)]
      refine .ok ⟨hpools, ?_, ?_, he.line⟩
      · rw [chunk_write, chunk_write]
        simp only [he.line]
        exact ρ.field f _ he.pools hfits he.chunks hsize hop h₁ (hboth.mp h₁)
      · rw [Emitter.height_write, Emitter.height_write]
        exact congrArg (fun height => signed32 (height + effect)) he.height
    · have heq := (ρ.index f he.pools hfits).resolve_right fun hlt => h₁ hlt.1
      rw [if_neg h₁, if_neg (heq ▸ h₁), heq]
      exact .error ⟨hpools, hold, he.height, he.line⟩

theorem parallel_dupValue (width : Nat) : Parallel ρ (dupValue width) := by
  unfold dupValue fixed
  split
  · exact parallel_write rfl rfl _
  · exact parallel_write rfl rfl _

theorem parallel_ownerBelow (width : Nat) : Parallel ρ (ownerBelow width) := by
  unfold ownerBelow fixed
  split
  · exact (parallel_write rfl rfl _).bind fun _ => parallel_write rfl rfl _
  · exact parallel_write rfl rfl _

end Emit

open Emit

/-! ### Expressions -/

theorem StaticRef.parallel_forCode (r : StaticRef) : Parallel ρ r.forCode := by
  unfold forCode
  split
  · exact parallel_pure _
  · exact parallel_throw _

theorem StaticRef.parallel_compile (r : StaticRef) : Parallel ρ r.compile :=
  r.parallel_forCode.bind fun _ => parallel_mark.bind fun _ =>
    (parallel_onField rfl rfl _ _).bind fun _ => parallel_verify _ _ _

theorem StaticRef.parallel_compileAssign (r : StaticRef) : Parallel ρ r.compileAssign :=
  r.parallel_forCode.bind fun _ => parallel_mark.bind fun _ => (parallel_dupValue _).bind fun _ =>
    (parallel_onField rfl rfl _ _).bind fun _ => parallel_verify _ _ _

/-- **The code that reads an expression.** -/
theorem Expr.parallel_compile (e : Expr) : Parallel ρ e.compile := by
  induction e with
  | binding name span ty slot =>
    refine (parallel_setLine _).bind fun _ => ?_
    cases slot with
    | some slot => exact parallel_indexed rfl rfl rfl rfl _ _ _
    | none => exact parallel_throw _
  | static r => exact (parallel_setLine _).bind fun _ => r.parallel_compile
  | path segments field span => exact (parallel_setLine _).bind fun _ => parallel_throw _
  | member owner field span resolved ih =>
    cases resolved with
    | some found =>
      exact (parallel_setLine _).bind fun _ => parallel_mark.bind fun _ => ih.bind fun _ =>
        (parallel_onField rfl rfl _ _).bind fun _ => parallel_verify _ _ _
    | none => exact (parallel_setLine _).bind fun _ => parallel_throw _
  | qualified target field span resolved =>
    cases resolved with
    | some found => exact (parallel_setLine _).bind fun _ => target.parallel_compile
    | none => exact (parallel_setLine _).bind fun _ => parallel_throw _

/-- **The code that assigns to an expression.** -/
theorem Expr.parallel_compileAssign (e : Expr) : Parallel ρ e.compileAssign := by
  cases e with
  | binding name span ty slot =>
    refine (parallel_setLine _).bind fun _ => ?_
    cases slot with
    | some slot =>
      exact (parallel_dupValue _).bind fun _ => parallel_indexed rfl rfl rfl rfl _ _ _
    | none => exact parallel_throw _
  | static r => exact (parallel_setLine _).bind fun _ => r.parallel_compileAssign
  | path segments field span => exact (parallel_setLine _).bind fun _ => parallel_throw _
  | member owner field span resolved =>
    cases resolved with
    | some found =>
      exact (parallel_setLine _).bind fun _ => parallel_mark.bind fun _ =>
        (parallel_dupValue _).bind fun _ => owner.parallel_compile.bind fun _ =>
          (parallel_ownerBelow _).bind fun _ =>
            (parallel_onField rfl rfl _ _).bind fun _ => parallel_verify _ _ _
    | none => exact (parallel_setLine _).bind fun _ => parallel_throw _
  | qualified target field span resolved =>
    cases resolved with
    | some found => exact (parallel_setLine _).bind fun _ => target.parallel_compileAssign
    | none => exact (parallel_setLine _).bind fun _ => parallel_throw _

/-! ### Chunks -/

namespace Comparison

/-- A computation over a pool only adds to it, and has the same outcome over related pools. -/
structure Runs {ε : Type} (ρ : Comparison) (S : ConstantPool → ConstantPool → α → α → Prop)
    (x : ConstantPool → Except ε α × ConstantPool) : Prop where
  /-- The pool grows. -/
  grows : ∀ p : ConstantPool, p.Grows (x p).2
  /-- The pools stay related. -/
  pools : ∀ {p q}, ρ.Pools p q → ρ.Fits (x p).2 → ρ.Pools (x p).2 (x q).2
  /-- The outcomes are the same. -/
  outcome : ∀ {p q}, ρ.Pools p q → ρ.Fits (x p).2 →
    SameOutcome (S (x p).2 (x q).2) (x p).1 (x q).1

/-- A computation and, unless it fails, another one over the pool that it leaves. -/
theorem Runs.seq {ε γ : Type} {S : ConstantPool → ConstantPool → α → α → Prop}
    {T : ConstantPool → ConstantPool → β → β → Prop}
    {U : ConstantPool → ConstantPool → γ → γ → Prop}
    {x : ConstantPool → Except ε α × ConstantPool} {y : ConstantPool → Except ε β × ConstantPool}
    {z : ConstantPool → Except ε γ × ConstantPool} (hx : ρ.Runs S x) (hy : ρ.Runs T y)
    (f : α → β → γ) (herror : ∀ p e, (x p).1 = .error e → z p = (.error e, (x p).2))
    (hok : ∀ p a, (x p).1 = .ok a → z p = ((y (x p).2).1.map (f a), (y (x p).2).2))
    (hf : ∀ {p p' q q' a b c d}, p.Within p' → q.Within q' → S p q a b → T p' q' c d →
      U p' q' (f a c) (f b d)) : ρ.Runs U z := by
  have hgrows : ∀ p, (x p).2.Grows (z p).2 := by
    intro p
    cases hxp : (x p).1 with
    | error e => rw [herror p e hxp]; exact .refl
    | ok a => rw [hok p a hxp]; exact hy.grows _
  have hends : ∀ {p q}, ρ.Pools p q → ρ.Fits (z p).2 →
      ρ.Pools (z p).2 (z q).2 ∧ SameOutcome (U (z p).2 (z q).2) (z p).1 (z q).1 := by
    intro p q hpq hfits
    have hfirst := ρ.fits_of_within (hgrows p).within hfits
    have hpools := hx.pools hpq hfirst
    have hsame := hx.outcome hpq hfirst
    generalize hxp : (x p).1 = a at hsame
    generalize hxq : (x q).1 = b at hsame
    cases hsame with
    | error =>
      rw [herror p _ hxp, herror q _ hxq]
      exact ⟨hpools, .error⟩
    | ok hab =>
      rw [hok p _ hxp] at hfits ⊢
      rw [hok q _ hxq]
      exact ⟨hy.pools hpools hfits, (hy.outcome hpools hfits).map fun _ _ hcd =>
        hf (hy.grows _).within (hy.grows _).within hab hcd⟩
  exact ⟨fun p => (hx.grows p).trans (hgrows p), fun hpq hfits => (hends hpq hfits).1,
    fun hpq hfits => (hends hpq hfits).2⟩

/-- **The chunk of an emission that ends alike.** -/
theorem runs_chunkOf {x : Emit Unit} (hx : Parallel ρ x) : ρ.Runs ρ.Chunks x.chunkOf := by
  have hpool : ∀ p, (x.chunkOf p).2 = (last (x (.new p))).pool := by
    intro p
    rw [Emit.chunkOf, EStateM.run]
    cases x (.new p) <;> rfl
  have hends : ∀ {p q}, ρ.Pools p q → ρ.Fits (x.chunkOf p).2 →
      ρ.Pools (x.chunkOf p).2 (x.chunkOf q).2 ∧
        SameOutcome (ρ.Chunks (x.chunkOf p).2 (x.chunkOf q).2) (x.chunkOf p).1 (x.chunkOf q).1 := by
    intro p q hpq hfits
    rw [hpool] at hfits
    have hresults := hx.results (.new p) (.new q) ⟨hpq, ρ.empty p q, rfl, rfl⟩ hfits
    simp only [Emit.chunkOf, EStateM.run]
    generalize x (.new p) = r₁, x (.new q) = r₂ at hresults
    cases hresults with
    | ok he => exact ⟨he.pools, .ok he.chunks⟩
    | error he => exact ⟨he.pools, .error⟩
  refine ⟨fun p => ?_, fun hpq hfits => (hends hpq hfits).1, fun hpq hfits => (hends hpq hfits).2⟩
  rw [hpool]
  exact hx.grows (.new p)

/-! ### Two comparisons -/

/-- Pools on the way to a third one, the second further than the first.  Over both the chunks are
the same, because what the first run adds is there already or is added at the same place. -/
def onTheWay (final : ConstantPool) (hfinal : final.Lawful) : Comparison where
  Fits p := p.Within final
  Pools p q := (p.Lawful ∧ q.Lawful) ∧ p.Within q ∧ q.Within final
  Chunks _ _ c d := c = d
  fits_of_within hpq hq := hpq.trans hq
  empty _ _ := rfl
  mono h _ _ := h
  plain _ h _ _ := by rw [h]
  intern f h hfits :=
    ⟨⟨h.1.1.add _, h.1.2.add _⟩, (h.2.1.add h.1.1 h.1.2 hfinal h.2.2 hfits).2⟩
  index f h hfits := Or.inl (h.2.1.add h.1.1 h.1.2 hfinal h.2.2 hfits).1.symm
  field f line h hfits hc _ _ _ _ := by
    rw [(h.2.1.add h.1.1 h.1.2 hfinal h.2.2 hfits).1, hc]

/-- Pools of which the first has the constants of the second, at other places, and chunks that are
the same up to these places.  Indices fit if the first pool has no more constants than there are
words. -/
def upToIndices : Comparison where
  Fits p := p.size ≤ 65536
  Pools p q := (p.Lawful ∧ q.Lawful) ∧ ∀ c, q.Has c → p.Has c
  Chunks p q c d := c.lines = d.lines ∧ ∃ code, c.Encodes p code ∧ d.Encodes q code
  fits_of_within hpq hq := Nat.le_trans hpq.size_le hq
  empty p q := ⟨rfl, [], Chunk.encodes_empty p, Chunk.encodes_empty q⟩
  mono := by
    rintro p p' q q' c d ⟨hlines, code, hc, hd⟩ hp hq
    exact ⟨hlines, code, hc.mono hp, hd.mono hq⟩
  plain := by
    rintro p q c d op operand line ⟨hlines, code, hc, hd⟩ hsize hop
    have hlines' : (c.addInstr op operand line).lines = (d.addInstr op operand line).lines := by
      rw [Chunk.lines_addInstr, Chunk.lines_addInstr, hlines]
    refine ⟨hlines', _, hc.snoc_plain line hsize hop, ?_⟩
    rw [Chunk.size_eq_of_lines hlines]
    exact hd.snoc_plain line hsize hop
  intern f h _ := ⟨⟨h.1.1.add _, h.1.2.add _⟩, ConstantPool.has_add_of_has h.1.1 h.1.2 h.2 _⟩
  index f h hfits := by
    have hle := ConstantPool.size_le_of_has (h.1.2.add (Emit.fieldConstant f))
      (ConstantPool.has_add_of_has h.1.1 h.1.2 h.2 _)
    have hp := h.1.1.add_lt_size (Emit.fieldConstant f)
    have hq := h.1.2.add_lt_size (Emit.fieldConstant f)
    exact Or.inr ⟨by omega, by omega⟩
  field := by
    rintro p q c d op f line ⟨hlawful, hhas⟩ hfits ⟨hlines, code, hc, hd⟩ hsize hop hp hq
    -- the indices differ, but each is where its own pool has the reference
    have hc' := (hc.mono (ConstantPool.within_add p _)).snoc_field line hsize hop hp
      (ConstantPool.get?_add hlawful.1 _)
    have hd' := (hd.mono (ConstantPool.within_add q _)).snoc_field line hsize hop hq
      (ConstantPool.get?_add hlawful.2 _)
    refine ⟨?_, _, hc', ?_⟩
    · rw [Chunk.lines_addInstr, Chunk.lines_addInstr, hlines]
      rfl
    · rw [Chunk.size_eq_of_lines hlines]
      exact hd'

end Comparison

end FieldPath
