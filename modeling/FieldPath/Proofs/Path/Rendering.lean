import FieldPath.Proofs.Path.Lifecycle

/-!
# Texts and positions

An expression that is read from a text is written as that text again, and it stays so when its
bindings are looked up.  A path that names a class gets the full name of the class in place of the
segments that spell it, and keeps all others.  Each node of the chain that a path becomes stands
where the text starts and is as long as the text up to the node's own segment; this holds of the
roots that are put in for the first segments as of all other nodes, whether the look-up of the
fields succeeds or not.

## Main definitions

* `Span.upTo` — the span of the first segments of a path.
* `Expr.Placed` — an expression that stands for the first segments of a path, node by node.
* `Expr.Follows` — and for all of them, with spans inside each other.

## Main results

* `headSpan_eq_upTo` — the spans that are counted are those of the segments.
* `Expr.text_chain` — a chain is written as its segments.
* `Expr.Placed.after` — bind and check calls keep every node in its place.
* `Expr.text_checked_of_bound`, `Expr.text_checked_of_unbound` — the text after a successful check.
* `rendering` — **texts and positions follow the source.**
-/

namespace FieldPath

/-! ### Spans of first segments -/

/-- The span of the first `count` segments of a path that starts where `span` does. -/
def Span.upTo (span : Span) (path : List String) (count : Nat) : Span :=
  ⟨span.line, span.col, (Dotted.join (path.take count)).utf8ByteSize⟩

section Reading

variable {u : Universe} {bindings : Bindings} {span : Span} {path before : List String}
  {last : String}

/-- All segments of a path have the span of the path. -/
theorem Span.upTo_of_ge {count : Nat} (hspan : span.len = (Dotted.join path).utf8ByteSize)
    (h : path.length ≤ count) : span.upTo path count = span := by
  rw [upTo, List.take_of_length_le h, ← hspan]

/-- What is left of a list starts with the element at its index. -/
theorem getElem?_of_drop_eq_cons {α : Type} {l rest : List α} {a : α} {n : Nat}
    (h : l.drop n = a :: rest) : l[n]? = some a ∧ l.drop (n + 1) = rest := by
  constructor
  · rw [← List.head?_drop, h, List.head?_cons]
  · rw [← List.drop_drop, h, List.drop_one, List.tail_cons]

/-- The spans that are counted are those of the segments.  No part is cut off, as the span has room
for the last segment, too. -/
theorem headSpan_eq_upTo (hspan : span.len = (Dotted.join (before ++ [last])).utf8ByteSize)
    {count : Nat} (h : count ≤ before.length) :
    headSpan span before count = span.upTo (before ++ [last]) count := by
  have htake : (before ++ [last]).take count = before.take count :=
    List.take_append_of_le_length h
  have hle : (Dotted.join (before.take count)).utf8ByteSize ≤ span.len := by
    have hlength : count ≤ (before ++ [last]).length := by simp; omega
    have hbytes := Dotted.utf8ByteSize_join_take_le (before ++ [last]) hlength
    rwa [htake, List.take_length, ← hspan] at hbytes
  rw [Dotted.utf8ByteSize_join, List.length_take_of_le h] at hle
  rw [headSpan, Span.slice_zero, Span.upTo, htake, Dotted.utf8ByteSize_join,
    List.length_take_of_le h, Nat.min_eq_left hle]

namespace Expr

/-! ### Places -/

/-- The expression stands for the first `count` segments of the path: a root for the segments up to
its own, and each node around it for one segment more.  The span of every node is that of the
segments that it stands for.  A path as a whole stands for all segments. -/
inductive Placed (span : Span) (path : List String) : Nat → Expr → Prop where
  /-- A binding stands for the first segment, which is its name. -/
  | binding {name : String} {here : Span} {ty : Ty} {slot : Option Nat} :
      path[0]? = some name → here = span.upTo path 1 →
      Placed span path 1 (.binding name here ty slot)
  /-- A field of a class stands for the segments up to the one that is its name. -/
  | static {index : Nat} {r : StaticRef} :
      path[index]? = some r.field → r.span = span.upTo path (index + 1) →
      Placed span path (index + 1) (.static r)
  /-- A path without a meaning. -/
  | path {segments : List String} {field : String} {here : Span} :
      path = segments ++ [field] → here = span.upTo path path.length →
      Placed span path path.length (.path segments field here)
  /-- A field of a value stands for one segment more than its owner. -/
  | member {index : Nat} {owner : Expr} {field : String} {here : Span}
      {recorded : Option ResolvedField} :
      Placed span path index owner → path[index]? = some field →
      here = span.upTo path (index + 1) →
      Placed span path (index + 1) (.member owner field here recorded)
  /-- A path that names a field of a class as a whole, and the field, stand for the same. -/
  | qualified {count : Nat} {target : StaticRef} {field : String} {here : Span}
      {recorded : Option ResolvedField} :
      Placed span path count (.static target) → target.field = field →
      here = span.upTo path count →
      Placed span path count (.qualified target field here recorded)

namespace Placed

theorem span_eq {e : Expr} {count : Nat} (h : Placed span path count e) :
    e.span = span.upTo path count := by
  cases h <;> assumption

/-- Every node stands for some of the segments. -/
theorem nodes {e : Expr} {count : Nat} (h : Placed span path count e) :
    ∀ n ∈ e.nodes, ∃ c, c ≤ count ∧ Placed span path c n := by
  induction h with
  | binding hname hhere =>
    intro n hn
    obtain rfl := List.mem_singleton.mp hn
    exact ⟨1, Nat.le_refl 1, .binding hname hhere⟩
  | static hfield hhere =>
    intro n hn
    obtain rfl := List.mem_singleton.mp hn
    exact ⟨_, Nat.le_refl _, .static hfield hhere⟩
  | path hsplit hhere =>
    intro n hn
    obtain rfl := List.mem_singleton.mp hn
    exact ⟨_, Nat.le_refl _, .path hsplit hhere⟩
  | member howner hfield hhere ih =>
    intro n hn
    rcases List.mem_cons.mp hn with rfl | hn
    · exact ⟨_, Nat.le_refl _, .member howner hfield hhere⟩
    · obtain ⟨c, hc, hplaced⟩ := ih n hn
      exact ⟨c, Nat.le_succ_of_le hc, hplaced⟩
  | qualified htarget hfield hhere _ =>
    intro n hn
    rcases List.mem_cons.mp hn with rfl | hn
    · exact ⟨_, Nat.le_refl _, .qualified htarget hfield hhere⟩
    · obtain rfl := List.mem_singleton.mp hn
      exact ⟨_, Nat.le_refl _, htarget⟩

/-- Filling in what is found leaves every node in its place. -/
theorem of_filled {e e' : Expr} (h : Filled bindings e e') :
    ∀ {count}, Placed span path count e → Placed span path count e' := by
  induction h with
  | refl => exact fun hplaced => hplaced
  | binding _ =>
    rintro _ ⟨⟩
    next hname hhere => exact .binding hname hhere
  | @static r r' _ hbare =>
    rintro _ ⟨⟩
    next index hfield hhere =>
      have hfield' := congrArg StaticRef.field hbare
      have hspan' := congrArg StaticRef.span hbare
      exact .static (hfield.trans (congrArg some hfield'.symm)) (hspan'.trans hhere)
  | member _ ih =>
    rintro _ ⟨⟩
    next howner hfield hhere => exact .member (ih howner) hfield hhere
  | qualified htarget ih =>
    rintro _ ⟨⟩
    next hplaced hfield hhere =>
      have hfield' := congrArg StaticRef.field (Expr.static.inj htarget.bare_eq)
      exact .qualified (ih hplaced) (hfield'.trans hfield) hhere

section Whole

variable (hspan : span.len = (Dotted.join (before ++ [last])).utf8ByteSize)
include hspan

/-- A chain stands for the segments of its root and one more for each field. -/
theorem chain {rest : List String} : ∀ {root : Expr} {count : Nat},
    Placed span (before ++ [last]) count root → before.drop count = rest →
      count ≤ before.length →
        Placed span (before ++ [last]) before.length (chain span before root count rest) := by
  induction rest with
  | nil =>
    intro root count hroot hdrop hle
    obtain rfl : count = before.length := Nat.le_antisymm hle (List.drop_eq_nil_iff.mp hdrop)
    exact hroot
  | cons segment rest ih =>
    intro root count hroot hdrop hle
    obtain ⟨hsegment, hrest⟩ := getElem?_of_drop_eq_cons hdrop
    obtain ⟨hlt, -⟩ := List.getElem?_eq_some_iff.mp hsegment
    refine ih (.member hroot ?_ (headSpan_eq_upTo hspan hlt)) hrest hlt
    rw [List.getElem?_append_left hlt, hsegment]

/-- A chain and the last field stand for the whole path. -/
theorem ofOwner_chain {root : Expr} {count : Nat} (h : Placed span (before ++ [last]) count root)
    (hle : count ≤ before.length) :
    Placed span (before ++ [last]) (before ++ [last]).length
      (ofOwner (Expr.chain span before root count (before.drop count)) last span) := by
  have hlength : (before ++ [last]).length = before.length + 1 := by simp
  rw [hlength]
  exact .member (chain hspan h rfl hle) (by simp)
    (Span.upTo_of_ge hspan (Nat.le_of_eq hlength)).symm

/-- A path that is spelled out stands where it stood, with the field of the class for its root. -/
theorem ofClassPath {e : Expr} (h : ofClassPath u before last span = .ok e) :
    Placed span (before ++ [last]) (before ++ [last]).length e := by
  have hlength : (before ++ [last]).length = before.length + 1 := by simp
  unfold Expr.ofClassPath at h
  split at h
  · simp at h
  · split at h
    · simp at h
    · next count _ =>
      split at h
      · have hend : span = span.upTo (before ++ [last]) (before.length + 1) :=
          (Span.upTo_of_ge hspan (Nat.le_of_eq hlength)).symm
        rw [← Except.ok.inj h, hlength]
        exact .qualified (.static (by simp) hend) rfl hend
      · next first rest hdrop =>
        obtain ⟨hfirst, rfl⟩ := getElem?_of_drop_eq_cons hdrop
        obtain ⟨hlt, -⟩ := List.getElem?_eq_some_iff.mp hfirst
        rw [← Except.ok.inj h]
        refine ofOwner_chain hspan (.static ?_ (headSpan_eq_upTo hspan hlt)) hlt
        rw [List.getElem?_append_left hlt, hfirst]

end Whole

section Passes

variable (hspan : span.len = (Dotted.join path).utf8ByteSize)
include hspan

theorem spellOut {e : Expr} {count : Nat} (h : Placed span path count e) :
    ∀ {e'}, e.spellOut u = .ok e' → Placed span path count e' := by
  induction h with
  | binding hname hhere =>
    intro e' h
    rw [← Except.ok.inj h]
    exact .binding hname hhere
  | static hfield hhere =>
    intro e' h
    rw [← Except.ok.inj h]
    exact .static hfield hhere
  | path hsplit hhere =>
    intro e' h
    subst hsplit
    rw [Span.upTo_of_ge hspan (Nat.le_refl _)] at hhere
    subst hhere
    exact ofClassPath hspan h
  | @member _ _ _ _ recorded howner hfield hhere ih =>
    intro e' h
    cases recorded with
    | some found =>
      rw [← Except.ok.inj h]
      exact .member howner hfield hhere
    | none =>
      obtain ⟨owner', hown, rfl⟩ := eq_ok_of_map h
      exact .member (ih hown) hfield hhere
  | qualified htarget hfield hhere _ =>
    intro e' h
    rw [← Except.ok.inj h]
    exact .qualified htarget hfield hhere

theorem check {e : Expr} {count : Nat} (h : Placed span path count e) (required : Ty) :
    Placed span path count (e.check u bindings required).1 := by
  unfold Expr.check
  split
  · exact h
  · next e' he' =>
    have hfilled : Filled bindings e' (e'.infer u bindings required).1 := filled_infer e' required
    exact (h.spellOut hspan he').of_filled hfilled

/-- A path that is bound stands where it stood, with the binding for its root. -/
theorem bind {e : Expr} {count : Nat} (h : Placed span path count e) :
    ∀ {e'}, e.bind bindings = .ok e' → Placed span path count e' := by
  induction h with
  | binding hname hhere =>
    intro e' h
    simp only [Expr.bind] at h
    split at h
    · rw [← Except.ok.inj h]
      exact .binding hname hhere
    · simp at h
  | static hfield hhere =>
    intro e' h
    rw [← Except.ok.inj h]
    exact .static hfield hhere
  | @path segments field here hsplit hhere =>
    intro e' h
    cases segments with
    | nil =>
      rw [← Except.ok.inj h]
      exact .path hsplit hhere
    | cons root rest =>
      simp only [Expr.bind] at h
      split at h
      · next b _ =>
        rw [← Except.ok.inj h]
        subst hsplit
        rw [Span.upTo_of_ge hspan (Nat.le_refl _)] at hhere
        subst hhere
        have hone : 1 ≤ (root :: rest).length := Nat.succ_le_succ (Nat.zero_le _)
        exact ofOwner_chain hspan (.binding rfl (headSpan_eq_upTo hspan hone)) hone
      · rw [← Except.ok.inj h]
        exact .path hsplit hhere
  | member _ hfield hhere ih =>
    intro e' h
    obtain ⟨owner', hown, rfl⟩ := eq_ok_of_map h
    exact .member (ih hown) hfield hhere
  | qualified htarget hfield hhere _ =>
    intro e' h
    rw [← Except.ok.inj h]
    exact .qualified htarget hfield hhere

/-- **Bind and check calls keep every node in its place**, also those that fail. -/
theorem after {e : Expr} {count : Nat} (h : Placed span path count e) (passes : List Pass) :
    Placed span path count (e.after u bindings passes) :=
  after_induction (P := Placed span path count) (fun _ _ h hbind => h.bind hspan hbind)
    (fun _ required h => h.check hspan required) h passes

end Passes

end Placed

/-- The expression stands for the path.  Its outermost node has the whole span, and the span of each
node starts where all of them do and reaches no further than the one around it. -/
structure Follows (span : Span) (path : List String) (e : Expr) : Prop where
  /-- Each node stands for the segments up to its own. -/
  placed : Placed span path path.length e
  /-- The outermost node keeps the whole span. -/
  span_eq : e.span = span
  /-- The spans are inside each other. -/
  nested : (e.nodes.map Expr.span).Pairwise fun outer inner =>
    inner.line = outer.line ∧ inner.col = outer.col ∧ inner.len ≤ outer.len

theorem Placed.nested {e : Expr} {count : Nat} (h : Placed span path count e) :
    (e.nodes.map Expr.span).Pairwise fun outer inner =>
      inner.line = outer.line ∧ inner.col = outer.col ∧ inner.len ≤ outer.len := by
  -- what stands for fewer segments is no longer than what stands for more
  have houter : ∀ {c c'}, c ≤ c' → (span.upTo path c).line = (span.upTo path c').line ∧
      (span.upTo path c).col = (span.upTo path c').col ∧
      (span.upTo path c).len ≤ (span.upTo path c').len :=
    fun hle => ⟨rfl, rfl, Dotted.utf8ByteSize_join_take_le path hle⟩
  induction h with
  | binding => exact List.pairwise_singleton _ _
  | static => exact List.pairwise_singleton _ _
  | path => exact List.pairwise_singleton _ _
  | member howner _ hhere ih =>
    refine List.Pairwise.cons (fun s hs => ?_) ih
    obtain ⟨n, hn, rfl⟩ := List.mem_map.mp hs
    obtain ⟨c, hc, hplaced⟩ := howner.nodes n hn
    rw [hplaced.span_eq]
    exact hhere ▸ houter (Nat.le_succ_of_le hc)
  | qualified htarget _ hhere ih =>
    refine List.Pairwise.cons (fun s hs => ?_) ih
    obtain rfl := List.mem_singleton.mp hs
    exact hhere ▸ htarget.span_eq ▸ houter (Nat.le_refl _)

theorem Placed.follows {e : Expr} (h : Placed span path path.length e)
    (hspan : span.len = (Dotted.join path).utf8ByteSize) : Follows span path e :=
  ⟨h, h.span_eq.trans (Span.upTo_of_ge hspan (Nat.le_refl _)), h.nested⟩

/-! ### Texts -/

/-- **A chain is written as its segments**, after the text of its root. -/
theorem text_chain {rest : List String} : ∀ {root : Expr} {count : Nat},
    (chain span path root count rest).text = Dotted.join (root.text :: rest) := by
  induction rest with
  | nil => intro root count; rfl
  | cons segment rest ih =>
    intro root count
    rw [chain_cons, ih, text_ofOwner, Dotted.join_dotted]

/-- So is a field of one. -/
theorem text_ofOwner_chain {root : Expr} {rest : List String} {count : Nat} {here : Span} :
    (ofOwner (chain span path root count rest) last here).text =
      Dotted.join (root.text :: (rest ++ [last])) := by
  have hchain : (chain span path root count (rest ++ [last])).text =
      Dotted.join (root.text :: (rest ++ [last])) := text_chain
  rw [← hchain]
  clear hchain
  -- the last node differs from that of a longer chain in its position only
  induction rest generalizing root count with
  | nil => rfl
  | cons segment rest ih => exact ih

/-- Looking bindings up changes no text. -/
theorem text_bind {e : Expr} : ∀ {e'}, e.bind bindings = .ok e' → e'.text = e.text := by
  induction e with
  | binding name span ty slot =>
    intro e' h
    simp only [Expr.bind] at h
    split at h
    · rw [← Except.ok.inj h]
      rfl
    · simp at h
  | path segments field span =>
    intro e' h
    cases segments with
    | nil => rw [← Except.ok.inj h]
    | cons root rest =>
      simp only [Expr.bind] at h
      split at h
      · rw [← Except.ok.inj h, text_ofOwner_chain]
        rfl
      · rw [← Except.ok.inj h]
  | member owner field span recorded ih =>
    intro e' h
    obtain ⟨owner', hown, rfl⟩ := eq_ok_of_map h
    rw [text, text, ih hown]
  | static r =>
    intro e' h
    rw [← Except.ok.inj h]
  | qualified target field span recorded =>
    intro e' h
    rw [← Except.ok.inj h]

/-- **A path that names a class gets its full name** in place of the segments that spell it. -/
theorem text_ofClassPath {e : Expr} (h : ofClassPath u before last span = .ok e) :
    ∃ matched count, (u.matchPath before).bind Ty.object? = some matched ∧
      spelledSegments before matched.name = some count ∧
      e.text = Dotted.join (matched.name.qualified :: (before ++ [last]).drop count) := by
  unfold ofClassPath at h
  split at h
  · simp at h
  · next matched hmatched =>
    split at h
    · simp at h
    · next count hcount =>
      refine ⟨matched, count, hmatched, hcount, ?_⟩
      rw [List.drop_append_of_le_length (spelledSegments_le hcount)]
      split at h
      · next hdrop =>
        rw [← Except.ok.inj h, hdrop]
        rfl
      · next first rest hdrop =>
        rw [← Except.ok.inj h, hdrop, text_ofOwner_chain]
        exact Dotted.join_dotted _ _ _

/-- A check that succeeds leaves the text of the expression that is spelled out. -/
theorem text_check {e final : Expr} {required ty : Ty}
    (h : e.check u bindings required = (final, .ok ty)) :
    ∃ e', e.spellOut u = .ok e' ∧ final.text = e'.text := by
  unfold Expr.check at h
  split at h
  · simp at h
  · next e' he' =>
    have htext : (e'.infer u bindings required).1.text = e'.text := text_infer e' required
    rw [h] at htext
    exact ⟨e', he', htext⟩

/-! ### Texts that are read -/

/-- Segments make a name, or a field after a path. -/
theorem ofSegments_cases (segments : List String) (h : segments ≠ []) (span : Span) :
    (∃ name, segments = [name] ∧ ofSegments segments h span = ofName name span) ∨
      ∃ before last, before ≠ [] ∧ segments = before ++ [last] ∧
        ofSegments segments h span = .path before last span := by
  have hsegments := (List.dropLast_concat_getLast h).symm
  simp only [ofSegments]
  split
  · next hnil =>
    rw [hnil, List.nil_append] at hsegments
    exact Or.inl ⟨_, hsegments, rfl⟩
  · next hne => exact Or.inr ⟨_, _, hne, hsegments, rfl⟩

/-- What is read stands for all segments of its text, and is written as them. -/
theorem placed_ofSegments {segments : List String} (h : segments ≠ [])
    (hspan : span.len = (Dotted.join segments).utf8ByteSize) :
    Placed span segments segments.length (ofSegments segments h span) ∧
      (ofSegments segments h span).text = Dotted.join segments := by
  have hall : span = span.upTo segments segments.length :=
    (Span.upTo_of_ge hspan (Nat.le_refl _)).symm
  rcases ofSegments_cases segments h span with ⟨name, hname, heq⟩ | ⟨before, last, -, hpath, heq⟩
  · rw [heq]
    subst hname
    exact ⟨.binding rfl hall, rfl⟩
  · rw [heq]
    refine ⟨.path hpath hall, ?_⟩
    rw [hpath]
    rfl

/-! ### Texts after a bind and a check -/

/-- A bind changes no text, whether it succeeds or not. -/
theorem text_after_bind (e : Expr) : (e.after u bindings [.bind]).text = e.text := by
  simp only [after, List.foldl_cons, List.foldl_nil, Pass.run]
  split
  · next e' he' => exact text_bind he'
  · rfl

/-- A name that is checked is bound. -/
theorem lookup_of_check_ofName {name : String} {final : Expr} {required ty : Ty}
    (h : ((ofName name span).after u bindings [.bind]).check u bindings required =
      (final, .ok ty)) : ∃ b, bindings.lookup name = some b := by
  cases hb : bindings.lookup name with
  | some b => exact ⟨b, rfl⟩
  | none => simp [after, Pass.run, ofName, Expr.bind, hb, Expr.check, spellOut, infer,
      inferBinding] at h

/-- What starts at a binding has nothing to spell out. -/
theorem spellOut_after_bind {segments : List String} (hne : segments ≠ []) {b : Binding}
    (hb : bindings.lookup (segments.headD "") = some b) :
    ((ofSegments segments hne span).after u bindings [.bind]).spellOut u =
      .ok ((ofSegments segments hne span).after u bindings [.bind]) := by
  rcases ofSegments_cases segments hne span with
    ⟨name, hname, heq⟩ | ⟨before, last, hbefore, hpath, heq⟩
  · rw [heq]
    subst hname
    rw [List.headD_cons] at hb
    simp only [after, List.foldl_cons, List.foldl_nil, Pass.run, ofName, Expr.bind, hb]
    rfl
  · rw [heq]
    obtain ⟨root, rest, rfl⟩ := List.exists_cons_of_ne_nil hbefore
    subst hpath
    rw [List.cons_append, List.headD_cons] at hb
    simp only [after, List.foldl_cons, List.foldl_nil, Pass.run, Expr.bind, hb]
    have hroot : (ofBinding b root (headSpan span (root :: rest) 1)).spellOut u =
        .ok (ofBinding b root (headSpan span (root :: rest) 1)) := rfl
    rw [ofOwner, spellOut, spellOut_chain hroot]
    rfl

/-- What starts at no binding stays a path until it is spelled out. -/
theorem after_bind_path {field : String} (hb : bindings.lookup (before.headD "") = none) :
    (Expr.path before field span).after u bindings [.bind] = .path before field span := by
  cases before with
  | nil => rfl
  | cons root rest =>
    rw [List.headD_cons] at hb
    simp only [after, List.foldl_cons, List.foldl_nil, Pass.run, Expr.bind, hb]

/-- **What starts at a binding is written as its segments** after a successful check. -/
theorem text_checked_of_bound {segments : List String} (hne : segments ≠ []) {b : Binding}
    (hb : bindings.lookup (segments.headD "") = some b) {final : Expr} {required ty : Ty}
    (h : ((ofSegments segments hne span).after u bindings [.bind]).check u bindings required =
      (final, .ok ty)) :
    final.text = (ofSegments segments hne span).text := by
  obtain ⟨e', he', hfinal⟩ := text_check h
  rw [spellOut_after_bind hne hb] at he'
  rw [hfinal, ← Except.ok.inj he', text_after_bind]

/-- **What starts at no binding names a class**, whose name stands for the longest run of segments
that spell it. -/
theorem text_checked_of_unbound {segments : List String} (hne : segments ≠ [])
    (hplain : ∀ s ∈ segments, Dotted.Plain s)
    (hnone : bindings.lookup (segments.headD "") = none) {final : Expr} {required ty : Ty}
    (h : ((ofSegments segments hne span).after u bindings [.bind]).check u bindings required =
      (final, .ok ty)) :
    ∃ matched count, (u.matchPath segments.dropLast).bind Ty.object? = some matched ∧
      spelledSegments segments.dropLast matched.name = some count ∧
      LongestSpelling segments.dropLast matched.name.segments count ∧
      final.text = Dotted.join (matched.name.qualified :: segments.drop count) := by
  rcases ofSegments_cases segments hne span with
    ⟨name, hname, heq⟩ | ⟨before, last, hbefore, hpath, heq⟩
  · rw [heq] at h
    obtain ⟨b, hb⟩ := lookup_of_check_ofName h
    rw [hname, List.headD_cons, hb] at hnone
    simp at hnone
  · subst hpath
    rw [List.dropLast_concat]
    have hhead : bindings.lookup (before.headD "") = none := by
      obtain ⟨root, rest, rfl⟩ := List.exists_cons_of_ne_nil hbefore
      exact hnone
    rw [heq, after_bind_path hhead] at h
    obtain ⟨e', he', hfinal⟩ := text_check h
    obtain ⟨matched, count, hmatched, hcount, hspelled⟩ := text_ofClassPath he'
    have hlongest := longest_of_spelledSegments
      (fun s hs => hplain s (List.mem_append_left _ hs)) hcount
    exact ⟨matched, count, hmatched, hcount, hlongest, hfinal.trans hspelled⟩

end Expr

end Reading

/-- **Texts and positions follow the source.**  A well-formed text with a span of its length is read
as an expression that is written as the text, also when its bindings were looked up.  Whatever calls
follow, each node stands where the text starts and is as long as the text up to the node's own
segment.  A bind and a successful check leave the text as it was if its first segment is bound, and
otherwise replace the segments that spell the class that was matched by the name of the class. -/
theorem rendering (u : Universe) (bindings : Bindings) {text : String} {span : Span}
    (htext : isPathText text = true) (hspan : span.len = text.utf8ByteSize) :
    let path := Dotted.split text
    ∃ parsed, Expr.parse text span = .ok parsed ∧ parsed.text = text ∧
      (∀ passes, (parsed.after u bindings passes).Follows span path) ∧
      (parsed.after u bindings [.bind]).text = text ∧
      ∀ required final ty,
        (parsed.after u bindings [.bind]).check u bindings required = (final, .ok ty) →
        final.Follows span path ∧
        (∀ b, bindings.lookup (path.headD "") = some b → final.text = text) ∧
        (bindings.lookup (path.headD "") = none → ∃ matched count,
          (u.matchPath path.dropLast).bind Ty.object? = some matched ∧
          spelledSegments path.dropLast matched.name = some count ∧
          LongestSpelling path.dropLast matched.name.segments count ∧
          final.text = Dotted.join (matched.name.qualified :: path.drop count)) := by
  intro path
  have hne : path ≠ [] := Dotted.split_ne_nil text
  have hjoin : Dotted.join path = text := Dotted.join_split text
  rw [← hjoin] at hspan
  obtain ⟨hplaced, hwritten⟩ := Expr.placed_ofSegments hne hspan
  rw [hjoin] at hwritten
  have hfollows : ∀ passes, ((Expr.ofSegments path hne span).after u bindings passes).Follows span
      path := fun passes => (hplaced.after hspan passes).follows hspan
  have hbound : ((Expr.ofSegments path hne span).after u bindings [.bind]).text = text :=
    (Expr.text_after_bind _).trans hwritten
  refine ⟨Expr.ofSegments path hne span, if_pos htext, hwritten, hfollows, hbound, ?_⟩
  intro required final ty hcheck
  have hfinal : (Expr.ofSegments path hne span).after u bindings [.bind, .check required] = final :=
    congrArg Prod.fst hcheck
  refine ⟨hfinal ▸ hfollows _, fun b hb => ?_, fun hnone => ?_⟩
  · exact (Expr.text_checked_of_bound hne hb hcheck).trans hwritten
  · exact Expr.text_checked_of_unbound hne (fun s => Dotted.plain_of_mem_split) hnone hcheck

namespace Forest

/-- A class with a tree of its own. -/
def tree : ClassDecl :=
  (({ name := ⟨"wald.Bäume"⟩ } : ClassDecl).withInstanceField "höhe"
    (.primitive .int)).withStaticField "größter" (.named ⟨"wald.Bäume"⟩) .null

/-- The table with the class. -/
def table : ClassTable := { decls := [tree] }

/-- A path with letters of two bytes, which count twice. -/
def text : String := "Bäume.größter.höhe"

/-- Its position. -/
def here : Span := ⟨2, 5, 22⟩

/-- The height of the highest tree. -/
def height : Expr :=
  .member
    (.static ⟨tree.name, "größter", ⟨2, 5, 16⟩,
      some ⟨.staticField tree.name "größter" (.named tree.name), .object ⟨tree.name, []⟩⟩⟩)
    "höhe" here (some ⟨.instanceField tree.name "höhe" (.primitive .int), .primitive .int⟩)

theorem split_text : Dotted.split text = ["Bäume", "größter", "höhe"] := by decide +kernel

theorem parse_text : Expr.parse text here = .ok (.path ["Bäume", "größter"] "höhe" here) := by
  decide +kernel

end Forest

open Forest in
/-- The simple name of the class is replaced by its full name. -/
theorem rendering_forest :
    ∃ parsed, Expr.parse text here = .ok parsed ∧ parsed.text = text ∧
      (parsed.after table.toUniverse .empty [.bind]).check table.toUniverse .empty .undefined =
        (height, .ok (.primitive .int)) ∧
      height.Follows here ["Bäume", "größter", "höhe"] ∧
      height.text = "wald.Bäume.größter.höhe" := by
  have htext : isPathText text = true := by decide +kernel
  have hspan : here.len = text.utf8ByteSize := by decide +kernel
  obtain ⟨parsed, hparsed, hwritten, -, -, hcheck⟩ :=
    rendering table.toUniverse .empty htext hspan
  obtain rfl := Except.ok.inj (hparsed.symm.trans parse_text)
  have hheight : ((Expr.path ["Bäume", "größter"] "höhe" here).after table.toUniverse .empty
      [.bind]).check table.toUniverse .empty .undefined = (height, .ok (.primitive .int)) := by
    rw [Expr.after_bind_path (Bindings.lookup_empty _)]
    decide +kernel
  obtain ⟨hfollows, -, hnone⟩ := hcheck _ _ _ hheight
  obtain ⟨matched, count, hmatched, hcount, -, hwritten'⟩ := hnone (Bindings.lookup_empty _)
  rw [split_text] at hfollows hmatched hcount hwritten'
  obtain rfl : matched = ⟨⟨"wald.Bäume"⟩, []⟩ :=
    Option.some.inj (hmatched.symm.trans (by decide +kernel))
  obtain rfl : count = 1 := Option.some.inj (hcount.symm.trans (by decide +kernel))
  exact ⟨_, hparsed, hwritten, hheight, hfollows, hwritten'⟩

end FieldPath
