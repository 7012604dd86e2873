import FieldPath.Proofs.Path.Rendering

/-!
# The language of paths

A text is read as a path if it is made of identifiers with single dots between them, and of nothing
else.  The grammar says so without cutting the text up.  It takes the classes of characters as they
are given: that no dot is a letter or a numeral is all that reading a path needs to know of them.
Writing the expression gives the text back, so a text can be told from what is read from it.

## Main definitions

* `CharClasses` — the classes of characters that identifiers are made of.
* `CharClasses.Identifier`, `CharClasses.Path` — the grammar.
* `CharClasses.parse` — reading a text with any classes of characters.
* `Expr.Reads` — the expression that some identifiers stand for.

## Main results

* `CharClasses.parse_unicode` — paths are read with the classes of Unicode.
* `CharClasses.path_iff` — the texts of the grammar are the joined identifiers.
* `CharClasses.parse_cases` — **what is read is a path, and nothing else is read.**
* `parse_language` — **reading accepts the grammar and undoes writing.**
-/

namespace FieldPath

/-! ### The grammar -/

/-- The classes of characters that identifiers are made of, besides underscores and dollar signs. -/
structure CharClasses where
  /-- The letters. -/
  alphabetic : Char → Bool
  /-- The letters and the numerals. -/
  alphanumeric : Char → Bool
  /-- A dot is no letter. -/
  alphabetic_dot : alphabetic '.' = false
  /-- A dot is no numeral either. -/
  alphanumeric_dot : alphanumeric '.' = false

namespace CharClasses

variable (k : CharClasses)

/-- The character may start an identifier. -/
def Starts (c : Char) : Prop := k.alphabetic c = true ∨ c = '_' ∨ c = '$'

/-- The character may go on with an identifier. -/
def Continues (c : Char) : Prop := k.alphanumeric c = true ∨ c = '_' ∨ c = '$'

/-- The text is an identifier. -/
def Identifier (s : String) : Prop :=
  ∃ c cs, s.toList = c :: cs ∧ k.Starts c ∧ ∀ d ∈ cs, k.Continues d

/-- The text is a path of the listed identifiers: one alone, or one with a dot and a path after
it. -/
inductive Path : String → List String → Prop where
  /-- One identifier. -/
  | one {s : String} : k.Identifier s → Path s [s]
  /-- An identifier, a dot, and a path. -/
  | dot {s text : String} {rest : List String} :
      k.Identifier s → Path text rest → Path (s ++ "." ++ text) (s :: rest)

/-! ### Reading -/

/-- The characters form an identifier. -/
def isIdentifier : List Char → Bool
  | [] => false
  | c :: cs => (k.alphabetic c || c == '_' || c == '$') &&
      cs.all fun d => k.alphanumeric d || d == '_' || d == '$'

/-- The expression of a text that starts at a position. -/
def parse (text : String) (span : Span) : Except ResolutionError Expr :=
  if (Dotted.split text).all fun segment => k.isIdentifier segment.toList then
    .ok (.ofSegments (Dotted.split text) (Dotted.split_ne_nil text) span)
  else .error ⟨span, .malformedPath text⟩

/-- The classes of Unicode. -/
def unicode : CharClasses where
  alphabetic := isAlphabetic
  alphanumeric c := isAlphabetic c || isNumeric c
  alphabetic_dot := by decide +kernel
  alphanumeric_dot := by decide +kernel

theorem isIdentifier_unicode (cs : List Char) :
    unicode.isIdentifier cs = FieldPath.isIdentifier cs := by
  have hpart : ∀ d, (unicode.alphanumeric d || d == '_' || d == '$') = isIdentifierPart d := by
    intro d
    rw [isIdentifierPart, isIdentifierStart, unicode, Bool.or_right_comm (isAlphabetic d),
      Bool.or_right_comm (isAlphabetic d || d == '_')]
  cases cs with
  | nil => rfl
  | cons c cs =>
    rw [isIdentifier, isIdentifier_cons, funext hpart]
    rfl

/-- Paths are read with the classes of Unicode. -/
theorem parse_unicode (text : String) (span : Span) :
    Expr.parse text span = unicode.parse text span := by
  have hsegment : (fun segment : String => unicode.isIdentifier segment.toList) =
      fun segment => FieldPath.isIdentifier segment.toList :=
    funext fun segment => isIdentifier_unicode segment.toList
  rw [parse, hsegment]
  rfl

end CharClasses

namespace CharClasses

variable {k : CharClasses} {s text : String} {ids : List String} {span : Span}

theorem isIdentifier_iff : k.isIdentifier s.toList = true ↔ k.Identifier s := by
  unfold Identifier
  cases s.toList with
  | nil => simp [isIdentifier]
  | cons c cs => simp [isIdentifier, Starts, Continues, or_assoc]

/-- No identifier has a dot. -/
theorem Identifier.plain (h : k.Identifier s) : Dotted.Plain s := by
  obtain ⟨c, cs, hs, hstart, hrest⟩ := h
  intro hdot
  rw [hs] at hdot
  rcases List.mem_cons.mp hdot with rfl | hdot
  · simp [Starts, k.alphabetic_dot] at hstart
  · simpa [Continues, k.alphanumeric_dot] using hrest _ hdot

/-- The texts of the grammar are the joined identifiers. -/
theorem path_iff : k.Path text ids ↔
    ids ≠ [] ∧ (∀ s ∈ ids, k.Identifier s) ∧ Dotted.join ids = text := by
  constructor
  · intro h
    induction h with
    | one hs => exact ⟨List.cons_ne_nil _ _, by simpa using hs, rfl⟩
    | dot hs _ ih =>
      obtain ⟨hne, hids, hjoin⟩ := ih
      exact ⟨List.cons_ne_nil _ _, List.forall_mem_cons.mpr ⟨hs, hids⟩, by
        rw [Dotted.join_cons hne, hjoin]⟩
  · rintro ⟨hne, hids, rfl⟩
    induction ids with
    | nil => exact absurd rfl hne
    | cons s rest ih =>
      obtain ⟨hs, hrest⟩ := List.forall_mem_cons.mp hids
      by_cases hnil : rest = []
      · subst hnil
        exact .one hs
      · rw [Dotted.join_cons hnil]
        exact .dot hs (ih hnil hrest)

/-- The identifiers of a path are what its dots separate. -/
theorem Path.split_eq (h : k.Path text ids) : Dotted.split text = ids := by
  obtain ⟨hne, hids, rfl⟩ := path_iff.mp h
  exact Dotted.split_join hne fun s hs => (hids s hs).plain

end CharClasses

/-! ### What is read -/

namespace Expr

/-- The expression that some identifiers stand for: one is a name, and several are a field after a
path. -/
inductive Reads (span : Span) : List String → Expr → Prop where
  /-- One identifier. -/
  | name (s : String) : Reads span [s] (ofName s span)
  /-- Several identifiers, of which the last one is the field. -/
  | field {segments : List String} (s : String) :
      segments ≠ [] → Reads span (segments ++ [s]) (.path segments s span)

theorem reads_ofSegments (segments : List String) (h : segments ≠ []) (span : Span) :
    Reads span segments (ofSegments segments h span) := by
  rcases ofSegments_cases segments h span with ⟨name, hname, heq⟩ | ⟨before, last, hne, hpath, heq⟩
  · rw [heq, hname]
    exact .name name
  · rw [heq, hpath]
    exact .field last hne

/-- What is read is written as its identifiers. -/
theorem Reads.text {span : Span} {ids : List String} {e : Expr} (h : Reads span ids e) :
    e.text = Dotted.join ids := by
  cases h <;> rfl

theorem Reads.span_eq {span : Span} {ids : List String} {e : Expr} (h : Reads span ids e) :
    e.span = span := by
  cases h <;> rfl

end Expr

namespace CharClasses

/-- **What is read is a path, and nothing else is read.** -/
theorem parse_cases (k : CharClasses) (text : String) (span : Span) :
    (∃ ids e, k.Path text ids ∧ k.parse text span = .ok e ∧ e.Reads span ids) ∨
      (∀ ids, ¬ k.Path text ids) ∧ k.parse text span = .error ⟨span, .malformedPath text⟩ := by
  unfold parse
  split
  · next hall =>
    refine Or.inl ⟨Dotted.split text, _, path_iff.mpr ⟨Dotted.split_ne_nil text, fun s hs => ?_,
      Dotted.join_split text⟩, rfl, Expr.reads_ofSegments _ _ _⟩
    exact isIdentifier_iff.mp (List.all_eq_true.mp hall s hs)
  · next hnot =>
    refine Or.inr ⟨fun ids hpath => hnot ?_, rfl⟩
    rw [hpath.split_eq]
    exact List.all_eq_true.mpr fun s hs => isIdentifier_iff.mpr ((path_iff.mp hpath).2.1 s hs)

theorem parse_of_path {k : CharClasses} {text : String} {ids : List String}
    (h : k.Path text ids) (span : Span) : ∃ e, k.parse text span = .ok e ∧ e.Reads span ids := by
  rcases k.parse_cases text span with ⟨ids', e, h', hparse, hreads⟩ | ⟨hnot, -⟩
  · obtain rfl := h.split_eq.symm.trans h'.split_eq
    exact ⟨e, hparse, hreads⟩
  · exact absurd h (hnot ids)

/-- What is read tells the text and the span. -/
theorem parse_inj {k : CharClasses} {text text' : String} {span span' : Span}
    (h : k.parse text span = k.parse text' span') : text = text' ∧ span = span' := by
  rcases k.parse_cases text span with ⟨ids, e, hpath, hparse, hreads⟩ | ⟨-, hparse⟩ <;>
    rcases k.parse_cases text' span' with ⟨ids', e', hpath', hparse', hreads'⟩ | ⟨-, hparse'⟩ <;>
    rw [hparse, hparse'] at h
  · obtain rfl := Except.ok.inj h
    obtain ⟨-, -, hjoin⟩ := path_iff.mp hpath
    obtain ⟨-, -, hjoin'⟩ := path_iff.mp hpath'
    have htext : text = text' := by rw [← hjoin, ← hjoin', ← hreads.text, hreads'.text]
    exact ⟨htext, hreads.span_eq.symm.trans hreads'.span_eq⟩
  · exact absurd h nofun
  · exact absurd h nofun
  · have herror := Except.error.inj h
    simp only [ResolutionError.mk.injEq, ResolutionCause.malformedPath.injEq] at herror
    exact ⟨herror.2, herror.1⟩

end CharClasses

/-- **Reading accepts the grammar and undoes writing.**  Paths are read with the classes of Unicode,
and the rest holds of any classes of characters.  A text of the grammar is read as the expression
that its identifiers stand for, and the expression is written as the text; every other text is
malformed, and the error has the text and the span.  Joined identifiers are read as just these
identifiers, and no other list of identifiers makes the same text.  So two texts are the same if
what is read from them is. -/
theorem parse_language (k : CharClasses) (text : String) (span : Span) :
    Expr.parse text span = CharClasses.unicode.parse text span ∧
    ((∃ ids e, k.Path text ids ∧ k.parse text span = .ok e ∧ e.Reads span ids ∧ e.text = text) ∨
      (∀ ids, ¬ k.Path text ids) ∧ k.parse text span = .error ⟨span, .malformedPath text⟩) ∧
    (∀ ids, ids ≠ [] → (∀ s ∈ ids, k.Identifier s) →
      ∃ e, k.parse (Dotted.join ids) span = .ok e ∧ e.Reads span ids) ∧
    (∀ ids ids', k.Path text ids → k.Path text ids' → ids = ids') ∧
    (∀ text' span', k.parse text span = k.parse text' span' → text = text' ∧ span = span') := by
  refine ⟨CharClasses.parse_unicode text span, ?_, fun ids hne hids => ?_, fun ids ids' h h' => ?_,
    fun text' span' heq => ?_⟩
  · refine (k.parse_cases text span).imp_left fun ⟨ids, e, hpath, hparse, hreads⟩ => ?_
    obtain ⟨-, -, hjoin⟩ := CharClasses.path_iff.mp hpath
    exact ⟨ids, e, hpath, hparse, hreads, hreads.text.trans hjoin⟩
  · exact CharClasses.parse_of_path (CharClasses.path_iff.mpr ⟨hne, hids, rfl⟩) span
  · exact h.split_eq.symm.trans h'.split_eq
  · exact CharClasses.parse_inj heq

-- Letters of any alphabet are read.  Two dots in a row leave an empty segment, which is no
-- identifier.
example : Expr.parse "$0.größe" ⟨3, 7, 9⟩ = .ok (.path ["$0"] "größe" ⟨3, 7, 9⟩) := by rfl

example : Expr.parse "a..b" ⟨1, 1, 4⟩ = .error ⟨⟨1, 1, 4⟩, .malformedPath "a..b"⟩ := by rfl

end FieldPath
