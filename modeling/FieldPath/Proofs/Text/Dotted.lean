import FieldPath.Text.Dotted
import FieldPath.Text.Identifier

/-!
# Splitting and joining dotted text

`join` undoes `split` on every text, and `split` undoes `join` on segments that have no dot of
their own.  So texts and non-empty lists of plain segments correspond one to one, and a text that is
given by its segments can be read without looking at its characters.

* `Plain` — a text without a dot, as every piece of a `split` is.
* `join_split`, `split_join` — the two round trips.
* `utf8ByteSize_join` — the length of a joined text.
* `plain_of_isIdentifier` — identifiers are plain.
-/

namespace FieldPath

namespace Dotted

/-- The text has no dot. -/
def Plain (s : String) : Prop := '.' ∉ s.toList

/-! ### Pieces -/

theorem pieces_eq_self {cs : List Char} (h : '.' ∉ cs) : pieces cs = (cs, []) := by
  induction cs with
  | nil => rfl
  | cons c cs ih =>
    have hc : c ≠ '.' := fun hc => h (hc ▸ List.mem_cons_self)
    rw [pieces_cons hc, ih fun hm => h (List.mem_cons_of_mem c hm)]

/-- A dot between two texts separates their pieces. -/
theorem pieces_append_dot (cs ds : List Char) :
    pieces (cs ++ '.' :: ds) =
      ((pieces cs).1, (pieces cs).2 ++ (pieces ds).1 :: (pieces ds).2) := by
  induction cs with
  | nil => exact pieces_dot ds
  | cons c cs ih =>
    rw [List.cons_append]
    by_cases hc : c = '.'
    · subst hc
      rw [pieces_dot, pieces_dot, ih, List.cons_append]
    · rw [pieces_cons hc, pieces_cons hc, ih]

theorem notMem_pieces (cs : List Char) :
    '.' ∉ (pieces cs).1 ∧ ∀ p ∈ (pieces cs).2, '.' ∉ p := by
  induction cs with
  | nil => simp
  | cons c cs ih =>
    by_cases hc : c = '.'
    · subst hc
      rw [pieces_dot]
      exact ⟨List.not_mem_nil, List.forall_mem_cons.mpr ih⟩
    · rw [pieces_cons hc]
      refine ⟨fun hm => ?_, ih.2⟩
      rcases List.mem_cons.mp hm with hm | hm
      · exact hc hm.symm
      · exact ih.1 hm

/-! ### Segments -/

theorem join_cons {s : String} {rest : List String} (h : rest ≠ []) :
    join (s :: rest) = s ++ "." ++ join rest := by
  cases rest with
  | nil => exact absurd rfl h
  | cons t rest => rfl

theorem split_of_plain {s : String} (h : Plain s) : split s = [s] := by
  simp [split, pieces_eq_self h]

theorem split_append_dot (s t : String) : split (s ++ "." ++ t) = split s ++ split t := by
  have htext : (s ++ "." ++ t).toList = s.toList ++ '.' :: t.toList := by simp
  simp [split, htext, pieces_append_dot]

theorem plain_of_mem_split {s t : String} (h : s ∈ split t) : Plain s := by
  have hp := notMem_pieces t.toList
  rcases List.mem_cons.mp h with rfl | h
  · simpa [Plain] using hp.1
  · obtain ⟨p, hm, rfl⟩ := List.mem_map.mp h
    simpa [Plain] using hp.2 p hm

/-- Segments without dots are found again in the joined text. -/
theorem split_join {segments : List String} (hne : segments ≠ [])
    (h : ∀ s ∈ segments, Plain s) : split (join segments) = segments := by
  induction segments with
  | nil => exact absurd rfl hne
  | cons s rest ih =>
    have hs := h s List.mem_cons_self
    by_cases hrest : rest = []
    · subst hrest
      exact split_of_plain hs
    · rw [join_cons hrest, split_append_dot, split_of_plain hs,
        ih hrest fun t ht => h t (List.mem_cons_of_mem s ht)]
      rfl

/-- The segments of a text, joined, are the text. -/
theorem join_split (t : String) : join (split t) = t := by
  suffices h : ∀ cs, join (String.ofList (pieces cs).1 :: (pieces cs).2.map String.ofList) =
      String.ofList cs by
    rw [split, h, String.ofList_toList]
  intro cs
  induction cs with
  | nil => rfl
  | cons c cs ih =>
    by_cases hc : c = '.'
    · subst hc
      rw [pieces_dot, List.map_cons, join_cons_cons, ih]
      exact String.toList_inj.mp (by simp)
    · rw [pieces_cons hc]
      -- the character goes in front of the first piece, whatever follows it
      cases hrest : (pieces cs).2 with
      | nil =>
        rw [hrest] at ih
        simp only [List.map_nil, join_singleton] at ih ⊢
        exact String.toList_inj.mp (by simpa using congrArg String.toList ih)
      | cons p ps =>
        rw [hrest] at ih
        simp only [List.map_cons, join_cons_cons] at ih ⊢
        exact String.toList_inj.mp (by simpa using congrArg String.toList ih)

/-- A first segment that has a dot of its own could be two. -/
theorem join_dotted (s t : String) (rest : List String) :
    join ((s ++ "." ++ t) :: rest) = join (s :: t :: rest) := by
  cases rest with
  | nil => rfl
  | cons r rest => simp only [join_cons_cons, String.append_assoc]

/-- The bytes of the joined text are those of the segments, and one for each dot between them. -/
theorem utf8ByteSize_join (segments : List String) :
    (join segments).utf8ByteSize =
      (segments.map String.utf8ByteSize).foldr (· + ·) 0 + (segments.length - 1) := by
  induction segments with
  | nil => rfl
  | cons s rest ih =>
    cases rest with
    | nil => simp
    | cons t rest =>
      have hdot : ".".utf8ByteSize = 1 := rfl
      rw [join_cons_cons, String.utf8ByteSize_append, String.utf8ByteSize_append, ih, hdot]
      simp only [List.map_cons, List.foldr_cons, List.length_cons]
      omega

/-- Fewer segments have no more bytes. -/
theorem utf8ByteSize_join_take_le (segments : List String) {m n : Nat} (h : m ≤ n) :
    (join (segments.take m)).utf8ByteSize ≤ (join (segments.take n)).utf8ByteSize := by
  induction segments generalizing m n with
  | nil => simp
  | cons s rest ih =>
    match m, n, h with
    | 0, _, _ => simp
    | m + 1, n + 1, h =>
      have hrest := ih (Nat.le_of_succ_le_succ h)
      rw [utf8ByteSize_join, utf8ByteSize_join] at hrest
      rw [utf8ByteSize_join, utf8ByteSize_join]
      simp only [List.take_succ_cons, List.map_cons, List.foldr_cons, List.length_cons,
        List.length_take] at hrest ⊢
      omega

end Dotted

/-- No identifier has a dot. -/
theorem plain_of_isIdentifier {s : String} (h : isIdentifier s.toList = true) :
    Dotted.Plain s := by
  have hdot : isIdentifierStart '.' = false :=
    (Bool.or_eq_false_iff.mp isIdentifierPart_dot).1
  intro hm
  cases hs : s.toList with
  | nil => simp [hs] at hm
  | cons c cs =>
    rw [hs] at h hm
    rw [isIdentifier_cons, Bool.and_eq_true] at h
    rcases List.mem_cons.mp hm with rfl | hm
    · exact Bool.false_ne_true (hdot.symm.trans h.1)
    · exact Bool.false_ne_true (isIdentifierPart_dot.symm.trans (List.all_eq_true.mp h.2 _ hm))

end FieldPath
