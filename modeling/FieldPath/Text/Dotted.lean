/-!
# Dotted text

Class names and field paths are written as segments with single dots between them.  `split` cuts a
text at every dot and `join` puts segments together again.  A text without a dot is one segment, so
`split` never answers the empty list.

## Main definitions

* `Dotted.pieces` — the first piece of a list of characters and the pieces after it.
* `Dotted.split`, `Dotted.join` — the same on strings.
-/

namespace FieldPath

namespace Dotted

/-- The piece before the first dot, and the pieces after it.  Two dots in a row, or a dot at an end,
bound an empty piece. -/
def pieces : List Char → List Char × List (List Char)
  | [] => ([], [])
  | c :: cs =>
      let rest := pieces cs
      if c = '.' then ([], rest.1 :: rest.2) else (c :: rest.1, rest.2)

/-- The segments of a text, from left to right. -/
def split (s : String) : List String :=
  let p := pieces s.toList
  String.ofList p.1 :: p.2.map String.ofList

/-- The segments with one dot between each two. -/
def join : List String → String
  | [] => ""
  | [s] => s
  | s :: t :: rest => s ++ "." ++ join (t :: rest)

@[simp] theorem pieces_nil : pieces [] = ([], []) := rfl

@[simp] theorem pieces_dot (cs : List Char) :
    pieces ('.' :: cs) = ([], (pieces cs).1 :: (pieces cs).2) := by
  simp [pieces]

theorem pieces_cons {c : Char} (h : c ≠ '.') (cs : List Char) :
    pieces (c :: cs) = (c :: (pieces cs).1, (pieces cs).2) := by
  simp [pieces, h]

@[simp] theorem split_ne_nil (s : String) : split s ≠ [] := by
  simp [split]

@[simp] theorem join_nil : join [] = "" := rfl

@[simp] theorem join_singleton (s : String) : join [s] = s := rfl

@[simp] theorem join_cons_cons (s t : String) (rest : List String) :
    join (s :: t :: rest) = s ++ "." ++ join (t :: rest) := rfl

end Dotted

end FieldPath
