/-!
# Positions in rule text

A span is a start position and a length in bytes.  Lines and columns count from one, and columns
count bytes, so the spans of the segments of a path are found by adding byte lengths.

## Main definitions

* `Span` — line, column and length.
* `Span.slice` — the part of a span at an offset, cut at the span's end.
* `Span.cover` — the least span around two spans of one line.
-/

namespace FieldPath

/-- A position in rule text and a length in bytes.  The three numbers have no bound here.  Kept in
32 bits they are the same as long as the line and `Span.endCol` are below 2 ^ 32; a theorem that
needs this bound states it. -/
structure Span where
  /-- The line, counted from one. -/
  line : Nat
  /-- The column of the first byte, counted from one. -/
  col : Nat
  /-- The length in bytes. -/
  len : Nat
  deriving DecidableEq, Repr, Inhabited

namespace Span

/-- The empty span at a position. -/
def point (line col : Nat) : Span := ⟨line, col, 0⟩

/-- A span is empty when it holds no byte. -/
def isEmpty (s : Span) : Bool := s.len == 0

/-- The column just after the last byte. -/
def endCol (s : Span) : Nat := s.col + s.len

/-- The part of `s` that starts `offset` bytes in and is `len` bytes long.  Both numbers are cut
so that the part stays inside `s`. -/
def slice (s : Span) (offset len : Nat) : Span :=
  let start := min offset s.len
  ⟨s.line, s.col + start, min len (s.len - start)⟩

/-- The position of `s` comes before that of `t`. -/
def startsBefore (s t : Span) : Bool :=
  s.line < t.line || (s.line == t.line && s.col < t.col)

/-- The least span around `s` and `t` when they share a line.  Spans of two lines have no common
length, so the one that starts first stands for both. -/
def cover (s t : Span) : Span :=
  if s.line = t.line then
    let col := min s.col t.col
    ⟨s.line, col, max s.endCol t.endCol - col⟩
  else if t.startsBefore s then t else s

/-- The form used in messages: the start position only. -/
def text (s : Span) : String := toString s.line ++ ":" ++ toString s.col

/-- The form with the length. -/
def fullText (s : Span) : String := s.text ++ "+" ++ toString s.len

@[simp] theorem isEmpty_point (line col : Nat) : (point line col).isEmpty = true := rfl

/-- A slice from the start keeps the position. -/
@[simp] theorem slice_zero (s : Span) (len : Nat) :
    s.slice 0 len = ⟨s.line, s.col, min len s.len⟩ := by
  simp [slice]

end Span

end FieldPath
