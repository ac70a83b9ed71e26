/-!
# `LineLexer.Span`: a range of positions in a line

Positions count bytes from the start of the line. A span holds the
positions from its start up to, and not including, its stop.
-/

set_option autoImplicit false

namespace LineLexer

/-- The positions from `start` up to `stop`, which is not one of them.
They are counted in bytes, from zero. -/
structure Span where
  start : Nat
  stop : Nat
  deriving DecidableEq, Repr, Inhabited

namespace Span

/-- The elements of a list at the positions of the span. -/
def slice {α : Type} (span : Span) (xs : List α) : List α :=
  (xs.take span.stop).drop span.start

/-- The span moved to the right by `offset` positions. -/
def shift (span : Span) (offset : Nat) : Span :=
  ⟨span.start + offset, span.stop + offset⟩

/-- A slice has as many elements as the span has positions, if these
all lie in the list. -/
theorem length_slice {α : Type} {span : Span} {xs : List α}
    (h : span.stop ≤ xs.length) : (span.slice xs).length = span.stop - span.start := by
  simp [slice, Nat.min_eq_left h]

/-- The slice of a middle part is that part. This is how the bytes of a
token are found in its line. -/
theorem slice_append {α : Type} (before middle after : List α) :
    (Span.mk before.length (before.length + middle.length)).slice
      (before ++ middle ++ after) = middle := by
  rw [slice, ← List.length_append, List.take_left, List.drop_left]

end Span

end LineLexer
