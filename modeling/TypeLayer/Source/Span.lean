/-!
# Spans of a source text

Positions in a source text are byte offsets into its UTF-8 form.  A span is a
half-open range of them.  This file holds the span operations and the map from
an offset to the line and column a person would name.
-/

namespace TypeLayer

/-- The bytes from `start` up to, but not including, `stop`. Nothing forces
`start ≤ stop`: a span built by hand may be reversed. -/
structure Span where
  start : Nat
  stop : Nat
deriving Repr, DecidableEq, Inhabited

namespace Span

/-- The span between two offsets, if they are in order. -/
def between? (start stop : Nat) : Option Span :=
  if start ≤ stop then some ⟨start, stop⟩ else none

/-- The empty span at an offset. -/
def point (offset : Nat) : Span :=
  ⟨offset, offset⟩

/-- The number of bytes covered; a reversed span has none. -/
def length? (s : Span) : Option Nat :=
  if s.start ≤ s.stop then some (s.stop - s.start) else none

def isEmpty (s : Span) : Bool :=
  s.start == s.stop

/-- The smallest span that covers both. -/
def merge (a b : Span) : Span :=
  ⟨min a.start b.start, max a.stop b.stop⟩

theorem merge_comm (a b : Span) : a.merge b = b.merge a := by
  simp [merge, Nat.min_comm, Nat.max_comm]

end Span

/-! ## Lines and columns -/

/-- The bytes of a text in UTF-8. -/
def utf8Bytes (source : String) : List UInt8 :=
  source.toUTF8.data.toList

theorem length_utf8Bytes (source : String) : (utf8Bytes source).length = source.utf8ByteSize :=
  rfl

/-- The byte that ends a line. It never occurs inside a longer character. -/
def lineFeed : UInt8 := 10

/-- Line and column, both counted from one, of the position after the given
bytes. The column counts bytes since the last line feed. -/
def positionAfter (before : List UInt8) : Nat × Nat :=
  (before.count lineFeed + 1, (before.reverse.takeWhile (· ≠ lineFeed)).length + 1)

/-- Line and column of a byte offset. An offset beyond the text means its end. -/
def lineAndColumn (source : String) (offset : Nat) : Nat × Nat :=
  positionAfter ((utf8Bytes source).take offset)

end TypeLayer
