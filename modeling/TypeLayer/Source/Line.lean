/-!
# Lines of a report

How a source text is cut into the lines that a report shows.  A line keeps the
characters that end it, so that the lines of a text add up to the text.  A line end
at the end of the text opens no further line: the position after it belongs to the
line that it ends.
-/

namespace TypeLayer

/-- The characters that end a line: line feed, vertical tab, form feed, carriage
return, next line, line separator and paragraph separator. -/
def endsLine (c : Char) : Bool :=
  [0x0A, 0x0B, 0x0C, 0x0D, 0x85, 0x2028, 0x2029].contains c.toNat

/-- Puts a character in front of the first line. -/
def extendFirst (c : Char) : List (List Char) → List (List Char)
  | [] => [[c]]
  | line :: rest => (c :: line) :: rest

/-- The lines of a text. A carriage return and the line feed after it end a line
together. -/
def lines : List Char → List (List Char)
  | [] => []
  | '\r' :: '\n' :: rest => ['\r', '\n'] :: lines rest
  | c :: rest => if endsLine c then [c] :: lines rest else extendFirst c (lines rest)

theorem flatten_extendFirst (c : Char) (ls : List (List Char)) :
    (extendFirst c ls).flatten = c :: ls.flatten := by
  cases ls <;> simp [extendFirst]

/-- Nothing is lost when a text is cut into lines. -/
theorem flatten_lines (text : List Char) : (lines text).flatten = text := by
  fun_induction lines text with
  | case1 => rfl
  | case2 rest ih => simp [ih]
  | case3 c rest _ hc ih => simp [ih]
  | case4 c rest _ hc ih => simp [flatten_extendFirst, ih]

/-- A position in a text: the number of its line, counted from one, the line, and
the characters in front of it there. -/
structure Place where
  number : Nat
  line : List Char
  column : Nat
deriving Repr, DecidableEq

/-- The place of an offset in a list of lines of which the first has the given
number. The last line holds every offset that the others do not. -/
def Place.among (number : Nat) : List (List Char) → Nat → Place
  | [], offset => ⟨number, [], offset⟩
  | [line], offset => ⟨number, line, offset⟩
  | line :: next :: rest, offset =>
    if offset < line.length then ⟨number, line, offset⟩
    else among (number + 1) (next :: rest) (offset - line.length)

/-- The place of an offset in a text. -/
def Place.of (text : List Char) (offset : Nat) : Place :=
  among 1 (lines text) offset

end TypeLayer
