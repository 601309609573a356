import TypeLayer.Diagnostic.Basic
import TypeLayer.Source.Line
import TypeLayer.Text.Blank
import TypeLayer.Text.Json

/-!
# Reports

The written forms of a diagnostic: one JSON object on a line, or a report that
shows the line of the source and underlines the place, plain or colored.
-/

namespace TypeLayer

namespace Diagnostic

/-! ## JSON form -/

/-- The diagnostic as a JSON object with its keys in alphabetical order. -/
def toJson (d : Diagnostic) (file : String) (length : Nat) : Json :=
  let span := d.shownSpan length
  .object [
    ("code", .string d.code),
    ("file", .string file),
    ("fix", match d.help with | some help => .string help | none => .null),
    ("message", .string d.message),
    ("severity", .string "error"),
    ("spans", .array [.object [
      ("end", .number span.stop),
      ("label", .string d.label),
      ("start", .number span.start)]])]

/-! ## Report form -/

/-- The colors of a report: of the error and the underlined text, of the frame,
of the frame beside further lines, of the source, and of the word before the
advice. -/
inductive Color where
  | error
  | frame
  | continuation
  | source
  | advice
deriving Repr, DecidableEq

/-- The terminal's number of a color. -/
def Color.number : Color → String
  | error => "31"
  | frame => "38;5;246"
  | continuation => "38;5;240"
  | source => "38;5;249"
  | advice => "38;5;115"

/-- How a piece of text is colored, if at all. -/
abbrev Paint := Color → String → String

/-- Text without colors. -/
def Paint.none : Paint :=
  fun _ text => text

/-- Text between the terminal's sequences for a color and for no color. -/
def Paint.terminal : Paint :=
  fun color text => "\x1b[" ++ color.number ++ "m" ++ text ++ "\x1b[0m"

/-- Colors every character on its own. -/
def Paint.each (paint : Paint) (color : Color) (text : List Char) : String :=
  String.join (text.map fun c => paint color c.toString)

def spaces (n : Nat) : String :=
  String.ofList (List.replicate n ' ')

/-- Tabs reach to the next column that is a multiple of this. -/
def tabStop : Nat := 4

/-- What a report prints for a character of the source at a column, where columns
count characters. A tab is spelled out in spaces. -/
def cells (column : Nat) (c : Char) : List Char :=
  if c = '\t' then List.replicate (tabStop - column % tabStop) ' '
  else if Text.isBlank c then [' ']
  else [c]

/-- What a report prints for the characters of a line. Blanks at its end are left
out, and with them the characters that end it. -/
def printedLine (line : List Char) : List (List Char) :=
  let shown := (line.reverse.dropWhile Text.isBlank).reverse
  shown.zipIdx.map fun (c, column) => cells column c

/-- How many cells `count` columns from `start` on take up. A column beyond the end
of the line is one cell wide. -/
def extent (row : List (List Char)) (start count : Nat) : Nat :=
  let inside := (row.drop start).take count
  inside.flatten.length + (count - inside.length)

/-- The underline of the `width` columns from `column` on, with a tick in the middle,
and the pointer from the tick to the label. Both reach two columns further. A place
without width is marked by a bar. -/
def marks (paint : Paint) (row : List (List Char)) (column width : Nat) : String × String :=
  let rule (n : Nat) := List.replicate n '─'
  let half := width / 2
  let middle := column + half
  let underline :=
    if width = 0 then
      paint .error "│" ++ spaces (extent row (column + 1) 1)
    else
      paint.each .error
          (rule (extent row column half) ++ '┬' :: rule (extent row middle (width - half) - 1))
        ++ spaces (extent row (column + width) 2)
  (spaces (extent row 0 column) ++ underline,
    spaces (extent row 0 middle)
      ++ paint.each .error ('╰' :: rule (extent row middle (width - half + 2) - 1)))

/-- The report, over a source of ASCII characters whose marked place lies on one
line. -/
def report (d : Diagnostic) (source : String) (colored : Bool) : String :=
  let paint := if colored then Paint.terminal else Paint.none
  let span := d.shownSpan source.utf8ByteSize
  let place := Place.of source.toList span.start
  let row := printedLine place.line
  let width := span.stop - span.start
  let (underline, pointer) := marks paint row place.column width
  let number := place.number.repr
  let margin := number.length + 2
  let bar := " " ++ paint .continuation (spaces (margin - 1) ++ "│") ++ " "
  let head := [
    paint .error ("[" ++ d.code ++ "] Error:") ++ " " ++ d.message,
    spaces margin ++ paint .frame "╭" ++ paint .frame "─" ++ paint .frame "["
      ++ " <unknown>:" ++ number ++ ":" ++ (place.column + 1).repr ++ " " ++ paint .frame "]",
    spaces margin ++ paint .frame "│",
    " " ++ paint .frame (number ++ " │") ++ " "
      ++ paint.each .source (row.take place.column).flatten
      ++ paint.each .error ((row.drop place.column).take width).flatten
      ++ paint.each .source (row.drop (place.column + width)).flatten,
    bar ++ underline,
    bar ++ pointer ++ " " ++ d.label]
  let advice := match d.help with
    | some help => [bar, bar ++ paint .advice "Help" ++ ": " ++ help]
    | none => []
  let foot := [paint .frame (String.ofList (List.replicate margin '─') ++ "╯")]
  String.join ((head ++ advice ++ foot).map (· ++ "\n"))

/-! ## Choice of form -/

/-- The form in which diagnostics are written. -/
inductive Form where
  | json
  | text (colored : Bool)
deriving Repr, DecidableEq

/-- The diagnostic in the chosen form. Only the JSON form names the file. -/
def render (d : Diagnostic) (source file : String) : Form → String
  | .json => (d.toJson file source.utf8ByteSize).compact
  | .text colored => d.report source colored

end Diagnostic

end TypeLayer
