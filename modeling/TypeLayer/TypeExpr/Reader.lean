import TypeLayer.TypeExpr.Basic
import TypeLayer.TypeExpr.Token

/-!
# Reading a type expression

The grammar is

    type := atom ("->" type)?
    atom := WORD ("{" type ("," type)* "}")? | "()" | "(" type ("," type)* ")" | "[" type "]"

The reader takes one token at a time.  It holds the constructs that are open,
innermost first, and what it has read since; so it refuses a token as soon as no
text could go on from there, and after the last token the innermost open
delimiter is the one to report.
-/

namespace TypeLayer

namespace Reader

/-- A construct that has been begun and waits for the rest of itself. Items are
kept newest first. -/
inductive Frame where
  /-- After `domain ->` the codomain is missing. -/
  | codomain (domain : TypeExpr)
  /-- After `name{items,` an item or the closing brace is missing. -/
  | arguments (name : String) (span opening : Span) (items : List TypeExpr)
  /-- After `(items,` an item or the closing parenthesis is missing. -/
  | group (opening : Span) (items : List TypeExpr)
  /-- After `[` the element is missing. -/
  | element (opening : Span)
deriving Repr, DecidableEq

/-- What has been read since the innermost frame was begun or continued. -/
inductive Focus where
  /-- Nothing: a type has to follow. -/
  | nothing
  /-- A word, which may still take arguments. -/
  | word (name : String) (span : Span)
  /-- An atom that is complete. -/
  | atom (node : TypeExpr)
deriving Repr, DecidableEq

end Reader

/-- The state of reading, between two tokens. -/
structure Reader where
  frames : List Reader.Frame
  focus : Reader.Focus
deriving Repr, DecidableEq

namespace Reader

/-- Nothing has been read. -/
def start : Reader :=
  ⟨[], .nothing⟩

/-- A name is a type parameter unless it starts with an upper-case letter. -/
def isParameter (name : String) : Bool :=
  match name.toList with
  | [] => true
  | c :: _ => !c.isUpper

/-- A name with its arguments. -/
def named (name : String) (params : List TypeExpr) (span : Span) : TypeExpr :=
  { name, params, parameter := isParameter name, span }

/-- Completes the arrows that end with the given type. Arrows associate to the
right, so the innermost one is completed first. -/
def closeArrows : List Frame → TypeExpr → List Frame × TypeExpr
  | .codomain domain :: frames, node => closeArrows frames (.arrow domain node)
  | frames, node => (frames, node)

/-- The token that may follow a complete type, in words. -/
def expectedAfterType : List Frame → String
  | .arguments .. :: _ => "`,` or `" ++ Delimiter.brace.closing.toString ++ "`"
  | .group .. :: _ => "`,` or `)`"
  | .element .. :: _ => "`]`"
  | _ => "end of input"

def unexpected (token : Token) (expected : String) : ReadError :=
  ⟨.unexpectedToken token.kind.text expected, token.span⟩

/-- Takes a token where a type has to begin. A parenthesis may be closed right
after it was opened. -/
def beginType (frames : List Frame) (token : Token) : Except ReadError Reader :=
  match token.kind, frames with
  | .word name, frames => .ok ⟨frames, .word name token.span⟩
  | .opening .paren, frames => .ok ⟨.group token.span [] :: frames, .nothing⟩
  | .opening .bracket, frames => .ok ⟨.element token.span :: frames, .nothing⟩
  | .closing .paren, .group opening [] :: frames =>
    .ok ⟨frames, .atom (.tuple [] (opening.merge token.span))⟩
  | _, _ => .error (unexpected token "a type")

/-- Takes a token other than an arrow after a complete type. One parenthesized
type is that type itself, under its own span. -/
def endType (frames : List Frame) (node : TypeExpr) (token : Token) :
    Except ReadError Reader :=
  match frames, token.kind with
  | .arguments name span opening items :: frames, .comma =>
    .ok ⟨.arguments name span opening (node :: items) :: frames, .nothing⟩
  | .arguments name span _ items :: frames, .closing .brace =>
    .ok ⟨frames, .atom (named name (node :: items).reverse (span.merge token.span))⟩
  | .group opening items :: frames, .comma =>
    .ok ⟨.group opening (node :: items) :: frames, .nothing⟩
  | .group opening items :: frames, .closing .paren =>
    .ok ⟨frames, .atom (if items.isEmpty then node
      else .tuple (node :: items).reverse (opening.merge token.span))⟩
  | .element opening :: frames, .closing .bracket =>
    .ok ⟨frames, .atom (.slice node (opening.merge token.span))⟩
  | frames, _ => .error (unexpected token (expectedAfterType frames))

/-- Takes a token after an atom: an arrow makes the atom a domain, and anything
else ends the type that the atom completes. -/
def afterAtom (frames : List Frame) (node : TypeExpr) (token : Token) :
    Except ReadError Reader :=
  if token.kind = .arrow then
    .ok ⟨.codomain node :: frames, .nothing⟩
  else
    let (frames, node) := closeArrows frames node
    endType frames node token

/-- Takes the next token. -/
def step (r : Reader) (token : Token) : Except ReadError Reader :=
  match r.focus with
  | .nothing => beginType r.frames token
  | .word name span =>
    if token.kind = .opening .brace then
      .ok ⟨.arguments name span token.span [] :: r.frames, .nothing⟩
    else
      afterAtom r.frames (named name [] span) token
  | .atom node => afterAtom r.frames node token

/-- The complete type after the last token, or what is still open. -/
def endInput (frames : List Frame) (node : TypeExpr) : Except ReadError TypeExpr :=
  match closeArrows frames node with
  | (.arguments _ _ opening _ :: _, _) =>
    .error ⟨.unclosedDelimiter Delimiter.brace.opening, opening⟩
  | (.group opening _ :: _, _) => .error ⟨.unclosedDelimiter Delimiter.paren.opening, opening⟩
  | (.element opening :: _, _) => .error ⟨.unclosedDelimiter Delimiter.bracket.opening, opening⟩
  | (_, node) => .ok node

/-- Ends the input at a byte offset. -/
def finish (r : Reader) (offset : Nat) : Except ReadError TypeExpr :=
  match r.focus with
  | .nothing => .error ⟨.unexpectedEnd "a type", .point offset⟩
  | .word name span => endInput r.frames (named name [] span)
  | .atom node => endInput r.frames node

end Reader

/-- The type expression that a text spells. -/
def TypeExpr.parse (source : String) : Except ReadError TypeExpr := do
  let tokens ← tokenize source
  let reader ← tokens.foldlM Reader.step Reader.start
  reader.finish source.utf8ByteSize

end TypeLayer
