import TypeLayer.Source.Span
import TypeLayer.Text.Quoted

/-!
# Errors of reading a type expression

What can be wrong with the text of a type expression, where, and the sentence that
says so.
-/

namespace TypeLayer

namespace ReadError

/-- The ways in which a text fails to be a type expression. -/
inductive Kind where
  /-- A character that starts no token. -/
  | unexpectedCharacter (c : Char)
  /-- A token that cannot stand where it does. -/
  | unexpectedToken (found expected : String)
  /-- The text ends where something has to follow. -/
  | unexpectedEnd (expected : String)
  /-- The text ends inside a delimiter that was opened. -/
  | unclosedDelimiter (opening : Char)
  /-- A dash that no `>` follows. -/
  | incompleteArrow
deriving Repr, DecidableEq

/-- The sentence that describes the error. -/
def Kind.message : Kind → String
  | .unexpectedCharacter c => "unexpected character: " ++ Text.quotedChar c
  | .unexpectedToken found expected => "expected " ++ expected ++ ", found `" ++ found ++ "`"
  | .unexpectedEnd expected => "expected " ++ expected ++ ", found end of input"
  | .unclosedDelimiter opening => "unclosed delimiter `" ++ opening.toString ++ "`"
  | .incompleteArrow => "expected `->`"

end ReadError

/-- An error and the span it is about. -/
structure ReadError where
  kind : ReadError.Kind
  span : Span
deriving Repr, DecidableEq

def ReadError.message (e : ReadError) : String :=
  e.kind.message

end TypeLayer
