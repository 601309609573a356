import TypeLayer.TypeExpr.ReadError
import TypeLayer.Text.Blank

/-!
# Tokens of a type expression

A type expression is written with words, three pairs of delimiters, commas and
arrows.  `tokenize` cuts a text into them, skipping blanks and taking words as
long as possible, and gives each token the bytes it stands on.
-/

namespace TypeLayer

/-- The three pairs of delimiters. -/
inductive Delimiter where
  | brace
  | paren
  | bracket
deriving Repr, DecidableEq

namespace Delimiter

def opening : Delimiter → Char
  | brace => '{'
  | paren => '('
  | bracket => '['

def closing : Delimiter → Char
  | brace => '}'
  | paren => ')'
  | bracket => ']'

end Delimiter

namespace Token

inductive Kind where
  | word (name : String)
  | opening (d : Delimiter)
  | closing (d : Delimiter)
  | comma
  | arrow
deriving Repr, DecidableEq

/-- The characters a token is written with. -/
def Kind.text : Kind → String
  | .word name => name
  | .opening d => d.opening.toString
  | .closing d => d.closing.toString
  | .comma => ","
  | .arrow => "->"

end Token

/-- A token and the bytes it stands on. -/
structure Token where
  kind : Token.Kind
  span : Span
deriving Repr, DecidableEq

/-! ## Character classes -/

/-- The token that a character makes on its own. -/
def punctuation? (c : Char) : Option Token.Kind :=
  match c with
  | '{' => some (.opening .brace)
  | '}' => some (.closing .brace)
  | '(' => some (.opening .paren)
  | ')' => some (.closing .paren)
  | '[' => some (.opening .bracket)
  | ']' => some (.closing .bracket)
  | ',' => some .comma
  | _ => none

/-- Words start with an ASCII letter or an underscore. -/
def isWordStart (c : Char) : Bool :=
  c.isAlpha || c == '_'

/-- Words go on with ASCII letters, digits and underscores. -/
def isWordPart (c : Char) : Bool :=
  c.isAlphanum || c == '_'

/-! ## Cutting a text into tokens -/

theorem length_dropWhile_le (p : Char → Bool) (cs : List Char) :
    (cs.dropWhile p).length ≤ cs.length :=
  (List.dropWhile_suffix p).length_le

/-- The tokens of the characters that start at a byte offset. A dash that does
not begin an arrow is refused before the character after it is looked at. -/
def tokensFrom (offset : Nat) (cs : List Char) : Except ReadError (List Token) :=
  match cs with
  | [] => .ok []
  | '-' :: '>' :: rest =>
    (⟨.arrow, ⟨offset, offset + 2⟩⟩ :: ·) <$> tokensFrom (offset + 2) rest
  | '-' :: _ => .error ⟨.incompleteArrow, ⟨offset, offset + 1⟩⟩
  | c :: rest =>
    if Text.isBlank c then
      tokensFrom (offset + c.utf8Size) rest
    else if isWordStart c then
      let word := c :: rest.takeWhile isWordPart
      let stop := offset + word.length
      (⟨.word (String.ofList word), ⟨offset, stop⟩⟩ :: ·) <$>
        tokensFrom stop (rest.dropWhile isWordPart)
    else
      match punctuation? c with
      | some kind => (⟨kind, ⟨offset, offset + 1⟩⟩ :: ·) <$> tokensFrom (offset + 1) rest
      | none => .error ⟨.unexpectedCharacter c, ⟨offset, offset + c.utf8Size⟩⟩
termination_by cs.length
decreasing_by
  all_goals simp only [List.length_cons]
  all_goals first | omega | exact Nat.lt_succ_of_le (length_dropWhile_le _ _)

/-- The tokens of a text. -/
def tokenize (source : String) : Except ReadError (List Token) :=
  tokensFrom 0 source.toList

end TypeLayer
