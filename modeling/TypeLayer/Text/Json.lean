import TypeLayer.Text.Quoted

/-!
# JSON documents

A JSON value whose objects keep their members in order, and its two written
forms: compact, and indented by two spaces per level.
-/

namespace TypeLayer

/-- A JSON value. Numbers are natural: no document of this library holds
another kind. -/
inductive Json where
  | null
  | number (n : Nat)
  | string (s : String)
  | array (items : List Json)
  | object (members : List (String × Json))
deriving Repr, Inhabited

namespace Json

/-! ## Compact form -/

mutual
/-- The document without any blanks. -/
def compact : Json → String
  | .null => "null"
  | .number n => n.repr
  | .string s => Text.jsonString s
  | .array items => "[" ++ ",".intercalate (compactItems items) ++ "]"
  | .object members => Text.braced (",".intercalate (compactMembers members))
def compactItems : List Json → List String
  | [] => []
  | item :: rest => compact item :: compactItems rest
def compactMembers : List (String × Json) → List String
  | [] => []
  | (key, value) :: rest => (Text.jsonString key ++ ":" ++ compact value) :: compactMembers rest
end

/-! ## Indented form -/

/-- A bracketed list with one entry per line, indented one level deeper than
its brackets. An empty list stays on one line. -/
def block (opening closing : Char) (level : Nat) (entries : List String) : String :=
  if entries.isEmpty then
    opening.toString ++ closing.toString
  else
    let newline (level : Nat) := "\n" ++ String.ofList (List.replicate (2 * level) ' ')
    opening.toString ++ newline (level + 1) ++ ("," ++ newline (level + 1)).intercalate entries
      ++ newline level ++ closing.toString

mutual
/-- The document with one entry per line, when its first line stands at the
given level. -/
def indentedAt (level : Nat) : Json → String
  | .null => "null"
  | .number n => n.repr
  | .string s => Text.jsonString s
  | .array items => block '[' ']' level (indentedItems (level + 1) items)
  | .object members => block '{' '}' level (indentedMembers (level + 1) members)
def indentedItems (level : Nat) : List Json → List String
  | [] => []
  | item :: rest => indentedAt level item :: indentedItems level rest
def indentedMembers (level : Nat) : List (String × Json) → List String
  | [] => []
  | (key, value) :: rest =>
    (Text.jsonString key ++ ": " ++ indentedAt level value) :: indentedMembers level rest
end

/-- The document with one entry per line. -/
def indented (document : Json) : String :=
  document.indentedAt 0

end Json

end TypeLayer
