import TypeLayer.Text.Unprintable

/-!
# Braces and quotes

Three written forms: a text between braces, a character between single quotes,
as it stands in a message, and a string between double quotes, as it stands in a
JSON document.
-/

namespace TypeLayer.Text

/-- A text between braces. -/
def braced (text : String) : String :=
  '{'.toString ++ text ++ '}'.toString

@[simp] theorem toList_braced (text : String) :
    (braced text).toList = '{' :: (text.toList ++ ['}']) := by
  simp [braced, Char.toString]

/-- The lower-case hexadecimal digits of a number, without leading zeros. -/
def hexDigits (n : Nat) : String :=
  String.ofList (Nat.toDigits 16 n)

/-- The four-digit hexadecimal form of a number below `2 ^ 16`. -/
def hexDigits4 (n : Nat) : String :=
  let digits := Nat.toDigits 16 n
  String.ofList (List.replicate (4 - digits.length) '0' ++ digits)

/-! ## Characters in messages -/

/-- The body of a quoted character. Short escapes come first, so that the
controls that have one are not spelled by number. -/
def escapedChar (c : Char) : String :=
  match c with
  | '\x00' => "\\0"
  | '\t' => "\\t"
  | '\r' => "\\r"
  | '\n' => "\\n"
  | '\x27' => "\\\x27"
  | '\x5c' => "\\\\"
  | c => if isUnprintable c then "\\u" ++ braced (hexDigits c.toNat) else c.toString

/-- A character between single quotes. -/
def quotedChar (c : Char) : String :=
  "\x27" ++ escapedChar c ++ "\x27"

/-! ## Strings in JSON documents -/

/-- The escaped form of a character in a JSON string. Only quotes, backslashes
and the characters below the space are escaped. -/
def jsonChar (c : Char) : String :=
  match c with
  | '\x22' => "\\\x22"
  | '\x5c' => "\\\\"
  | '\n' => "\\n"
  | '\r' => "\\r"
  | '\t' => "\\t"
  | '\x08' => "\\b"
  | '\x0c' => "\\f"
  | c => if c.toNat < 0x20 then "\\u" ++ hexDigits4 c.toNat else c.toString

/-- A string between double quotes. -/
def jsonString (s : String) : String :=
  "\x22" ++ String.join (s.toList.map jsonChar) ++ "\x22"

end TypeLayer.Text
