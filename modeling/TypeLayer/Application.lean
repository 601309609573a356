import TypeLayer.Text.Quoted

/-!
# Applied constructors

Every type of this library is a name applied to types.  Two names are reserved
and written in a form of their own: `->` with two arguments is an arrow, and
`()` is a tuple.  This file fixes the reserved names and the written form of an
application whose arguments are already written.
-/

namespace TypeLayer

/-- The constructor of arrows. -/
def arrowName : String := "->"

/-- The constructor of tuples; without arguments it is the unit type. -/
def tupleName : String := "()"

/-- The constructor that `[T]` stands for. -/
def sliceName : String := "Slice"

namespace Application

/-- Written arguments, separated by commas. -/
def list (args : List String) : String :=
  ", ".intercalate args

/-- A name with its arguments in braces; without arguments, the name alone. -/
def plain (name : String) (args : List String) : String :=
  if args.isEmpty then name else name ++ Text.braced (list args)

/-- An application, with arrows and tuples in their own form. -/
def written (name : String) (args : List String) : String :=
  match args with
  | [domain, codomain] =>
    if name = arrowName then "(" ++ domain ++ " -> " ++ codomain ++ ")"
    else if name = tupleName then "(" ++ list args ++ ")"
    else plain name args
  | args => if name = tupleName then "(" ++ list args ++ ")" else plain name args

end Application

end TypeLayer
