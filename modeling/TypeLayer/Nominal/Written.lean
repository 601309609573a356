import TypeLayer.Application
import TypeLayer.Nominal.Registry

/-!
# Written forms of nominal types

Two texts for a nominal type: the one to show, and the mangled one that a linker
sees.  Both follow the parameters of a type, which nest at most as deep as there
are types.
-/

namespace TypeLayer.Registry

/-! ## Shown form -/

/-- The shown form, with a bound on the nesting of parameters. -/
def displayWithin (r : Registry) : Nat → TypeId → Except Fault String
  | 0, _ => .error .endless
  | depth + 1, id => do
    let (type, family) ← r.entry id
    if type.specialized then
      match family.style with
      | .integer | .floating => return family.name
      | .method =>
        match type.params with
        | [] => throw .missingParameter
        | result :: args => do
          let args := Application.list (← args.mapM (r.displayWithin depth))
          let result ← r.displayWithin depth result
          return "Fn" ++ Text.braced ((if args.isEmpty then " : " else args ++ " : ") ++ result)
      | .object | .union | .tuple | .slice => do
        return Application.plain family.name (← type.params.mapM (r.displayWithin depth))
    else
      return Application.plain family.name family.paramNames

/-- The type as text. A template shows the names of its parameters; a method shows
its arguments before its result. -/
def display (r : Registry) (id : TypeId) : Except Fault String :=
  r.displayWithin (r.size + 1) id

/-! ## Mangled form -/

/-- A text with its length in bytes before it. -/
def counted (text : String) : String :=
  text.utf8ByteSize.repr ++ text

/-- The mangled name of a number, which depends on its width only. -/
def mangledNumber? (f : Family) : Option String :=
  match f.style with
  | .integer => some ("i" ++ f.bits.repr)
  | .floating =>
    match f.bits with
    | 32 => some "float"
    | 64 => some "double"
    | bits => some ("f" ++ bits.repr)
  | _ => none

/-- What the mangled names of a family of other types begin with. -/
def mangledStem (f : Family) : String :=
  match f.style with
  | .object => "o." ++ f.name
  | style => style.render ++ "."

/-- The mangled form, with a bound on the nesting of parameters. -/
def mangledWithin (r : Registry) : Nat → TypeId → Except Fault String
  | 0, _ => .error .endless
  | depth + 1, id => do
    let (type, family) ← r.entry id
    match mangledNumber? family with
    | some name => return name
    | none =>
      if type.params.isEmpty then
        return mangledStem family
      else do
        let names ← type.params.mapM (r.mangledWithin depth)
        return mangledStem family ++ "$"
          ++ counted (String.join (names.map fun name => "_" ++ counted name))

/-- The name of the type for a linker. Parameters are written with their lengths,
so that they cannot run into each other. -/
def mangled (r : Registry) (id : TypeId) : Except Fault String :=
  r.mangledWithin (r.size + 1) id

end TypeLayer.Registry
