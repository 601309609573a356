import TypeLayer.TypeExpr.ReadError
import TypeLayer.Nominal.DatatypeError
import TypeLayer.Structural.TypeError

/-!
# Diagnostics

What is told about an error: a code, a sentence, the place in the source with a
label for it, and sometimes a piece of advice.  Each error of the library has
its diagnostic here, so this is the table of codes.
-/

namespace TypeLayer

structure Diagnostic where
  code : String
  message : String
  /-- The place in the source; without one the whole source is meant. -/
  span : Option Span
  label : String
  help : Option String
deriving Repr, DecidableEq

/-! ## Codes -/

def ReadError.diagnostic (e : ReadError) : Diagnostic where
  code := "P0001"
  message := "parse error: " ++ e.message
  span := some e.span
  label := e.message
  help := none

def TypeError.diagnostic (e : TypeError) : Diagnostic :=
  match e with
  | .mismatch expected found origin =>
    { code := "E0001", message := e.message, span := origin.span?
      label := "expected " ++ expected.render ++ ", found " ++ found.render
        ++ " (" ++ origin.render ++ ")"
      help := none }
  | .infiniteType _ _ origin =>
    { code := "E0002", message := e.message, span := origin.span?
      label := "recursive type here"
      help := some "a type cannot contain itself" }
  | .parameterArity _ _ span =>
    { code := "E0003", message := e.message, span := some span
      label := "type parameter applied to arguments"
      help := some "use an upper-case name to refer to a type constructor" }
  | .unknownGlobal name =>
    { code := "E0004", message := e.message, span := none
      label := "`" ++ name ++ "` is not defined"
      help := none }

/-- Code, place and label of an error between nominal types. -/
def DatatypeError.entry : DatatypeError → String × Option Span × String
  | .unspecializedSubtype _ => ("E0101", none, "generic type")
  | .unspecializedLowering _ => ("E0102", none, "generic type")
  | .unspecializedFields _ => ("E0103", none, "generic type")
  | .duplicateType _ => ("E0104", none, "defined again here")
  | .unknownType _ span => ("E0105", some span, "not found in scope")
  | .specializationArity _ _ _ => ("E0106", none, "wrong number of parameters")
  | .fieldOnNonObject _ _ => ("E0107", none, "not an object type")
  | .invalidFloatWidth _ _ => ("E0108", none, "unsupported width")
  | .parameterArity _ span => ("E0109", some span, "type parameter applied to arguments")

def DatatypeError.diagnostic (e : DatatypeError) : Diagnostic :=
  let (code, span, label) := e.entry
  { code, message := e.message, span, label, help := none }

/-! ## Places -/

/-- The span to show in a source of the given length: within the source, in
order, and not empty unless it stands at the end. -/
def Diagnostic.shownSpan (d : Diagnostic) (length : Nat) : Span :=
  let span := d.span.getD ⟨0, length⟩
  let start := min span.start length
  let stop := max (min span.stop length) start
  if start = stop then ⟨start, min (stop + 1) length⟩ else ⟨start, stop⟩

end TypeLayer
