import TypeLayer.Source.Span

/-!
# Errors of nominal types

What the registry, subtyping, lowering and the conversion of type expressions refuse.
-/

namespace TypeLayer

inductive DatatypeError where
  | unspecializedSubtype (name : String)
  | unspecializedLowering (name : String)
  | unspecializedFields (name : String)
  | duplicateType (name : String)
  | unknownType (name : String) (span : Span)
  | specializationArity (name : String) (expected found : Nat)
  | fieldOnNonObject (name field : String)
  | invalidFloatWidth (name : String) (bits : Nat)
  | parameterArity (name : String) (span : Span)
deriving Repr, DecidableEq

namespace DatatypeError

def message : DatatypeError → String
  | .unspecializedSubtype name => "cannot check subtyping on unspecialized type `" ++ name ++ "`"
  | .unspecializedLowering name => "cannot lower unspecialized type `" ++ name ++ "`"
  | .unspecializedFields name => "unspecialized type `" ++ name ++ "` has no concrete fields"
  | .duplicateType name => "type `" ++ name ++ "` is already defined"
  | .unknownType name _ => "unknown type `" ++ name ++ "`"
  | .specializationArity name expected found =>
    "invalid number of parameters to type `" ++ name ++ "`: expected " ++ expected.repr
      ++ ", found " ++ found.repr
  | .fieldOnNonObject name field =>
    "cannot add field `" ++ field ++ "` to `" ++ name ++ "`: only object types have fields"
  | .invalidFloatWidth name bits =>
    "float type `" ++ name ++ "` has " ++ bits.repr ++ " bits; floats must be 32 or 64 bits"
  | .parameterArity name _ => "type parameter `" ++ name ++ "` cannot take parameters"

end DatatypeError

end TypeLayer
