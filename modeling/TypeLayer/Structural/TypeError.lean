import TypeLayer.Source.Span
import TypeLayer.Structural.Ty

/-!
# Errors between structural types

Why an equation between structural types was imposed, and the errors that
solving equations, converting type expressions and typing functions can end in.
-/

namespace TypeLayer

/-- The number of a value in its function. -/
abbrev ValueId := Nat

/-- The written form of a value. -/
def ValueId.render (v : ValueId) : String :=
  "%" ++ Nat.repr v

/-- What an equation between two types comes from. -/
inductive Origin where
  | ret (func : String)
  | store (value : ValueId)
  | binary (value : ValueId)
  | call (value : ValueId)
  | branch (value : ValueId)
  | written (span : Span)
  | builtin
deriving Repr, DecidableEq, Inhabited

namespace Origin

/-- The place in a source text; only type expressions have one. -/
def span? : Origin → Option Span
  | .written span => some span
  | _ => none

def render : Origin → String
  | .ret func => "return from `" ++ func ++ "`"
  | .store value => "store " ++ ValueId.render value
  | .binary value => "operands of " ++ ValueId.render value
  | .call value => "call " ++ ValueId.render value
  | .branch value => "condition of " ++ ValueId.render value
  | .written _ => "type annotation"
  | .builtin => "builtin constraint"

end Origin

inductive TypeError where
  /-- Two types with different constructors, or different numbers of arguments. -/
  | mismatch (expected found : Ty) (origin : Origin)
  /-- An unknown would have to contain itself. -/
  | infiniteType (var : TyVar) (ty : Ty) (origin : Origin)
  /-- A type parameter was given arguments. -/
  | parameterArity (name : String) (arity : Nat) (span : Span)
  /-- A function that was never published. -/
  | unknownGlobal (name : String)
deriving Repr, DecidableEq

namespace TypeError

/-- The equation the error is about. -/
def origin? : TypeError → Option Origin
  | .mismatch _ _ origin => some origin
  | .infiniteType _ _ origin => some origin
  | _ => none

def message : TypeError → String
  | .mismatch expected found _ =>
    "cannot unify `" ++ expected.render ++ "` with `" ++ found.render ++ "`"
  | .infiniteType var ty _ =>
    "infinite type: `" ++ Ty.varName var ++ "` occurs in `" ++ ty.render ++ "`"
  | .parameterArity name arity _ =>
    "type parameter `" ++ name ++ "` cannot take parameters (found " ++ arity.repr ++ ")"
  | .unknownGlobal name => "unknown global `" ++ name ++ "`"

end TypeError

end TypeLayer
