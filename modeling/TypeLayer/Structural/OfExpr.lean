import TypeLayer.Assoc
import TypeLayer.Structural.Unify
import TypeLayer.TypeExpr.Basic

/-!
# Structural types of type expressions

A type expression stands for the structural type of the same shape, with one new
unknown for each type parameter.  Parameters are told apart by name.
-/

namespace TypeLayer

/-- The state of a conversion: the table, and the unknowns of the parameters met
so far. -/
structure Conversion where
  table : Table
  params : Assoc String TyVar

namespace Conversion

/-- The unknown of a parameter, which is created when the name is first met. -/
def param (name : String) : Action Conversion TypeError Ty :=
  fun c => match c.params.get? name with
    | some v => .ok (.var v) c
    | none =>
      let (v, table) := c.table.fresh
      .ok (.var v) ⟨table, c.params.insert name v⟩

mutual
/-- Converts an expression from left to right. A parameter with arguments is
refused. -/
def convert : TypeExpr → Action Conversion TypeError Ty
  | { name, params, parameter, span } =>
    if parameter then
      if params.isEmpty then param name
      else Action.fail (.parameterArity name params.length span)
    else do
      return .con name (← convertAll params)
def convertAll : List TypeExpr → Action Conversion TypeError (List Ty)
  | [] => pure []
  | e :: rest => do
    let t ← convert e
    let ts ← convertAll rest
    return t :: ts
end

end Conversion

/-- The structural type of an expression, and the unknowns of its parameters. -/
def TypeExpr.toTy (e : TypeExpr) : Table.Solve (Ty × Assoc String TyVar) :=
  fun T => match Conversion.convert e ⟨T, ∅⟩ with
    | .ok t c => .ok (t, c.params) c.table
    | .error cause c => .error cause c.table
    | .fault f => .fault f

end TypeLayer
