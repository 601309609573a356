import TypeLayer.Nominal.Registry
import TypeLayer.Structural.Ty

/-!
# Structural images of nominal types

The structural type that a nominal type looks like from outside: tuples become
tuples, methods become arrows, and every other type is its name applied to the
images of its parameters.
-/

namespace TypeLayer.Registry

/-- The image of a type from the images of its parameters. -/
def imageOf (type : Datatype) (family : Family) (params : List Ty) : Ty :=
  match family.style, type.specialized with
  | .tuple, true => Ty.tuple params
  | .method, true =>
    match params with
    | result :: args => Ty.curried args result
    | [] => .con family.name []
  | _, _ => .con family.name params

/-- The image of a type, with a bound on the nesting of parameters. -/
def imageWithin (r : Registry) : Nat → TypeId → Except Fault Ty
  | 0, _ => .error .endless
  | depth + 1, id => do
    let (type, family) ← r.entry id
    let params ← type.params.mapM (r.imageWithin depth)
    return imageOf type family params

/-- The structural type of a nominal type. -/
def image (r : Registry) (id : TypeId) : Except Fault Ty :=
  r.imageWithin (r.size + 1) id

end TypeLayer.Registry
