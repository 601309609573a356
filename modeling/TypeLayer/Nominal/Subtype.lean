import TypeLayer.Nominal.Registry

/-!
# Subtyping

Numbers are ordered by width within their style, tuples member by member, and
objects along the chain of supertypes up to `Any`.  Methods, slices and unions
are subtypes of themselves only.
-/

namespace TypeLayer.Registry

/-- The parameters of the nearest type of a family on the chain of supertypes from
a type, `Any` excluded; with a bound on the length of the chain. -/
def ancestorWithin (r : Registry) (target : FamilyId) : Nat → TypeId →
    Except Fault (Option (List TypeId))
  | 0, _ => .error .endless
  | length + 1, id =>
    if id = Builtin.any then .ok none
    else
      match r.entry id with
      | .error f => .error f
      | .ok (type, family) =>
        if type.family = target then .ok (some type.params)
        else r.ancestorWithin target length family.supertype

/-- The same without a bound. A chain that is longer than there are families goes
round in circles. -/
def ancestor (r : Registry) (target : FamilyId) (id : TypeId) :
    Except Fault (Option (List TypeId)) :=
  r.ancestorWithin target (r.families.size + 1) id

/-- Whether a relation holds for all pairs. It is asked from left to right, until
it fails. -/
def allRelated (related : TypeId → TypeId → Ask Bool) : List (TypeId × TypeId) → Ask Bool
  | [] => .ok true
  | (a, b) :: rest =>
    match related a b with
    | .ok true => allRelated related rest
    | answer => answer

/-- Whether a relation holds between two lists of equal length, member by
member. -/
def pointwise (related : TypeId → TypeId → Ask Bool) (as bs : List TypeId) : Ask Bool :=
  if as.length = bs.length then allRelated related (as.zip bs) else .ok false

/-- One step of the comparison of two types that can be used. `related` is the question
about parameters. -/
def compareBy (r : Registry) (related : TypeId → TypeId → Ask Bool) (a b : TypeId)
    (aType bType : Datatype) (aFamily bFamily : Family) : Ask Bool :=
  if aFamily.style ≠ bFamily.style then return false
  else match aFamily.style with
    | .integer | .floating => return aFamily.bits ≤ bFamily.bits
    | .tuple => pointwise related aType.params bType.params
    | .object =>
      if b = Builtin.any then return true
      else do
        match ← Query.ofExcept (r.ancestor bType.family a) with
        | some params => pointwise related params bType.params
        | none => return false
    | .method | .slice | .union => return a = b

/-- One step of the comparison of two types. Templates cannot be compared. -/
def subtypeBy (r : Registry) (related : TypeId → TypeId → Ask Bool) (a b : TypeId) :
    Ask Bool := do
  let (aType, aFamily) ← Query.ofExcept (r.entry a)
  let (bType, bFamily) ← Query.ofExcept (r.entry b)
  if !aType.specialized then Query.fail (.unspecializedSubtype aFamily.name)
  else if !bType.specialized then Query.fail (.unspecializedSubtype bFamily.name)
  else r.compareBy related a b aType bType aFamily bFamily

/-- Whether a type is a subtype of another, with a bound on the nesting of
parameters. -/
def subtypeWithin (r : Registry) : Nat → TypeId → TypeId → Ask Bool
  | 0, _, _ => .error (.fault .endless)
  | depth + 1, a, b => r.subtypeBy (r.subtypeWithin depth) a b

/-- Whether a type is a subtype of another. No pair of types comes up inside
itself, unless parameters go round in circles. -/
def subtype (r : Registry) (a b : TypeId) : Ask Bool :=
  r.subtypeWithin (r.size * r.size + 1) a b

end TypeLayer.Registry
