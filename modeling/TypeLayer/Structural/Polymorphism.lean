import TypeLayer.Assoc
import TypeLayer.Structural.Unify

/-!
# Generalization and instantiation

Turning a type into a scheme by quantifying the unknowns that no known value
depends on, and using a scheme by putting new unknowns in place of the
quantified ones.
-/

namespace TypeLayer

/-- The types of the values of a function that are known so far. -/
abbrev Context := Assoc ValueId Ty

/-- The schemes of the functions that have been published. -/
abbrev Env := Assoc String Scheme

namespace Table

/-- The unknowns that the types of a context depend on. -/
def contextVars (T : Table) (known : Context) : Except Fault (List TyVar) := do
  let types ← known.values.mapM T.resolve
  return types.flatMap Ty.vars

/-- The scheme that quantifies the unknowns of a type that the context does not
depend on. -/
def generalize (T : Table) (t : Ty) (known : Context) : Except Fault Scheme := do
  let t ← T.resolve t
  let bound ← T.contextVars known
  return ⟨t.vars.filter (· ∉ bound), t⟩

/-- One new unknown for each of the given ones. -/
def freshFor : List TyVar → Solve (List (TyVar × TyVar))
  | [] => pure []
  | v :: rest => fun T =>
    let (w, T) := T.fresh
    match freshFor rest T with
    | .ok pairs T => .ok ((v, w) :: pairs) T
    | .error e T => .error e T
    | .fault f => .fault f

/-- What a list of pairs puts in place of an unknown. The last pair counts. -/
def replacement? (pairs : List (TyVar × TyVar)) (v : TyVar) : Option TyVar :=
  pairs.reverse.lookup v

/-- Replaces unknowns, with a bound on the bindings followed one inside the
other. -/
def substituteWithin (T : Table) (pairs : List (TyVar × TyVar)) : Nat → Ty → Except Fault Ty
  | 0 => Ty.fill fun v =>
    match replacement? pairs v with
    | some w => .ok (.var w)
    | none => T.follow (fun _ => .ok (.var v)) (fun _ => .error .endless) v
  | steps + 1 => Ty.fill fun v =>
    match replacement? pairs v with
    | some w => .ok (.var w)
    | none => T.follow (fun _ => .ok (.var v)) (T.substituteWithin pairs steps) v

/-- The type with some unknowns replaced, also inside the types that other
unknowns are bound to. A free unknown that is not replaced stays as it is. -/
def substitute (T : Table) (pairs : List (TyVar × TyVar)) (t : Ty) : Except Fault Ty :=
  T.substituteWithin pairs T.size t

/-- The type of a new use of a scheme. -/
def instantiate (s : Scheme) : Solve Ty :=
  if s.vars.isEmpty then
    pure s.ty
  else do
    let pairs ← freshFor s.vars
    Action.read (·.substitute pairs s.ty)

/-- A copy of a type with new unknowns where the context does not depend on the
old ones. -/
def refresh (t : Ty) (known : Context) : Solve Ty := do
  let scheme ← Action.read (·.generalize t known)
  instantiate scheme

end Table

end TypeLayer
