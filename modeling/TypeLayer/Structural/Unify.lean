import TypeLayer.Structural.Table
import TypeLayer.Structural.TypeError

/-!
# Unification

`unify` makes two types equal by joining and binding classes of unknowns, as
little as possible.  Where the types cannot be made equal it is refused at the
first place, from the left, that they disagree in; what was joined and bound
before that stays.
-/

namespace TypeLayer.Table

/-- A call on the table of unknowns. -/
abbrev Solve (α : Type) :=
  Action Table TypeError α

/-- A new unknown as a type. -/
def freshVar : Solve Ty :=
  fun T => let (v, T) := T.fresh; .ok (.var v) T

/-- Makes a free class equal to a type of which the outermost constructor is
known. A class never gets bound to a type it occurs in. -/
def assign (root : TyVar) (t : Ty) (origin : Origin) : Solve Unit :=
  match t with
  | .var other => if other = root then pure () else Action.modify (·.merge root other)
  | .con name args => do
    if ← Action.read (·.occurs root (.con name args)) then
      Action.fail (.infiniteType root (← Action.read (·.resolve (.con name args))) origin)
    else
      Action.modify (·.bind root (.con name args))

/-- Refuses two types that have different outermost constructors. -/
def refuse (a b : Ty) (origin : Origin) : Solve Unit := do
  let expected ← Action.read (·.resolve a)
  let found ← Action.read (·.resolve b)
  Action.fail (.mismatch expected found origin)

mutual
/-- Unification by recursion on the first type. Where that is a bound unknown,
`deeper` goes on with the type it is bound to. -/
def unifyVia (deeper : Ty → Ty → Solve Unit) (origin : Origin) : Ty → Ty → Solve Unit
  | .var v, b => do
    match ← Action.read (·.classOf v) with
    | (_, some a) => deeper a b
    | (root, none) => assign root (← Action.read (·.find b)) origin
  | .con name args, b => do
    match ← Action.read (·.find b) with
    | .var root => assign root (.con name args) origin
    | .con name' args' =>
      if name = name' ∧ args.length = args'.length then
        unifyAllVia deeper origin args args'
      else
        refuse (.con name args) (.con name' args') origin
def unifyAllVia (deeper : Ty → Ty → Solve Unit) (origin : Origin) :
    List Ty → List Ty → Solve Unit
  | a :: as, b :: bs => do
    unifyVia deeper origin a b
    unifyAllVia deeper origin as bs
  | _, _ => pure ()
end

/-- Makes two types equal, with a bound on the bindings followed one inside the
other in the first type. -/
def unifyWithin (origin : Origin) : Nat → Ty → Ty → Solve Unit
  | 0 => unifyVia (fun _ _ _ => .fault .endless) origin
  | steps + 1 => unifyVia (unifyWithin origin steps) origin

/-- Makes two types equal. -/
def unify (a b : Ty) (origin : Origin) : Solve Unit :=
  fun T => unifyWithin origin T.size a b T

/-- Makes an unknown equal to a type. -/
def union (v : TyVar) (t : Ty) (origin : Origin) : Solve Unit := do
  match ← Action.read (·.classOf v) with
  | (_, some bound) => unify bound t origin
  | (root, none) => assign root (← Action.read (·.find t)) origin

end TypeLayer.Table
