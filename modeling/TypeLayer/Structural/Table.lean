import TypeLayer.Outcome
import TypeLayer.Structural.Ty

/-!
# The table of unknowns

The unknowns of an inference are sorted into classes.  Unknowns of one class
stand for the same type; a class may be bound to an application, and is free
otherwise.  The table gives each unknown the representative of its class
directly, and keeps rank and binding at the representative.

A bound application is kept as it was met, so its arguments may mention unknowns
that are bound themselves.  Following bindings ends because a class is bound only
to a type in which it does not occur; the walks below therefore allow as many
steps from unknown to binding as there are unknowns.
-/

namespace TypeLayer

/-- What the table holds for one unknown. Rank and binding count only if the
unknown represents its class. -/
structure Table.Entry where
  root : TyVar
  rank : Nat
  binding : Option Ty
deriving Repr, DecidableEq

structure Table where
  entries : Array Table.Entry
deriving Repr, DecidableEq

namespace Table

def empty : Table :=
  ⟨#[]⟩

/-- The number of unknowns created so far. -/
def size (T : Table) : Nat :=
  T.entries.size

/-- A new unknown, free and alone in its class. -/
def fresh (T : Table) : TyVar × Table :=
  (T.size, ⟨T.entries.push ⟨T.size, 0, none⟩⟩)

/-- The representative of an unknown, and what its class is bound to. -/
def classOf (T : Table) (v : TyVar) : Except Fault (TyVar × Option Ty) :=
  match T.entries[v]? with
  | none => .error (.unknownVariable v)
  | some entry =>
    match T.entries[entry.root]? with
    | none => .error (.unknownVariable entry.root)
    | some root => .ok (entry.root, root.binding)

def rank (T : Table) (v : TyVar) : Nat :=
  (T.entries[v]?.map Entry.rank).getD 0

/-! ## Changing classes -/

/-- Moves every unknown of one class to the class of another representative. -/
def link (T : Table) (child parent : TyVar) : Table :=
  ⟨T.entries.map fun e => if e.root = child then { e with root := parent } else e⟩

def setRank (T : Table) (v : TyVar) (rank : Nat) : Table :=
  ⟨T.entries.modify v fun e => { e with rank }⟩

/-- Joins the classes of two free representatives. The one of higher rank
represents both; of equal ranks the second does, and its rank grows. -/
def merge (T : Table) (a b : TyVar) : Table :=
  if T.rank a > T.rank b then T.link b a
  else if T.rank a < T.rank b then T.link a b
  else (T.link a b).setRank b (T.rank b + 1)

/-- Binds the class of a representative. -/
def bind (T : Table) (root : TyVar) (t : Ty) : Table :=
  ⟨T.entries.modify root fun e => { e with binding := some t }⟩

/-! ## Reading types through the table -/

/-- The outermost constructor of a type as far as it is known, or the
representative of the free class it stands for. -/
def find (T : Table) : Ty → Except Fault Ty
  | .con name args => .ok (.con name args)
  | .var v =>
    match T.classOf v with
    | .error f => .error f
    | .ok (root, none) => .ok (.var root)
    | .ok (_, some t) => .ok t

/-- Treats a free unknown by its representative, and a bound one by its
binding. -/
def follow {α : Type} (T : Table) (free : TyVar → Except Fault α) (bound : Ty → Except Fault α)
    (v : TyVar) : Except Fault α :=
  match T.classOf v with
  | .error f => .error f
  | .ok (root, none) => free root
  | .ok (_, some t) => bound t

end Table

namespace Ty

mutual
/-- Replaces the unknowns of a type, from left to right. -/
def fill (f : TyVar → Except Fault Ty) : Ty → Except Fault Ty
  | .var v => f v
  | .con name args =>
    match fillAll f args with
    | .error e => .error e
    | .ok args => .ok (.con name args)
def fillAll (f : TyVar → Except Fault Ty) : List Ty → Except Fault (List Ty)
  | [] => .ok []
  | a :: rest =>
    match fill f a with
    | .error e => .error e
    | .ok a =>
      match fillAll f rest with
      | .error e => .error e
      | .ok rest => .ok (a :: rest)
end

mutual
/-- Whether a test holds of some unknown of a type. The test is asked from left
to right, until it holds. -/
def anyVar (test : TyVar → Except Fault Bool) : Ty → Except Fault Bool
  | .var v => test v
  | .con _ args => anyVarAll test args
def anyVarAll (test : TyVar → Except Fault Bool) : List Ty → Except Fault Bool
  | [] => .ok false
  | a :: rest =>
    match anyVar test a with
    | .error e => .error e
    | .ok true => .ok true
    | .ok false => anyVarAll test rest
end

end Ty

namespace Table

/-- The resolved type, with a bound on the bindings followed one inside the
other. -/
def resolveWithin (T : Table) : Nat → Ty → Except Fault Ty
  | 0 => Ty.fill (T.follow (fun root => .ok (.var root)) fun _ => .error .endless)
  | steps + 1 => Ty.fill (T.follow (fun root => .ok (.var root)) (T.resolveWithin steps))

/-- The type with every bound unknown replaced by what it is bound to, and every
free one by its representative. -/
def resolve (T : Table) (t : Ty) : Except Fault Ty :=
  T.resolveWithin T.size t

/-- Whether two types are the same as far as the table knows. -/
def equiv (T : Table) (a b : Ty) : Except Fault Bool := do
  let a ← T.resolve a
  let b ← T.resolve b
  return a = b

/-- The resolved type as text. -/
def display (T : Table) (t : Ty) : Except Fault String :=
  Ty.render <$> T.resolve t

/-- Whether the class of a representative occurs in a type, with a bound on the
bindings followed one inside the other. -/
def occursWithin (T : Table) (root : TyVar) : Nat → Ty → Except Fault Bool
  | 0 => Ty.anyVar (T.follow (fun r => .ok (r == root)) fun _ => .error .endless)
  | steps + 1 => Ty.anyVar (T.follow (fun r => .ok (r == root)) (T.occursWithin root steps))

/-- Whether the class of an unknown occurs in a type. -/
def occurs (T : Table) (v : TyVar) (t : Ty) : Except Fault Bool := do
  let (root, _) ← T.classOf v
  T.occursWithin root T.size t

end Table

end TypeLayer
