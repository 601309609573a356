import TypeLayer.Assoc
import TypeLayer.Nominal.DatatypeError
import TypeLayer.Nominal.Layout
import TypeLayer.Outcome

/-!
# The registry of nominal types

Nominal types live in a registry and are named by number.  The types that come
from one declaration form a family: the declared type itself, and, if it is
generic, an instance for every list of parameters it was specialized with.  A
generic declaration is a template, which only its instances can stand in for.

The registry is only added to: a type keeps its number, its family and its
parameters for ever.
-/

namespace TypeLayer

/-- The number of a family in its registry. -/
abbrev FamilyId := Nat

/-- The kinds of nominal types. -/
inductive Style where
  | integer
  | floating
  | object
  | union
  | tuple
  | method
  | slice
deriving Repr, DecidableEq

def Style.render : Style → String
  | integer => "integer"
  | floating => "floating"
  | object => "object"
  | union => "union"
  | tuple => "tuple"
  | method => "method"
  | slice => "slice"

/-- What the types of one declaration have in common. -/
structure Family where
  name : String
  style : Style
  /-- The width of a number. -/
  bits : Nat
  supertype : TypeId
  paramNames : List String
  /-- Whether any number of parameters is taken. -/
  variadic : Bool
  /-- The declared type. -/
  template : TypeId
  /-- The instances by their parameters, oldest first. -/
  instances : List (List TypeId × TypeId)
deriving Repr, DecidableEq

def Family.isGeneric (f : Family) : Bool :=
  f.variadic || !f.paramNames.isEmpty

/-- The number of parameters that should have been given, where the given number
is wrong. A method has at least its result as a parameter. -/
def Family.wrongArity? (f : Family) (found : Nat) : Option Nat :=
  if f.style = .method ∧ found = 0 then some 1
  else if !f.variadic ∧ found ≠ f.paramNames.length then some f.paramNames.length
  else none

/-- The instance for a list of parameters. Parameters are compared by number. -/
def Family.instance? (f : Family) (params : List TypeId) : Option TypeId :=
  f.instances.lookup params

/-- The type of a field as declared, in terms of the parameters of its owner. -/
inductive FieldTy where
  | concrete (id : TypeId)
  | param (name : String)
  /-- An instance of a generic type. -/
  | apply (generic : TypeId) (args : List FieldTy)
deriving Repr, Inhabited

namespace FieldTy

mutual
/-- Equality of declared types is decided on the trees. -/
def decEq : (a b : FieldTy) → Decidable (a = b)
  | .concrete a, .concrete b => if h : a = b then isTrue (by rw [h]) else isFalse (by simpa using h)
  | .param a, .param b => if h : a = b then isTrue (by rw [h]) else isFalse (by simpa using h)
  | .apply g as, .apply g' bs =>
    if h : g = g' then
      match decEqAll as bs with
      | isTrue h' => isTrue (by rw [h, h'])
      | isFalse h' => isFalse (by simp [h'])
    else isFalse (by simp [h])
  | .concrete _, .param _ => isFalse (by simp)
  | .concrete _, .apply _ _ => isFalse (by simp)
  | .param _, .concrete _ => isFalse (by simp)
  | .param _, .apply _ _ => isFalse (by simp)
  | .apply _ _, .concrete _ => isFalse (by simp)
  | .apply _ _, .param _ => isFalse (by simp)
def decEqAll : (as bs : List FieldTy) → Decidable (as = bs)
  | [], [] => isTrue rfl
  | a :: as, b :: bs =>
    match decEq a b, decEqAll as bs with
    | isTrue h, isTrue h' => isTrue (by rw [h, h'])
    | isFalse h, _ => isFalse (by simp [h])
    | _, isFalse h => isFalse (by simp [h])
  | [], _ :: _ => isFalse (by simp)
  | _ :: _, [] => isFalse (by simp)
end

instance : DecidableEq FieldTy :=
  decEq

/-- To prove something of all declared types, prove it of types and parameters by
name, and of an application from its arguments. -/
@[elab_as_elim]
theorem induction_on {motive : FieldTy → Prop} (concrete : ∀ id, motive (.concrete id))
    (param : ∀ name, motive (.param name))
    (apply : ∀ generic args, (∀ a ∈ args, motive a) → motive (.apply generic args))
    (ty : FieldTy) : motive ty :=
  @FieldTy.rec motive (fun args => ∀ a ∈ args, motive a) concrete param apply (by simp)
    (fun _ _ ha has => by simpa using ⟨ha, has⟩) ty

end FieldTy

structure Field where
  name : String
  ty : FieldTy
deriving Repr, DecidableEq, Inhabited

/-- How far the fields of an instance have been filled in. -/
inductive Progress where
  | building
  | ready
  /-- Given up; the instance has been withdrawn from its family. -/
  | failed
deriving Repr, DecidableEq

structure Datatype where
  family : FamilyId
  /-- Whether the type can be used, and is not a template. -/
  specialized : Bool
  params : List TypeId
  fields : List Field
  /-- The layout, once it has been asked for. -/
  layout : Option Layout
  progress : Progress
deriving DecidableEq

structure Registry where
  families : Array Family
  types : Array Datatype
  /-- The declared types by name. -/
  names : Assoc String TypeId
deriving DecidableEq

namespace Registry

/-- A call on a registry. -/
abbrev Register (α : Type) :=
  Action Registry DatatypeError α

/-- A question to a registry. -/
abbrev Ask (α : Type) :=
  Query DatatypeError α

/-! ## Access -/

/-- The number of types. -/
def size (r : Registry) : Nat :=
  r.types.size

def contains (r : Registry) (id : TypeId) : Bool :=
  id < r.size

def get (r : Registry) (id : TypeId) : Except Fault Datatype :=
  match r.types[id]? with
  | some type => .ok type
  | none => .error (.unknownType id)

/-- A type together with its family. -/
def entry (r : Registry) (id : TypeId) : Except Fault (Datatype × Family) :=
  match r.get id with
  | .error f => .error f
  | .ok type =>
    match r.families[type.family]? with
    | some family => .ok (type, family)
    | none => .error (.unknownType id)

def family (r : Registry) (id : TypeId) : Except Fault Family :=
  Prod.snd <$> r.entry id

/-- The declared type of a name. -/
def lookup (r : Registry) (name : String) : Option TypeId :=
  r.names.get? name

/-- The instances of the family of a type, oldest first. -/
def specializations (r : Registry) (id : TypeId) : Except Fault (List TypeId) :=
  (fun f => f.instances.map Prod.snd) <$> r.family id

def modifyType (r : Registry) (id : TypeId) (f : Datatype → Datatype) : Registry :=
  { r with types := r.types.modify id f }

def modifyFamily (r : Registry) (id : FamilyId) (f : Family → Family) : Registry :=
  { r with families := r.families.modify id f }

/-! ## Declarations -/

/-- A type to be declared. -/
structure Declaration where
  name : String
  style : Style
  bits : Nat := 0
  /-- The supertype; without one the type is its own. -/
  supertype : Option TypeId
  paramNames : List String := []
  variadic : Bool := false
deriving Repr, DecidableEq

/-- Adds a declared type and its family. -/
def declare (r : Registry) (d : Declaration) : Registry :=
  let id := r.size
  let family : Family :=
    { name := d.name, style := d.style, bits := d.bits, supertype := d.supertype.getD id
      paramNames := d.paramNames, variadic := d.variadic, template := id, instances := [] }
  let type : Datatype :=
    { family := r.families.size, specialized := !family.isGeneric, params := [], fields := []
      layout := none, progress := .ready }
  { families := r.families.push family, types := r.types.push type
    names := r.names.insert d.name id }

/-- Declares a type under a name that is not taken. -/
def declareNew (d : Declaration) : Register TypeId :=
  fun r =>
    if r.names.contains d.name then .error (.duplicateType d.name) r
    else .ok r.size (r.declare d)

/-! ## Built-in types

The types that every registry starts with, in the order of their numbers. -/

namespace Builtin

def any : TypeId := 0
def long : TypeId := 1
def float : TypeId := 2
def bool : TypeId := 3
def byte : TypeId := 4
def short : TypeId := 5
def int : TypeId := 6
def double : TypeId := 7
def tuple : TypeId := 8
def union : TypeId := 9
def method : TypeId := 10
def slice : TypeId := 11

/-- The declarations of the built-in types. `Any` is its own supertype. -/
def declarations : List Declaration :=
  [{ name := "Any", style := .object, supertype := none },
   { name := "Long", style := .integer, bits := 64, supertype := some any },
   { name := "Float", style := .floating, bits := 32, supertype := some any },
   { name := "Bool", style := .integer, bits := 1, supertype := some long },
   { name := "Byte", style := .integer, bits := 8, supertype := some long },
   { name := "Short", style := .integer, bits := 16, supertype := some long },
   { name := "Int", style := .integer, bits := 32, supertype := some long },
   { name := "Double", style := .floating, bits := 64, supertype := some float },
   { name := "Tuple", style := .tuple, supertype := some any, variadic := true },
   { name := "Union", style := .union, supertype := some any, variadic := true },
   { name := "Fn", style := .method, supertype := some any, variadic := true },
   { name := "Slice", style := .slice, supertype := some any, paramNames := ["T"] }]

end Builtin

/-- The registry with the built-in types only. -/
def initial : Registry :=
  Builtin.declarations.foldl declare ⟨#[], #[], ∅⟩

/-- Declares an object type, under `Any` unless a supertype is given. -/
def create (name : String) (supertype : Option TypeId) (paramNames : List String) :
    Register TypeId :=
  declareNew
    { name, style := .object, supertype := some (supertype.getD Builtin.any), paramNames }

def createInteger (name : String) (bits : Nat) : Register TypeId :=
  declareNew { name, style := .integer, bits, supertype := some Builtin.long }

def createFloat (name : String) (bits : Nat) : Register TypeId :=
  declareNew { name, style := .floating, bits, supertype := some Builtin.float }

/-! ## Fields -/

mutual
/-- Accepts the type of a field if it only names parameters that its owner has,
and applies families to the right number of arguments. -/
def checkFieldTy (r : Registry) (owner : Datatype) (ownerFamily : Family) : FieldTy → Ask Unit
  | .concrete _ => .ok ()
  | .param name =>
    if owner.specialized || !ownerFamily.paramNames.contains name then
      Query.fail (.unknownType name default)
    else .ok ()
  | .apply generic args =>
    match r.family generic with
    | .error f => .error (.fault f)
    | .ok target =>
      match target.wrongArity? args.length with
      | some expected => Query.fail (.specializationArity target.name expected args.length)
      | none => checkFieldTyAll r owner ownerFamily args
def checkFieldTyAll (r : Registry) (owner : Datatype) (ownerFamily : Family) :
    List FieldTy → Ask Unit
  | [] => .ok ()
  | ty :: rest =>
    match checkFieldTy r owner ownerFamily ty with
    | .ok () => checkFieldTyAll r owner ownerFamily rest
    | .error e => .error e
end

/-- Replaces the type of the field of that name, or appends the field. -/
def putField (name : String) (ty : FieldTy) : List Field → List Field
  | [] => [⟨name, ty⟩]
  | f :: rest => if f.name = name then ⟨name, ty⟩ :: rest else f :: putField name ty rest

/-- Adds a field to an object type, or changes the type of the field it has under
that name. Instances that exist already keep their fields. -/
def addField (id : TypeId) (name : String) (ty : FieldTy) : Register Unit := do
  let (owner, family) ← Action.read (·.entry id)
  if family.style = .object then
    Action.query (·.checkFieldTy owner family ty)
    Action.modify (·.modifyType id fun t => { t with fields := putField name ty t.fields })
  else
    Action.fail (.fieldOnNonObject family.name name)

/-- The fields of a type as declared. -/
def declaredFields (r : Registry) (id : TypeId) : Except Fault (List Field) :=
  Datatype.fields <$> r.get id

/-- Whether a type can be used: it is no template, and its construction did not
fail. A type under construction has to be waited for, and nothing would end the
wait. -/
def usable (type : Datatype) : Except Fault Bool :=
  if type.specialized then
    match type.progress with
    | .ready => .ok true
    | .failed => .ok false
    | .building => .error .endless
  else .ok false

/-- The fields whose types are all concrete. -/
def concreteFields? : List Field → Option (List (String × TypeId))
  | [] => some []
  | ⟨name, .concrete id⟩ :: rest => (concreteFields? rest).map ((name, id) :: ·)
  | _ :: _ => none

/-- The names and types of the fields of a usable type. -/
def fields (r : Registry) (id : TypeId) : Ask (List (String × TypeId)) := do
  let (type, family) ← Query.ofExcept (r.entry id)
  if ← Query.ofExcept (usable type) then
    match concreteFields? type.fields with
    | some fields => return fields
    | none => Query.fail (.unspecializedFields family.name)
  else
    Query.fail (.unspecializedFields family.name)

end Registry

end TypeLayer
