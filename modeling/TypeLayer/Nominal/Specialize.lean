import TypeLayer.Nominal.Registry

/-!
# Specialization

`specialize` gives the instance of a generic type for a list of parameters.  Each
list has one instance: the first call builds it, and later ones find it.  An
instance is listed in its family before its fields are filled in, so that a field
can refer back to the instance it belongs to.  If a field cannot be filled in, the
instance is withdrawn; what was built for its fields stays.
-/

namespace TypeLayer.Registry

/-- Lists a new instance, of which the fields are still to be filled in. -/
def enlist (r : Registry) (family : FamilyId) (params : List TypeId) : TypeId × Registry :=
  let type : Datatype :=
    { family, specialized := true, params, fields := [], layout := none, progress := .building }
  let listed := r.modifyFamily family fun f => { f with instances := f.instances ++ [(params, r.size)] }
  (r.size, { listed with types := listed.types.push type })

/-- Completes an instance. -/
def settle (r : Registry) (id : TypeId) (fields : List (String × TypeId)) : Registry :=
  r.modifyType id fun t =>
    { t with fields := fields.map fun (name, ty) => ⟨name, .concrete ty⟩, progress := .ready }

/-- Takes an instance off the list of its family. Its number stays in use. -/
def withdraw (r : Registry) (family : FamilyId) (id : TypeId) : Registry :=
  (r.modifyFamily family fun f => { f with instances := f.instances.filter (·.2 ≠ id) }).modifyType id
    fun t => { t with progress := .failed }

mutual
/-- The type of a field for given parameters of its owner. `apply` gives the
instances that it needs. -/
def fieldType (apply : TypeId → List TypeId → Register TypeId) (names : List String)
    (params : List TypeId) : FieldTy → Register TypeId
  | .concrete id => pure id
  | .param name =>
    match names.idxOf? name with
    | none => Action.fail (.unknownType name default)
    | some i =>
      match params[i]? with
      | some id => pure id
      | none => fun _ => .fault .missingParameter
  | .apply generic args => do
    let ids ← fieldTypes apply names params args
    apply generic ids
def fieldTypes (apply : TypeId → List TypeId → Register TypeId) (names : List String)
    (params : List TypeId) : List FieldTy → Register (List TypeId)
  | [] => pure []
  | ty :: rest => do
    let id ← fieldType apply names params ty
    let ids ← fieldTypes apply names params rest
    return id :: ids
end

/-- The fields of an instance, from those of its template. -/
def instanceFields (apply : TypeId → List TypeId → Register TypeId) (names : List String)
    (params : List TypeId) : List Field → Register (List (String × TypeId))
  | [] => pure []
  | field :: rest => do
    let id ← fieldType apply names params field.ty
    let fields ← instanceFields apply names params rest
    return (field.name, id) :: fields

/-- Builds a new instance of a template. -/
def build (apply : TypeId → List TypeId → Register TypeId) (template : Datatype) (family : Family)
    (params : List TypeId) : Register TypeId :=
  fun r =>
    let (id, r) := r.enlist template.family params
    match instanceFields apply family.paramNames params template.fields r with
    | .ok fields r => .ok id (r.settle id fields)
    | .error e r => .error e (r.withdraw template.family id)
    | .fault f => .fault f

/-- The instance of a type, with a bound on the instances built one inside the
other. -/
def specializeWithin : Nat → TypeId → List TypeId → Register TypeId
  | 0, _, _ => fun _ => .fault .endless
  | depth + 1, generic, params => do
    let (template, family) ← Action.read (·.entry generic)
    if template.specialized then
      if params.isEmpty then return generic
      else Action.fail (.specializationArity family.name 0 params.length)
    else
      match family.wrongArity? params.length with
      | some expected => Action.fail (.specializationArity family.name expected params.length)
      | none =>
        match family.instance? params with
        | some id => return id
        | none => build (specializeWithin depth) template family params

/-! ## How deep instances nest

If no field applies a family to an application, an instance is built only for
lists of the parameters asked for and of types named in fields, and such lists are
few.  The bound below is far beyond that.  It is meant for generic types that apply
themselves to ever larger arguments, for which there is no end. -/

mutual
/-- The types that the type of a field names. -/
def namedTypes : FieldTy → List TypeId
  | .concrete id => [id]
  | .param _ => []
  | .apply _ args => namedTypesAll args
def namedTypesAll : List FieldTy → List TypeId
  | [] => []
  | ty :: rest => namedTypes ty ++ namedTypesAll rest
end

mutual
/-- The length of the longest list of arguments in the type of a field. -/
def longestApplication : FieldTy → Nat
  | .concrete _ | .param _ => 0
  | .apply _ args => max args.length (longestApplicationAll args)
def longestApplicationAll : List FieldTy → Nat
  | [] => 0
  | ty :: rest => max (longestApplication ty) (longestApplicationAll rest)
end

/-- The types of all declared fields. -/
def allFieldTys (r : Registry) : List FieldTy :=
  r.types.toList.flatMap fun t => t.fields.map Field.ty

/-- The bound on instances built one inside the other. -/
def nestingBound (r : Registry) (params : List TypeId) : Nat :=
  let atoms := params.length + (namedTypesAll r.allFieldTys).length
  let width := max params.length (longestApplicationAll r.allFieldTys)
  (r.size + atoms + 2).pow (r.size + width)

/-- The instance of a type for a list of parameters. A type that is no template
takes none and is its own instance. -/
def specialize (generic : TypeId) (params : List TypeId) : Register TypeId :=
  fun r => specializeWithin (r.nestingBound params) generic params r

/-! ## Built-in generic types -/

def tuple (items : List TypeId) : Register TypeId :=
  specialize Builtin.tuple items

def union (members : List TypeId) : Register TypeId :=
  specialize Builtin.union members

/-- The type of methods; its parameters are the result and then the arguments. -/
def method (result : TypeId) (args : List TypeId) : Register TypeId :=
  specialize Builtin.method (result :: args)

def slice (element : TypeId) : Register TypeId :=
  specialize Builtin.slice [element]

end TypeLayer.Registry
