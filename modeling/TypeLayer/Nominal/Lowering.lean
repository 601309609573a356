import TypeLayer.Nominal.Written

/-!
# Lowering types to layouts

The layout of a type is worked out when it is first asked for, and kept from then
on: fields that are added later do not change it.  Objects are stored by
reference, and everything else in place.
-/

namespace TypeLayer.Registry

/-- The slot of a member. `layoutOf` gives the layouts of members in place. -/
def slotOf (layoutOf : TypeId → Register Layout) (name : String) (id : TypeId) :
    Register Slot := do
  let family ← Action.read (·.family id)
  if family.style = .object then
    return .word name (.ref id)
  else
    return .inline name (← layoutOf id)

/-- The slots of members in order. -/
def slotsOf (layoutOf : TypeId → Register Layout) : List (String × TypeId) → Register (List Slot)
  | [] => pure []
  | (name, id) :: rest => do
    let slot ← slotOf layoutOf name id
    let slots ← slotsOf layoutOf rest
    return slot :: slots

/-- The layout of a usable type, worked out from its family, parameters and
fields. -/
def lower (layoutOf : TypeId → Register Layout) (id : TypeId) (type : Datatype)
    (family : Family) : Register Layout :=
  match family.style with
  | .integer => pure (.int family.bits)
  | .floating =>
    if family.bits = 32 ∨ family.bits = 64 then pure (.float family.bits)
    else Action.fail (.invalidFloatWidth family.name family.bits)
  | .method | .union => pure .pointer
  | .object => do
    let fields ← Action.query (·.fields id)
    let slots ← slotsOf layoutOf fields
    let name ← Action.read (·.display id)
    return .record name (.word "header" .header ::
      .word "super" (.supertype family.supertype) :: slots)
  | .tuple => do
    let slots ← slotsOf layoutOf (type.params.zipIdx.map fun (id, i) => (i.repr, id))
    let name ← Action.read (·.display id)
    return .record name slots
  | .slice =>
    match type.params with
    | [] => fun _ => .fault .missingParameter
    | element :: _ => do
      let name ← Action.read (·.display id)
      return .record name
        [.word "len" .length, .word "cap" .capacity, .word "data" (.elements element)]

/-- The layout of a type, with a bound on the nesting of members in place. A
layout that was worked out is kept; an error is not. -/
def layoutWithin : Nat → TypeId → Register Layout
  | 0, _ => fun _ => .fault .endless
  | depth + 1, id => do
    let (type, family) ← Action.read (·.entry id)
    match type.layout with
    | some layout => return layout
    | none =>
      if ← Action.read fun _ => usable type then
        let layout ← lower (layoutWithin depth) id type family
        Action.modify (·.modifyType id fun t => { t with layout := some layout })
        return layout
      else
        Action.fail (.unspecializedLowering family.name)

/-- The layout of a type. Members in place nest at most as deep as there are
types, unless parameters go round in circles. -/
def layout (id : TypeId) : Register Layout :=
  fun r => layoutWithin (r.size + 1) id r

end TypeLayer.Registry
