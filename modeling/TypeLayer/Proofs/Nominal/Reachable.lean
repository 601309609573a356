import TypeLayer.Proofs.Nominal.Denotation

/-!
# Reachable registries

`Operation` lists the calls of the library that work on a registry.  A registry is
reachable if some sequence of such calls, refused ones included, leads to it from
the registry with the built-in types.  The calls are given types that the registry
has; that is all that is asked of their arguments.

Every operation moves the registry by the changes of `Step` (`Operation.evolved`),
so that what holds of these holds of all reachable registries.
-/

namespace TypeLayer.Registry

open TypeLayer.Action

variable {r r' : Registry} {scope : Assoc String TypeId}

/-! ## Operations -/

inductive Operation where
  | create (name : String) (supertype : Option TypeId) (paramNames : List String)
  | createInteger (name : String) (bits : Nat)
  | createFloat (name : String) (bits : Nat)
  | addField (id : TypeId) (name : String) (ty : FieldTy)
  | specialize (generic : TypeId) (params : List TypeId)
  | tuple (items : List TypeId)
  | union (members : List TypeId)
  | method (result : TypeId) (args : List TypeId)
  | slice (element : TypeId)
  | denote (e : TypeExpr) (scope : Assoc String TypeId)
  | fields (id : TypeId)
  | layout (id : TypeId)

/-- The types that an operation is given to build on. The type that it is about is
not among them: without that type, the operation is at fault. -/
def Operation.given : Operation → List TypeId
  | .create _ supertype _ => supertype.toList
  | .createInteger _ _ | .createFloat _ _ | .fields _ | .layout _ => []
  | .addField _ _ ty => namedTypes ty
  | .specialize _ params => params
  | .tuple items => items
  | .union members => members
  | .method result args => result :: args
  | .slice element => [element]
  | .denote _ scope => scope.values

/-- The registry that an operation leaves, whether it succeeds or is refused. An
operation at fault leaves none. -/
def Operation.after : Operation → Registry → Option Registry
  | .create name supertype paramNames, r => (Registry.create name supertype paramNames r).state?
  | .createInteger name bits, r => (Registry.createInteger name bits r).state?
  | .createFloat name bits, r => (Registry.createFloat name bits r).state?
  | .addField id name ty, r => (Registry.addField id name ty r).state?
  | .specialize generic params, r => (Registry.specialize generic params r).state?
  | .tuple items, r => (Registry.tuple items r).state?
  | .union members, r => (Registry.union members r).state?
  | .method result args, r => (Registry.method result args r).state?
  | .slice element, r => (Registry.slice element r).state?
  | .denote e scope, r => (Registry.denote e scope r).state?
  | .fields id, r => ((query (·.fields id) : Register (List (String × TypeId))) r).state?
  | .layout id, r => (Registry.layout id r).state?

/-- Some sequence of operations leads from one registry to the other. -/
abbrev Leads : Registry → Registry → Prop :=
  Relation.ReflTransGen fun r r' => ∃ op : Operation, r.Has op.given ∧ op.after r = some r'

/-- Some sequence of operations leads to the registry. -/
abbrev Reachable (r : Registry) : Prop :=
  initial.Leads r

/-- The registry that a sequence of operations leaves, if each of them is given types
that there are by then and none is at fault. -/
def Operation.afterAll : List Operation → Registry → Option Registry
  | [], r => some r
  | op :: rest, r => if r.Has op.given then (op.after r).bind (afterAll rest) else none

/-- A sequence of operations leads somewhere by steps of any kind that all of its operations
are, each where its turn comes. -/
theorem reflTransGen_of_afterAll {step : Registry → Registry → Prop} {ops : List Operation}
    (h : Operation.afterAll ops r = some r')
    (hops : ∀ i, (hi : i < ops.length) → ∀ r₁ ∈ Operation.afterAll (ops.take i) r, ∀ r₂,
      r₁.Has (ops.get ⟨i, hi⟩).given → (ops.get ⟨i, hi⟩).after r₁ = some r₂ → step r₁ r₂) :
    Relation.ReflTransGen step r r' := by
  induction ops generalizing r with
  | nil =>
    obtain rfl := Option.some.inj h
    exact .refl
  | cons op rest ih =>
    unfold Operation.afterAll at h
    split at h
    · next hgiven =>
      obtain ⟨r₁, hafter, hrest⟩ := Option.bind_eq_some_iff.1 h
      refine .head (hops 0 (Nat.succ_pos _) r rfl r₁ hgiven hafter) (ih hrest fun i hi r₂ hr₂ => ?_)
      refine hops (i + 1) (Nat.succ_lt_succ hi) r₂ ?_
      rw [List.take_succ_cons, Operation.afterAll, if_pos hgiven, hafter]
      exact hr₂
    · cases h

theorem leads_of_afterAll {ops : List Operation} (h : Operation.afterAll ops r = some r') :
    r.Leads r' :=
  reflTransGen_of_afterAll h fun _ _ _ _ _ hgiven hafter => ⟨_, hgiven, hafter⟩

/-- The registry that a sequence of operations builds from the beginning. -/
def Operation.build (ops : List Operation) : Registry :=
  (afterAll ops initial).getD initial

theorem reachable_build (ops : List Operation) : (Operation.build ops).Reachable := by
  unfold Operation.build
  cases h : Operation.afterAll ops initial with
  | none => exact .refl
  | some r => exact leads_of_afterAll h

/-! ## Declarations -/

theorem evolves_declareNew {d : Declaration} {supertype : TypeId} (hr : r.WellFormed)
    (hd : d.supertype = some supertype) (hsupertype : supertype < r.size)
    (hstyle : d.style.reserved? = none) :
    r.Evolves (declareNew d) fun _ _ => True := by
  unfold Evolves Contract.Meets declareNew
  by_cases hname : r.names.contains d.name = true
  · rw [if_pos hname]
    exact hr.evolved
  · rw [if_neg hname]
    have hallowed : d.Allowed r :=
      { name_new := by simpa [Assoc.contains] using hname
        supertype_first := fun h => nomatch hd.symm.trans h
        supertype_known := by simpa [hd] using hsupertype
        reserved := by simp [hstyle] }
    exact ⟨hr.evolved.step (.declare hallowed) fun _ => building_declare, trivial⟩

theorem evolves_addField (hr : r.WellFormed) {id : TypeId} {name : String} {ty : FieldTy}
    (hty : r.Has (namedTypes ty)) : r.Evolves (addField id name ty) fun _ _ => True := by
  unfold addField
  refine evolves_read_bind fun entry hentry => ?_
  obtain ⟨owner, family⟩ := entry
  dsimp only
  split
  · next hstyle =>
    refine (evolves_query hr).bind fun _ r' _ hchecked => ?_
    obtain ⟨rfl, hchecked⟩ := hchecked
    exact evolves_modify hr (.setField hentry hstyle hchecked hty)
      fun _ => building_modifyType fun _ => rfl
  · exact evolves_fail hr

/-! ## Layouts -/

theorem evolves_slotOf {layoutOf : TypeId → Register Layout}
    (hlayout : ∀ (r : Registry) (id : TypeId), r.WellFormed →
      r.Evolves (layoutOf id) fun _ _ => True)
    (hr : r.WellFormed) (name : String) (id : TypeId) :
    r.Evolves (slotOf layoutOf name id) fun _ _ => True :=
  Contract.meets_slotOf hr (fun _ _ => trivial) (fun _ _ _ => trivial) fun _ _ _ => hlayout r id hr

theorem evolves_layoutWithin (depth : Nat) (hr : r.WellFormed) (id : TypeId) :
    r.Evolves (layoutWithin depth id) fun _ _ => True := by
  induction depth generalizing r id with
  | zero => exact Contract.meets_layoutWithin_zero trivial
  | succ depth ih =>
    refine Contract.meets_layoutWithin_succ hr (fun _ _ => trivial) (fun _ _ _ _ _ => trivial)
      (fun _ _ _ _ _ => trivial) (fun _ _ _ _ => hr.evolved) fun t f _ _ _ => ?_
    have hlowers : evolution.Lowers (layoutWithin depth) r id t f (fun _ _ => True)
        fun _ _ => True :=
      { relies := hr
        start := trivial
        member _ hevolved _ :=
          (evolves_slotOf (fun r id hr => ih hr id) hevolved.wellFormed _ _).mono
            fun _ _ _ _ => ⟨trivial, trivial⟩
        refused _ _ := hr.evolved
        unanswered _ _ := trivial
        width _ _ := hr.evolved
        missing _ _ := trivial
        unnamed _ _ := trivial }
    refine (Contract.meets_lower hlowers).mono fun l r' hevolved _ => ⟨?_, trivial⟩
    exact hevolved.wellFormed.evolved.step .setLayout fun _ => building_modifyType fun _ => rfl

theorem evolves_layout (hr : r.WellFormed) (id : TypeId) :
    r.Evolves (layout id) fun _ _ => True :=
  evolves_layoutWithin _ hr id

/-! ## Reachable registries are well formed -/

theorem wellFormed_empty : WellFormed ⟨#[], #[], ∅⟩ := by
  constructor <;> simp

instance (d : Declaration) (r : Registry) : Decidable (d.Allowed r) :=
  decidable_of_iff (r.names.get? d.name = none ∧ (d.supertype = none → r.size = 0) ∧
      (∀ s ∈ d.supertype, s < r.size) ∧ ∀ name ∈ d.style.reserved?, d.name = name)
    ⟨fun h => ⟨h.1, h.2.1, h.2.2.1, h.2.2.2⟩, fun h => ⟨h.1, h.2, h.3, h.4⟩⟩

/-- Declarations that are allowed one after the other lead to the registry that has
them all. -/
theorem steps_foldl_declare {ds : List Declaration}
    (h : ∀ i, (hi : i < ds.length) → (ds.get ⟨i, hi⟩).Allowed ((ds.take i).foldl declare r)) :
    r.Steps (ds.foldl declare r) := by
  induction ds generalizing r with
  | nil => exact .refl
  | cons d rest ih =>
    refine .head (.declare (h 0 (Nat.succ_pos _))) (ih fun i hi => ?_)
    exact h (i + 1) (Nat.succ_lt_succ hi)

theorem wellFormed_initial : initial.WellFormed :=
  Steps.wellFormed (steps_foldl_declare (by decide)) wellFormed_empty

/-- Every operation moves the registry by changes. -/
theorem Operation.evolved {op : Operation} (hr : initial.Evolved r) (hgiven : r.Has op.given)
    (h : op.after r = some r') : r.Evolved r' := by
  have hwf := hr.wellFormed
  cases op with
  | create name supertype paramNames =>
    have hsupertype : supertype.getD Builtin.any < r.size := by
      cases supertype with
      | none => exact hr.extends.lt_size (by decide)
      | some s => exact hgiven s List.mem_cons_self
    have hcreate : r.Evolves (Registry.create name supertype paramNames) fun _ _ => True :=
      evolves_declareNew hwf rfl hsupertype rfl
    exact hcreate.evolved h
  | createInteger name bits =>
    have hcreate : r.Evolves (Registry.createInteger name bits) fun _ _ => True :=
      evolves_declareNew hwf rfl (hr.extends.lt_size (by decide)) rfl
    exact hcreate.evolved h
  | createFloat name bits =>
    have hcreate : r.Evolves (Registry.createFloat name bits) fun _ _ => True :=
      evolves_declareNew hwf rfl (hr.extends.lt_size (by decide)) rfl
    exact hcreate.evolved h
  | addField id name ty => exact (evolves_addField hwf hgiven).evolved h
  | specialize generic params => exact (evolves_specialize hwf hgiven).evolved h
  | tuple items => exact (evolves_specialize hwf hgiven).evolved h
  | union members => exact (evolves_specialize hwf hgiven).evolved h
  | method result args => exact (evolves_specialize hwf hgiven).evolved h
  | slice element => exact (evolves_specialize hwf hgiven).evolved h
  | denote e scope =>
    have hscope := shows_imageIn hwf fun name id hname =>
      hgiven id (Assoc.mem_values_of_get? hname)
    exact (evolves_answer hr hscope (Request.ofExpr e)).evolved h
  | fields id => exact (evolves_query hwf).evolved h
  | layout id => exact (evolves_layout hwf id).evolved h

theorem Leads.evolved (h : r.Leads r') (hr : initial.Evolved r) : r.Evolved r' := by
  induction h with
  | refl => exact hr.wellFormed.evolved
  | tail _ hop ih =>
    obtain ⟨op, hgiven, hafter⟩ := hop
    exact ih.trans (op.evolved (hr.trans ih) hgiven hafter)

theorem Reachable.evolved (hr : r.Reachable) : initial.Evolved r :=
  Leads.evolved hr wellFormed_initial.evolved

end TypeLayer.Registry
