import TypeLayer.Proofs.Nominal.Changes
import TypeLayer.Proofs.Nominal.Walks

/-!
# Specialization

`Evolves` says of a call that it moves the registry by the changes of `Step`, and
what is known of the value that it returns.  A call leaves under construction what was
so before, and nothing else: it settles or withdraws every instance that it lists.

The main result is that specialization returns the instance for the parameters it was
given (`evolves_specializeWithin`).  The proof is by induction on the nesting of
instances: what is built for the fields of an instance can only add to the registry, so
that the instance itself stays as it was listed.
-/

namespace TypeLayer

open TypeLayer.Action

namespace Registry

variable {α β : Type} {r₀ r r' r'' : Registry} {id generic : TypeId} {params : List TypeId}

/-! ## Calls that move by changes -/

/-- A well-formed registry, reached by changes, in which the same instances are under
construction. -/
structure Evolved (r₀ r : Registry) : Prop where
  wellFormed : r.WellFormed
  steps : r₀.Steps r
  building : ∀ id, r.Building id ↔ r₀.Building id

theorem WellFormed.evolved (hr : r.WellFormed) : r.Evolved r :=
  ⟨hr, .refl, fun _ => Iff.rfl⟩

theorem Evolved.step (h : r₀.Evolved r) (hstep : Step r r')
    (hbuilding : ∀ id, r'.Building id ↔ r.Building id) : r₀.Evolved r' :=
  ⟨hstep.wellFormed h.wellFormed, h.steps.tail hstep,
    fun id => (hbuilding id).trans (h.building id)⟩

theorem Evolved.trans (h : r₀.Evolved r) (h' : r.Evolved r') : r₀.Evolved r' :=
  ⟨h'.wellFormed, h.steps.trans h'.steps, fun id => (h'.building id).trans (h.building id)⟩

/-- A new instance is listed, and at the end it is settled or withdrawn. -/
theorem Evolved.construct {r₁ r₂ : Registry} {new : TypeId} (hlist : Step r r₁)
    (h : r₁.Evolved r₂) (hend : Step r₂ r') (hnew : ¬ r.Building new)
    (hlisted : ∀ id, r₁.Building id ↔ r.Building id ∨ id = new)
    (hended : ∀ id, r'.Building id ↔ r₂.Building id ∧ id ≠ new) : r.Evolved r' where
  wellFormed := hend.wellFormed h.wellFormed
  steps := (h.steps.head hlist).tail hend
  building id := by
    rw [hended, h.building, hlisted]
    constructor
    · rintro ⟨hid | hid, hne⟩
      · exact hid
      · exact absurd hid hne
    · intro hid
      exact ⟨.inl hid, fun heq => hnew (heq ▸ hid)⟩

theorem Evolved.extends (h : r₀.Evolved r) : r₀.Extends r :=
  Steps.extends h.steps

theorem Evolved.has {ids : List TypeId} (h : r₀.Evolved r) (hids : r₀.Has ids) : r.Has ids :=
  h.extends.has hids

/-- Calls on a well-formed registry move it by changes, however they come back. -/
def evolution : Contract where
  relies := WellFormed
  moves := Evolved
  refuses r _ r' := r.Evolved r'
  faults _ := True
  refl := WellFormed.evolved
  trans := Evolved.trans
  relies_of_moves _ h := h.wellFormed
  refuses_of_moves := Evolved.trans

/-- From the registry, the call moves by changes, however it comes back, and a
value that it returns is as promised of the registry it leaves. -/
abbrev Evolves (r : Registry) (x : Register α) (V : α → Registry → Prop) : Prop :=
  evolution.Meets r x V

variable {x : Register α} {f : α → Register β} {V : α → Registry → Prop}
  {W : β → Registry → Prop}

theorem evolves_fail {e : DatatypeError} (hr : r.WellFormed) : r.Evolves (fail e) V :=
  Contract.meets_fail (c := evolution) hr.evolved

theorem evolves_modify {change : Registry → Registry} (hr : r.WellFormed)
    (h : Step r (change r)) (hbuilding : ∀ id, (change r).Building id ↔ r.Building id) :
    r.Evolves (modify change) fun _ _ => True :=
  ⟨hr.evolved.step h hbuilding, trivial⟩

theorem evolves_read_bind {q : Registry → Except Fault α}
    (h : ∀ a, q r = .ok a → r.Evolves (f a) W) : r.Evolves (read q >>= f) W :=
  Contract.meets_read_bind (fun _ _ => trivial) h

theorem evolves_query {q : Registry → Ask α} (hr : r.WellFormed) :
    r.Evolves (query q) fun a r' => r' = r ∧ q r = .ok a := by
  unfold Evolves Contract.Meets Action.query
  cases q r with
  | ok a => exact ⟨hr.evolved, rfl, rfl⟩
  | error failure =>
    cases failure with
    | error e => exact hr.evolved
    | fault fault => trivial

theorem Evolves.evolved (hx : r.Evolves x V) (h : (x r).state? = some r') : r.Evolved r' :=
  hx.state (fun _ h => h) (fun _ _ h => h) h

/-! ## Fields of instances -/

/-- A way to get instances evolves every well-formed registry and returns types of
it. -/
def Supplies (apply : TypeId → List TypeId → Register TypeId) : Prop :=
  ∀ (r : Registry) (generic : TypeId) (params : List TypeId), r.WellFormed → r.Has params →
    r.Evolves (apply generic params) fun id r' => id < r'.size

theorem namedTypesAll_eq (tys : List FieldTy) : namedTypesAll tys = tys.flatMap namedTypes := by
  induction tys with
  | nil => rw [namedTypesAll, List.flatMap_nil]
  | cons ty rest ih => rw [namedTypesAll, List.flatMap_cons, ih]

theorem mem_namedTypes_apply {ty : FieldTy} {args : List FieldTy} (hty : ty ∈ args)
    (hid : id ∈ namedTypes ty) : id ∈ namedTypes (.apply generic args) := by
  rw [namedTypes, namedTypesAll_eq]
  exact List.mem_flatMap.2 ⟨ty, hty, hid⟩

theorem Supplies.fills {apply : TypeId → List TypeId → Register TypeId} (happly : Supplies apply)
    (names : List String) (params : List TypeId) :
    evolution.Fills apply names params (fun ty r => r.Has params ∧ r.Has (namedTypes ty))
      fun _ id r => id < r.size where
  fits hevolved hty := ⟨hevolved.has hty.1, hevolved.has hty.2⟩
  kept hevolved := hevolved.extends.lt_size
  concrete _ hty := hty.2 _ List.mem_cons_self
  param _ hty _ hid := hty.1 _ (List.mem_of_getElem? hid)
  unknown hr _ _ := hr.evolved
  missing _ _ _ := trivial
  args hty _ hmem := ⟨hty.1, fun id hid => hty.2 id (mem_namedTypes_apply hmem hid)⟩
  apply hr _ hids := happly _ _ _ hr (forall_mem_of_forall₂ hids fun _ _ _ hid => hid)

/-! ## Specialization -/

/-- The type is what specialization of another with the parameters stands for: an
instance, or, if the other is no template, that type itself. -/
def Specializes (r : Registry) (generic : TypeId) (params : List TypeId) (id : TypeId) : Prop :=
  ∃ g, r.types[generic]? = some g ∧
    (g.specialized = true ∧ params = [] ∧ id = generic ∨
      g.specialized = false ∧ r.IsInstance g.family params id)

theorem Specializes.lt_size (h : r.Specializes generic params id) : id < r.size := by
  obtain ⟨g, hg, ⟨-, -, rfl⟩ | ⟨-, t, ht, -⟩⟩ := h
  · exact Registry.lt_size hg
  · exact Registry.lt_size ht

/-- A new instance is listed before its fields are filled in and stays a type with
its parameters, whatever is built for the fields in between. -/
theorem evolves_build {apply : TypeId → List TypeId → Register TypeId} (happly : Supplies apply)
    {template : Datatype} {family : Family} (hr : r.WellFormed)
    (hentry : r.entry generic = .ok (template, family)) (hgeneric : template.specialized = false)
    (harity : family.wrongArity? params.length = none) (hunlisted : family.instance? params = none)
    (hparams : r.Has params) :
    r.Evolves (build apply template family params)
      fun id r' => r'.Specializes generic params id ∧ ¬ r'.Withdrawn id := by
  have hlist := Step.enlist hentry hgeneric harity hunlisted hparams
  have hinstance : (r.enlist template.family params).2.IsInstance template.family params r.size :=
    ⟨_, Array.getElem?_push_size, rfl, rfl, rfl⟩
  have htemplate := (entry_eq_ok_iff.1 hentry).1
  -- The fields are filled in from the registry that has the instance on its list already.
  refine Contract.meets_build (Contract.meets_instanceFields
    (happly.fills family.paramNames params) (hlist.wellFormed hr) fun field hfield =>
      ⟨hlist.extends.has hparams, hlist.extends.has (hr.fields_known htemplate field hfield)⟩) ?_ ?_
  · intro fields r₁ _ hevolved hmade
    have hnames : fields.map Prod.fst = template.fields.map Field.name := by
      rw [eq_comm, ← List.forall₂_eq_eq_eq, List.forall₂_map_left_iff, List.forall₂_map_right_iff]
      exact hmade.imp fun _ _ h => h.1.symm
    have hknown : r₁.Has (fields.map Prod.snd) :=
      List.forall_mem_map.2 (forall_mem_of_forall₂ hmade fun _ _ _ h => h.2)
    have hbuilding : r₁.Building r.size := (hevolved.building _).2 (building_enlist.2 (.inr rfl))
    have hsettle : Step r₁ (r₁.settle r.size fields) :=
      .settle hbuilding (hnames ▸ hr.fields_distinct htemplate) hknown
    have hsettled := hevolved.construct hlist hsettle r.not_building_size
      (fun _ => building_enlist) fun _ => building_settle
    obtain ⟨g, hg, hbecomes⟩ := hsettled.extends.type htemplate
    refine ⟨hsettled, ⟨g, hg, .inr ⟨hbecomes.specialized.trans hgeneric, ?_⟩⟩, ?_⟩
    · rw [hbecomes.family]
      exact hsettle.extends.isInstance (hevolved.extends.isInstance hinstance)
    · rintro ⟨t, ht, hfailed⟩
      rcases type_of_modifyType ht with ⟨hne, -⟩ | ⟨-, u, -, rfl⟩
      · exact hne rfl
      · cases hfailed
  · intro e r₁ _ hevolved
    obtain ⟨t, ht, hbuilding⟩ := (hevolved.building _).2 (building_enlist.2 (.inr rfl))
    obtain ⟨t', ht', hfamily, -⟩ := hevolved.extends.isInstance hinstance
    obtain rfl := Option.some.inj (ht.symm.trans ht')
    rw [← hfamily]
    exact hevolved.construct hlist (.withdraw ht hbuilding) r.not_building_size
      (fun _ => building_enlist) fun _ => building_withdraw

/-- Specialization returns the instance for the parameters it was given. The instance
has not been withdrawn, unless it is the very type that was asked for. -/
theorem evolves_specializeWithin (depth : Nat) (hr : r.WellFormed) (hparams : r.Has params) :
    r.Evolves (specializeWithin depth generic params)
      fun id r' => r'.Specializes generic params id ∧ (r'.Withdrawn id → id = generic) := by
  induction depth generalizing r generic params with
  | zero => exact Contract.meets_specializeWithin_zero trivial
  | succ depth ih =>
    refine Contract.meets_specializeWithin_succ hr (fun _ _ => trivial) ?_
      (fun _ _ _ _ _ => hr.evolved) (fun _ _ _ _ _ _ => hr.evolved) ?_ ?_
    · intro t f hentry hspecialized hempty
      exact ⟨⟨t, (entry_eq_ok_iff.1 hentry).1, .inl ⟨hspecialized, hempty, rfl⟩⟩, fun _ => rfl⟩
    · intro t f id hentry hgeneric _ hlisted
      obtain ⟨ht, hf⟩ := entry_eq_ok_iff.1 hentry
      exact ⟨⟨t, ht, .inr ⟨hgeneric, hr.isInstance_of_listed hf hlisted⟩⟩,
        fun h => absurd h (hr.not_withdrawn_of_listed hf hlisted)⟩
    · intro t f hentry hgeneric harity hunlisted
      have hsupplies : Supplies (specializeWithin depth) := fun r generic params hr hparams =>
        (ih hr hparams).mono fun id r' _ hid => hid.1.lt_size
      exact (evolves_build hsupplies hr hentry hgeneric harity hunlisted hparams).mono
        fun id r' _ hid => ⟨hid.1, fun h => absurd h hid.2⟩

theorem supplies_specializeWithin (depth : Nat) : Supplies (specializeWithin depth) :=
  fun _ _ _ hr hparams => (evolves_specializeWithin depth hr hparams).mono
    fun _ _ _ h => h.1.lt_size

theorem evolves_specialize (hr : r.WellFormed) (hparams : r.Has params) :
    r.Evolves (specialize generic params) fun id r' => r'.Specializes generic params id :=
  (evolves_specializeWithin _ hr hparams).mono fun _ _ _ h => h.1

end Registry

end TypeLayer
