import TypeLayer.Proofs.Nominal.Families
import TypeLayer.Proofs.Nominal.Growth

/-!
# Declared fields

A field is accepted if its type names parameters that its owner has, and applies each
family to a number of arguments that the family takes.  What is accepted stays acceptable
(`checkFieldTy_extends`), and what is filled in needs no check, so that at any time all
fields of a registry would be accepted again (`Steps.checked`).

`Operation.after_cases` tells the operations apart by what they do to the types that there
are: nothing at all, a field that was accepted, or layouts.
-/

namespace TypeLayer.Registry

open TypeLayer.Action

variable {r r' : Registry} {id generic : TypeId} {k : FamilyId} {t t' : Datatype} {f f' : Family}
  {ty : FieldTy}

/-! ## What is accepted -/

theorem family_eq_ok_iff : r.family id = .ok f ↔ ∃ t, r.entry id = .ok (t, f) := by
  unfold Registry.family
  cases r.entry id with
  | error fault => simp [Functor.map, Except.map]
  | ok entry =>
    obtain ⟨t, f'⟩ := entry
    simp [Functor.map, Except.map]

theorem checkFieldTyAll_eq_ok_iff {tys : List FieldTy} :
    r.checkFieldTyAll t f tys = .ok () ↔ ∀ ty ∈ tys, r.checkFieldTy t f ty = .ok () := by
  induction tys with
  | nil => simp [checkFieldTyAll]
  | cons ty rest ih =>
    rw [checkFieldTyAll, List.forall_mem_cons, ← ih]
    cases r.checkFieldTy t f ty with
    | error e => simp
    | ok accepted => simp

theorem checkFieldTy_param_iff {name : String} :
    r.checkFieldTy t f (.param name) = .ok () ↔ t.specialized = false ∧ name ∈ f.paramNames := by
  rw [checkFieldTy]
  cases t.specialized with
  | true => simp [Query.fail]
  | false =>
    by_cases hname : name ∈ f.paramNames
    · simp [hname]
    · simp [hname, Query.fail]

theorem checkFieldTy_apply_iff {args : List FieldTy} :
    r.checkFieldTy t f (.apply generic args) = .ok () ↔
      (∃ u g, r.entry generic = .ok (u, g) ∧ g.wrongArity? args.length = none) ∧
        ∀ ty ∈ args, r.checkFieldTy t f ty = .ok () := by
  rw [checkFieldTy, ← checkFieldTyAll_eq_ok_iff]
  cases hfamily : r.family generic with
  | error fault =>
    constructor
    · intro h
      cases h
    · rintro ⟨⟨u, g, hentry, -⟩, -⟩
      cases hfamily.symm.trans (family_eq_ok_iff.2 ⟨u, hentry⟩)
  | ok target =>
    obtain ⟨u, hentry⟩ := family_eq_ok_iff.1 hfamily
    have harity : (∃ u g, r.entry generic = .ok (u, g) ∧ g.wrongArity? args.length = none) ↔
        target.wrongArity? args.length = none := by
      constructor
      · rintro ⟨u', g, hentry', harity⟩
        obtain ⟨-, rfl⟩ := eq_of_entry hentry hentry'
        exact harity
      · exact fun harity => ⟨u, target, hentry, harity⟩
    rw [harity]
    dsimp only
    cases target.wrongArity? args.length with
    | some expected => simp [Query.fail]
    | none => simp

/-- What is accepted stays acceptable. -/
theorem checkFieldTy_extends (h : r.Extends r') (ht : t'.specialized = t.specialized)
    (hf : f'.paramNames = f.paramNames) (hty : r.checkFieldTy t f ty = .ok ()) :
    r'.checkFieldTy t' f' ty = .ok () := by
  induction ty using FieldTy.induction_on with
  | concrete id => rw [checkFieldTy]
  | param name =>
    rw [checkFieldTy_param_iff] at hty ⊢
    rwa [ht, hf]
  | apply generic args ih =>
    rw [checkFieldTy_apply_iff] at hty ⊢
    obtain ⟨⟨u, g, hentry, harity⟩, hargs⟩ := hty
    obtain ⟨u', g', hentry', -, hbecomes⟩ := h.entry hentry
    refine ⟨⟨u', g', hentry', (hbecomes.wrongArity? _).trans harity⟩, fun ty hmem => ?_⟩
    exact ih ty hmem (hargs ty hmem)

/-- The applications in the type of a field are accepted at any depth. -/
theorem entry_of_mem_applications (hty : r.checkFieldTy t f ty = .ok ()) {p : TypeId × Nat}
    (hp : p ∈ applications ty) :
    ∃ u g, r.entry p.1 = .ok (u, g) ∧ g.wrongArity? p.2 = none := by
  induction ty using FieldTy.induction_on with
  | concrete id => cases hp
  | param name => cases hp
  | apply generic args ih =>
    rw [checkFieldTy_apply_iff] at hty
    rcases mem_applications_apply.1 hp with rfl | ⟨ty, hmem, hp⟩
    · exact hty.1
    · exact ih ty hmem (hty.2 ty hmem) hp

/-! ## Changes keep what is accepted -/

/-- All fields would be accepted. -/
def Checked (r : Registry) : Prop :=
  ∀ {id : TypeId} {t : Datatype} {f : Family}, r.entry id = .ok (t, f) →
    ∀ field ∈ t.fields, r.checkFieldTy t f field.ty = .ok ()

/-- The fields of a type after a change: as they were, or accepted, or filled in. -/
theorem Step.field_cases (h : Step r r') (ht' : r'.types[id]? = some t') {field : Field}
    (hfield : field ∈ t'.fields) :
    (∃ t, r.types[id]? = some t ∧ field ∈ t.fields) ∨
      (∃ t f, r.entry id = .ok (t, f) ∧ r.checkFieldTy t f field.ty = .ok ()) ∨
      ∃ type, field.ty = .concrete type := by
  cases h with
  | declare | enlist =>
    replace ht' := (Array.getElem?_push ▸ ht' :)
    split at ht'
    · cases ht'
      cases hfield
    · exact .inl ⟨t', ht', hfield⟩
  | setField entry style checked known =>
    rcases type_of_modifyType ht' with ⟨-, ht⟩ | ⟨rfl, t, ht, rfl⟩
    · exact .inl ⟨t', ht, hfield⟩
    · rcases mem_putField hfield with rfl | hfield
      · exact .inr (.inl ⟨_, _, entry, checked⟩)
      · exact .inl ⟨t, ht, hfield⟩
  | settle building distinct known =>
    rcases type_of_modifyType ht' with ⟨-, ht⟩ | ⟨rfl, t, ht, rfl⟩
    · exact .inl ⟨t', ht, hfield⟩
    · obtain ⟨made, -, rfl⟩ := List.mem_map.1 hfield
      exact .inr (.inr ⟨made.2, rfl⟩)
  | withdraw | setLayout =>
    rcases type_of_modifyType ht' with ⟨-, ht⟩ | ⟨rfl, t, ht, rfl⟩
    · exact .inl ⟨t', ht, hfield⟩
    · exact .inl ⟨t, ht, hfield⟩

theorem Step.checked (h : Step r r') (hwf : r.WellFormed) (hr : r.Checked) : r'.Checked := by
  intro id t' f' hentry' field hfield
  -- A type that was there before is judged as it was then.
  have hstays : ∀ t f, r.entry id = .ok (t, f) → r.checkFieldTy t f field.ty = .ok () →
      r'.checkFieldTy t' f' field.ty = .ok () := by
    intro t f hentry hty
    obtain ⟨t₁, f₁, hentry₁, hbecomes, hbecomes'⟩ := h.extends.entry hentry
    obtain ⟨rfl, rfl⟩ := eq_of_entry hentry₁ hentry'
    exact checkFieldTy_extends h.extends hbecomes.specialized hbecomes'.paramNames hty
  rcases h.field_cases (entry_eq_ok_iff.1 hentry').1 hfield with
    ⟨t, ht, hfield⟩ | ⟨t, f, hentry, hty⟩ | ⟨type, hty⟩
  · obtain ⟨t₁, f, hentry⟩ := hwf.exists_entry (lt_size ht)
    obtain rfl := Option.some.inj (ht.symm.trans (entry_eq_ok_iff.1 hentry).1)
    exact hstays t f hentry (hr hentry field hfield)
  · exact hstays t f hentry hty
  · rw [hty, checkFieldTy]

theorem Steps.checked (h : r.Steps r') (hwf : r.WellFormed) (hr : r.Checked) : r'.Checked := by
  induction h with
  | refl => exact hr
  | tail hsteps hstep ih => exact hstep.checked (Steps.wellFormed hsteps hwf) ih

theorem Evolved.checked (hr : initial.Evolved r) : r.Checked := by
  refine Steps.checked hr.steps wellFormed_initial ?_
  intro id t f hentry field hfield
  have hempty : ∀ t ∈ initial.types, t.fields = [] := by decide
  rw [hempty t (Array.mem_of_getElem? (entry_eq_ok_iff.1 hentry).1)] at hfield
  cases hfield

/-! ## Layouts -/

section Layouts

variable {P : Registry → Prop} {layoutOf : TypeId → Register Layout}

/-- Calls that keep a property of the registry, however they come back. -/
def keeping (P : Registry → Prop) : Contract where
  relies := P
  moves _ := P
  refuses _ _ := P
  faults _ := True
  refl h := h
  trans _ h := h
  relies_of_moves _ h := h
  refuses_of_moves _ h := h

/-- The way to get layouts keeps a property, where it is asked for the layouts of members in
place. -/
def KeepsPlaced (P : Registry → Prop) (layoutOf : TypeId → Register Layout) : Prop :=
  ∀ (r : Registry) (id : TypeId) (t : Datatype) (f : Family), P r → r.entry id = .ok (t, f) →
    f.style ≠ .object → (keeping P).Meets r (layoutOf id) fun _ _ => True

theorem keeps_slotOf (hlayout : KeepsPlaced P layoutOf) (hr : P r) (name : String) (id : TypeId) :
    (keeping P).Meets r (slotOf layoutOf name id) fun _ _ => True := by
  refine Contract.meets_slotOf hr (fun _ _ => trivial) (fun _ _ _ => trivial) fun f hf hstyle => ?_
  obtain ⟨t, hentry⟩ := family_eq_ok_iff.1 hf
  exact hlayout r id t f hr hentry hstyle

theorem keeps_lower (hlayout : KeepsPlaced P layoutOf) (hr : P r) (id : TypeId) (t : Datatype)
    (f : Family) : (keeping P).Meets r (lower layoutOf id t f) fun _ _ => True := by
  have hlowers : (keeping P).Lowers layoutOf r id t f (fun _ _ => True) fun _ _ => True :=
    { relies := hr
      start := trivial
      member _ hr' _ := (keeps_slotOf hlayout hr' _ _).mono fun _ _ _ _ => ⟨trivial, trivial⟩
      refused _ _ := hr
      unanswered _ _ := trivial
      width _ _ := hr
      missing _ _ := trivial
      unnamed _ _ := trivial }
  exact (Contract.meets_lower hlowers).mono fun _ _ _ _ => trivial

theorem keeps_layoutWithin_succ {depth : Nat} (hlayout : KeepsPlaced P (layoutWithin depth))
    (hr : P r) (hset : ∀ t f l r', r.entry id = .ok (t, f) → t.layout = none → P r' →
      P (r'.modifyType id fun t => { t with layout := some l })) :
    (keeping P).Meets r (layoutWithin (depth + 1) id) fun _ _ => True := by
  refine Contract.meets_layoutWithin_succ hr (fun _ _ => trivial) (fun _ _ _ _ _ => trivial)
    (fun _ _ _ _ _ => trivial) (fun _ _ _ _ => hr) fun t f hentry hnone _ => ?_
  exact (keeps_lower hlayout hr id t f).mono fun l r' hr' _ =>
    ⟨hset t f l r' hentry hnone hr', trivial⟩

/-- What does not depend on layouts is kept when a layout is worked out. -/
theorem keeps_layoutWithin
    (hP : ∀ r id layout, P r → P (r.modifyType id fun t => { t with layout := some layout }))
    (depth : Nat) (hr : P r) (id : TypeId) :
    (keeping P).Meets r (layoutWithin depth id) fun _ _ => True := by
  induction depth generalizing r id with
  | zero => exact Contract.meets_layoutWithin_zero trivial
  | succ depth ih =>
    exact keeps_layoutWithin_succ (fun r id _ _ hr _ _ => ih hr id) hr
      fun _ _ l r' _ _ hr' => hP r' id l hr'

end Layouts

/-- The registry without its layouts. -/
def unlaid (r : Registry) : Registry :=
  { r with types := r.types.map fun t => { t with layout := none } }

theorem unlaid_modifyType (r : Registry) (id : TypeId) (layout : Option Layout) :
    (r.modifyType id fun t => { t with layout }).unlaid = r.unlaid := by
  unfold unlaid modifyType
  congr 1
  refine Array.ext_getElem? fun i => ?_
  rw [Array.getElem?_map, Array.getElem?_map, Array.getElem?_modify]
  split
  · cases r.types[i]? <;> rfl
  · rfl

theorem unlaid_layout (h : (layout id r).state? = some r') : r'.unlaid = r.unlaid := by
  have hkeeps := keeps_layoutWithin (P := fun r₁ => r₁.unlaid = r.unlaid)
    (fun r₁ id layout hr₁ => (r₁.unlaid_modifyType id layout).trans hr₁) (r.size + 1) rfl id
  exact hkeeps.state (P := fun r₁ => r₁.unlaid = r.unlaid) (fun _ h => h) (fun _ _ h => h) h

theorem families_of_unlaid (h : r'.unlaid = r.unlaid) : r'.families = r.families := by
  show r'.unlaid.families = r.unlaid.families
  rw [h]

/-- A type is as it was but for its layout. -/
theorem eq_of_unlaid (h : r'.unlaid = r.unlaid) (ht' : r'.types[id]? = some t') :
    ∃ t, r.types[id]? = some t ∧ t' = { t with layout := t'.layout } := by
  have htypes : (r'.unlaid).types[id]? = (r.unlaid).types[id]? := by rw [h]
  rw [unlaid, unlaid, Array.getElem?_map, Array.getElem?_map, ht'] at htypes
  cases ht : r.types[id]? with
  | none =>
    rw [ht] at htypes
    cases htypes
  | some t =>
    rw [ht] at htypes
    refine ⟨t, rfl, ?_⟩
    exact congrArg (fun u => { u with layout := t'.layout }) (Option.some.inj htypes)

theorem type_of_unlaid (h : r'.unlaid = r.unlaid) (ht' : r'.types[id]? = some t') :
    ∃ t, r.types[id]? = some t ∧ t'.fields = t.fields ∧ t'.specialized = t.specialized ∧
      t'.progress = t.progress := by
  obtain ⟨t, ht, heq⟩ := eq_of_unlaid h ht'
  rw [heq]
  exact ⟨t, ht, rfl, rfl, rfl⟩

theorem entry_of_unlaid (h : r'.unlaid = r.unlaid) (hentry : r'.entry id = .ok (t', f)) :
    ∃ t, r.entry id = .ok (t, f) ∧ t' = { t with layout := t'.layout } := by
  obtain ⟨ht', hf⟩ := entry_eq_ok_iff.1 hentry
  obtain ⟨t, ht, heq⟩ := eq_of_unlaid h ht'
  refine ⟨t, entry_eq_ok_iff.2 ⟨ht, ?_⟩, heq⟩
  rw [← families_of_unlaid h]
  rw [heq] at hf
  exact hf

theorem extends_of_unlaid (h : r'.unlaid = r.unlaid) : r.Extends r' where
  type ht := by
    obtain ⟨t', ht', heq⟩ := eq_of_unlaid h.symm ht
    refine ⟨t', ht', ?_⟩
    rw [heq]
    exact ⟨rfl, rfl, rfl, fun _ => rfl⟩
  family hf := ⟨_, families_of_unlaid h ▸ hf, .refl _⟩
  name hname := by
    show r'.unlaid.names.get? _ = _
    rw [h]
    exact hname

/-! ## Operations -/

theorem declareNew_cases {d : Declaration} (h : (declareNew d r).state? = some r') :
    r' = r.declare d ∨ r' = r := by
  unfold declareNew at h
  split at h
  · exact .inr (Option.some.inj h).symm
  · exact .inl (Option.some.inj h).symm

theorem addField_cases {name : String} (h : (addField id name ty r).state? = some r') :
    (∃ t f, r.entry id = .ok (t, f) ∧ f.style = .object ∧ r.checkFieldTy t f ty = .ok () ∧
      r' = r.modifyType id fun t => { t with fields := putField name ty t.fields }) ∨ r' = r := by
  unfold addField at h
  rw [bind_apply, Action.read] at h
  cases hentry : r.entry id with
  | error fault =>
    rw [hentry] at h
    cases h
  | ok entry =>
    obtain ⟨t, f⟩ := entry
    rw [hentry] at h
    dsimp only at h
    split at h
    · next hstyle =>
      rw [bind_apply, query] at h
      cases hchecked : r.checkFieldTy t f ty with
      | ok accepted =>
        rw [hchecked] at h
        exact .inl ⟨t, f, rfl, hstyle, hchecked, (Option.some.inj h).symm⟩
      | error failure =>
        rw [hchecked] at h
        cases failure with
        | error e => exact .inr (Option.some.inj h).symm
        | fault fault => cases h
    · exact .inr (Option.some.inj h).symm

/-- What can be declared besides the built-in types. Only an object has parameters. -/
structure Declaration.Offered (d : Declaration) : Prop where
  variadic : d.variadic = false
  params : d.style ≠ .object → d.paramNames = []

/-- What an operation does: it declares a type, adds a field that is accepted, builds
instances, or works out layouts. One that is refused may do nothing at all. -/
theorem Operation.after_cases {op : Operation} (h : op.after r = some r') :
    (∃ d : Declaration, d.Offered ∧ r' = r.declare d) ∨
      (∃ id name ty t f, op = .addField id name ty ∧ r.entry id = .ok (t, f) ∧
        f.style = .object ∧ r.checkFieldTy t f ty = .ok () ∧
        r' = r.modifyType id fun t => { t with fields := putField name ty t.fields }) ∨
      r.Grown (fun _ => True) r' ∨ r'.unlaid = r.unlaid := by
  have hdeclare : ∀ {d : Declaration}, d.Offered → (declareNew d r).state? = some r' →
      (∃ d : Declaration, d.Offered ∧ r' = r.declare d) ∨ r' = r :=
    fun hd h => (declareNew_cases h).imp_left fun heq => ⟨_, hd, heq⟩
  have hsame : r' = r → r'.unlaid = r.unlaid := fun heq => by rw [heq]
  cases op with
  | create name supertype paramNames =>
    exact (hdeclare ⟨rfl, absurd rfl⟩ h).imp_right fun heq => .inr (.inr (hsame heq))
  | createInteger name bits =>
    exact (hdeclare ⟨rfl, fun _ => rfl⟩ h).imp_right fun heq => .inr (.inr (hsame heq))
  | createFloat name bits =>
    exact (hdeclare ⟨rfl, fun _ => rfl⟩ h).imp_right fun heq => .inr (.inr (hsame heq))
  | addField id name ty =>
    rcases addField_cases h with ⟨t, f, hadd⟩ | heq
    · exact .inr (.inl ⟨id, name, ty, t, f, rfl, hadd⟩)
    · exact .inr (.inr (.inr (hsame heq)))
  | specialize | tuple | union | method | slice => exact .inr (.inr (.inl (grown_specialize h)))
  | denote e scope => exact .inr (.inr (.inl (grown_denote h)))
  | fields id =>
    refine .inr (.inr (.inr (hsame ?_)))
    exact (keeps_query (P := fun r₁ => r₁ = r) (·.fields id)).state rfl h
  | layout id => exact .inr (.inr (.inr (unlaid_layout h)))

/-- A declared type is complete, and stays so. -/
theorem Reachable.template_ready (hr : r.Reachable) (hf : r.families[k]? = some f) :
    ∃ t, r.types[f.template]? = some t ∧ t.progress = .ready := by
  induction hr generalizing k f with
  | refl =>
    have hready : ∀ f ∈ initial.families,
        ∃ t ∈ initial.types[f.template]?, t.progress = .ready := by
      decide
    exact hready f (Array.mem_of_getElem? hf)
  | @tail r₁ r₂ _ hop ih =>
    obtain ⟨op, -, hafter⟩ := hop
    rcases op.after_cases hafter with ⟨d, -, rfl⟩ | ⟨id, name, ty, t, f₀, -, -, -, -, rfl⟩ |
      hgrown | hunlaid
    · replace hf := (Array.getElem?_push ▸ hf :)
      split at hf
      · cases hf
        exact ⟨_, Array.getElem?_push_size, rfl⟩
      · obtain ⟨t, ht, hready⟩ := ih hf
        refine ⟨t, ?_, hready⟩
        exact Array.getElem?_push.trans ((if_neg (Nat.ne_of_lt (lt_size ht))).trans ht)
    · obtain ⟨t₀, ht₀, hready⟩ := ih hf
      rw [types_modifyType, ht₀]
      split
      · exact ⟨_, rfl, hready⟩
      · exact ⟨t₀, rfl, hready⟩
    · obtain ⟨f₀, hf₀, hbecomes, -⟩ := hgrown.family hf
      obtain ⟨t, ht, hready⟩ := ih hf₀
      rw [hbecomes.template]
      exact ⟨t, (hgrown.kept (lt_size ht)).trans ht, hready⟩
    · rw [families_of_unlaid hunlaid] at hf
      obtain ⟨t, ht, hready⟩ := ih hf
      obtain ⟨t', ht', -, -, hprogress⟩ := type_of_unlaid hunlaid.symm ht
      exact ⟨t', ht', hprogress.symm.trans hready⟩

/-- What is fixed when a family is declared holds of all families, if it holds of the built-in
ones and of those that can be declared. -/
theorem Reachable.forall_families {P : Family → Prop} (hr : r.Reachable)
    (hinitial : ∀ f ∈ initial.families, P f)
    (hbecomes : ∀ f f' : Family, f.Becomes f' → P f → P f')
    (hdeclared : ∀ f : Family, f.variadic = false → (f.style ≠ .object → f.paramNames = []) → P f)
    (hf : r.families[k]? = some f) : P f := by
  induction hr generalizing k f with
  | refl => exact hinitial f (Array.mem_of_getElem? hf)
  | @tail r₁ r₂ _ hop ih =>
    obtain ⟨op, -, hafter⟩ := hop
    rcases op.after_cases hafter with ⟨d, hd, rfl⟩ | ⟨id, name, ty, t, f₀, -, -, -, -, rfl⟩ |
      hgrown | hunlaid
    · replace hf := (Array.getElem?_push ▸ hf :)
      split at hf
      · cases hf
        exact hdeclared _ hd.variadic hd.params
      · exact ih hf
    · exact ih hf
    · obtain ⟨f₀, hf₀, hf₀f, -⟩ := hgrown.family hf
      exact hbecomes f₀ f hf₀f (ih hf₀)
    · rw [families_of_unlaid hunlaid] at hf
      exact ih hf

/-- The families that take any number of parameters are built in, and have no names for
them. -/
theorem Reachable.paramNames_of_variadic (hr : r.Reachable) (hf : r.families[k]? = some f)
    (hvariadic : f.variadic = true) : f.paramNames = [] := by
  refine hr.forall_families (P := fun f => f.variadic = true → f.paramNames = []) (by decide)
    (fun f f' h hnone hvariadic => ?_) (fun f hfixed _ hvariadic => ?_) hf hvariadic
  · rw [h.paramNames]
    exact hnone (h.variadic ▸ hvariadic)
  · cases hfixed.symm.trans hvariadic

/-- Numbers have no parameters. -/
theorem Reachable.isGeneric_of_number (hr : r.Reachable) (hf : r.families[k]? = some f)
    (hnumber : f.style = .integer ∨ f.style = .floating) : f.isGeneric = false := by
  refine hr.forall_families
    (P := fun f => f.style = .integer ∨ f.style = .floating → f.isGeneric = false) (by decide)
    (fun f f' h hnone hnumber => ?_) (fun f hvariadic hparams hnumber => ?_) hf hnumber
  · rw [Family.isGeneric, h.variadic, h.paramNames]
    exact hnone (h.style ▸ hnumber)
  · have hobject : f.style ≠ .object := by
      intro hstyle
      simp [hstyle] at hnumber
    simp [Family.isGeneric, hvariadic, hparams hobject]

end TypeLayer.Registry
