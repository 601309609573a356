import TypeLayer.Proofs.Nominal.Fields
import TypeLayer.Proofs.Nominal.Withdrawal

/-!
# Fields of instances

An instance has the fields of its template, with types in place of the parameters.
`Denotes` says what the type of a field stands for; what an application stands for is left
open there, since templates can apply each other and themselves.  It is the type that
specialization gives for it, and while instances are being built this can be one of which the
fields are not filled in yet.

So the fields of an instance are first described with `Specializes`, which only looks at the
parameters of a type and holds from the moment it is listed (`procures_specializeWithin`).
A call that returns withdraws nothing and leaves nothing under construction.  Then all
that was listed along the way is complete, and specialization finds it
(`specialize_substitutes`).
-/

namespace TypeLayer

/-! ## What declared types stand for -/

namespace FieldTy

variable {applied applied' : TypeId → List TypeId → TypeId → Prop} {names : List String}
  {params : List TypeId}

mutual
/-- What the type of a field stands for, for given parameters of its owner. `applied` says
what an application stands for, given what its arguments do. -/
def Denotes (applied : TypeId → List TypeId → TypeId → Prop) (names : List String)
    (params : List TypeId) : FieldTy → TypeId → Prop
  | .concrete c, id => id = c
  | .param name, id => ∃ i, names.idxOf? name = some i ∧ params[i]? = some id
  | .apply generic args, id => ∃ ids, DenoteAll applied names params args ids ∧ applied generic ids id
def DenoteAll (applied : TypeId → List TypeId → TypeId → Prop) (names : List String)
    (params : List TypeId) : List FieldTy → List TypeId → Prop
  | [], ids => ids = []
  | ty :: rest, ids =>
    ∃ id ids', ids = id :: ids' ∧ Denotes applied names params ty id ∧
      DenoteAll applied names params rest ids'
end

theorem denoteAll_iff {tys : List FieldTy} {ids : List TypeId} :
    DenoteAll applied names params tys ids ↔
      List.Forall₂ (Denotes applied names params) tys ids := by
  induction tys generalizing ids with
  | nil => simp [DenoteAll]
  | cons ty rest ih =>
    rw [DenoteAll]
    cases ids with
    | nil => simp
    | cons id ids => simp [ih]

theorem Denotes.mono {ty : FieldTy} {id : TypeId}
    (h : ∀ generic ids id, applied generic ids id → applied' generic ids id)
    (hty : Denotes applied names params ty id) : Denotes applied' names params ty id := by
  induction ty using induction_on generalizing id with
  | concrete c => exact hty
  | param name => exact hty
  | apply generic args ih =>
    obtain ⟨ids, hids, hid⟩ := hty
    have hargs : List.Forall₂ (fun ty id => ty ∈ args ∧ Denotes applied names params ty id)
        args ids := (List.forall₂_and_left _ _).2 ⟨fun _ hty => hty, denoteAll_iff.1 hids⟩
    refine ⟨ids, denoteAll_iff.2 (hargs.imp fun ty id harg => ?_), h _ _ _ hid⟩
    exact ih ty harg.1 harg.2

end FieldTy

/-- The field of an instance that comes from a field of its template. -/
def Field.Gives (applied : TypeId → List TypeId → TypeId → Prop) (names : List String)
    (params : List TypeId) (field : Field) (made : String × TypeId) : Prop :=
  made.1 = field.name ∧ field.ty.Denotes applied names params made.2

namespace Registry

open TypeLayer.Action

variable {r₀ r r' r'' : Registry} {id generic : TypeId} {params : List TypeId} {t : Datatype}
  {f : Family} {applied applied' : TypeId → List TypeId → TypeId → Prop}

/-- The fields of the type come from those of the template of its family. -/
def Substituted (r : Registry) (applied : TypeId → List TypeId → TypeId → Prop) (t : Datatype) :
    Prop :=
  ∃ (g : TypeId) (template : Datatype) (f : Family) (made : List (String × TypeId)),
    r.entry g = .ok (template, f) ∧ template.specialized = false ∧ template.family = t.family ∧
      concreteFields? t.fields = some made ∧
      List.Forall₂ (Field.Gives applied f.paramNames t.params) template.fields made

/-! ## Changes that keep templates -/

/-- The second registry has the types of the first one with their parameters, and its
templates with their fields. -/
structure Carries (r r' : Registry) : Prop where
  type : ∀ {id : TypeId} {t : Datatype}, r.types[id]? = some t → ∃ t', r'.types[id]? = some t' ∧
    t'.family = t.family ∧ t'.params = t.params ∧ t'.specialized = t.specialized ∧
      (t.specialized = false → t'.fields = t.fields)
  family : ∀ {k : FamilyId} {f : Family}, r.families[k]? = some f →
    ∃ f', r'.families[k]? = some f' ∧ f.Becomes f'

theorem Carries.trans (h : r.Carries r') (h' : r'.Carries r'') : r.Carries r'' where
  type ht := by
    obtain ⟨t', ht', hfamily, hparams, hspecialized, hfields⟩ := h.type ht
    obtain ⟨t'', ht'', hfamily', hparams', hspecialized', hfields'⟩ := h'.type ht'
    refine ⟨t'', ht'', hfamily'.trans hfamily, hparams'.trans hparams,
      hspecialized'.trans hspecialized, fun hgeneric => ?_⟩
    exact (hfields' (hspecialized.trans hgeneric)).trans (hfields hgeneric)
  family hf := by
    obtain ⟨f', hf', hbecomes⟩ := h.family hf
    obtain ⟨f'', hf'', hbecomes'⟩ := h'.family hf'
    exact ⟨f'', hf'', hbecomes.trans hbecomes'⟩

theorem Grown.carries {good : TypeId → Prop} (h : r.Grown good r') : r.Carries r' where
  type ht := ⟨_, (h.kept (lt_size ht)).trans ht, rfl, rfl, rfl, fun _ => rfl⟩
  family {k f} hf := by
    have hlt := (Array.getElem?_eq_some_iff.1 hf).1
    have hf' := Array.getElem?_eq_getElem (h.families_size ▸ hlt)
    obtain ⟨f₀, hf₀, hbecomes, -⟩ := h.family hf'
    obtain rfl := Option.some.inj (hf.symm.trans hf₀)
    exact ⟨_, hf', hbecomes⟩

theorem carries_modifyType {i : TypeId} {change : Datatype → Datatype}
    (hchange : ∀ t, r.types[i]? = some t → (change t).family = t.family ∧
      (change t).params = t.params ∧ (change t).specialized = t.specialized ∧
      (t.specialized = false → (change t).fields = t.fields)) :
    r.Carries (r.modifyType i change) where
  type {id t} ht := by
    rw [types_modifyType]
    split
    · next hi => exact ⟨change t, by rw [ht]; rfl, hchange t (hi ▸ ht)⟩
    · exact ⟨t, ht, rfl, rfl, rfl, fun _ => rfl⟩
  family hf := ⟨_, hf, .refl _⟩

theorem carries_modifyFamily {i : FamilyId} {change : Family → Family}
    (hchange : ∀ f : Family, f.Becomes (change f)) : r.Carries (r.modifyFamily i change) where
  type ht := ⟨_, ht, rfl, rfl, rfl, fun _ => rfl⟩
  family {k f} hf := by
    by_cases hk : i = k
    · subst hk
      exact ⟨change f, families_modifyFamily hf, hchange f⟩
    · refine ⟨f, ?_, .refl f⟩
      show (r.families.modify i change)[k]? = some f
      rw [Array.getElem?_modify, if_neg hk]
      exact hf

theorem carries_settle {fields : List (String × TypeId)}
    (hinstance : ∀ t, r.types[id]? = some t → t.specialized = true) :
    r.Carries (r.settle id fields) := by
  refine carries_modifyType fun t ht => ⟨rfl, rfl, rfl, fun hgeneric => ?_⟩
  rw [hinstance t ht] at hgeneric
  cases hgeneric

theorem carries_withdraw (k : FamilyId) (id : TypeId) : r.Carries (r.withdraw k id) :=
  (carries_modifyFamily fun f => f.becomes_relisted _).trans
    (carries_modifyType fun _ _ => ⟨rfl, rfl, rfl, fun _ => rfl⟩)

theorem Carries.specializes (h : r.Carries r') (hid : r.Specializes generic params id) :
    r'.Specializes generic params id := by
  obtain ⟨g, hg, hcases⟩ := hid
  obtain ⟨g', hg', hfamily, -, hspecialized, -⟩ := h.type hg
  refine ⟨g', hg', ?_⟩
  rw [hspecialized, hfamily]
  refine hcases.imp_right fun hinstance => ⟨hinstance.1, ?_⟩
  obtain ⟨t, ht, htfamily, htparams, htspecialized⟩ := hinstance.2
  obtain ⟨t', ht', hfamily', hparams', hspecialized', -⟩ := h.type ht
  exact ⟨t', ht', hfamily'.trans htfamily, hparams'.trans htparams,
    hspecialized'.trans htspecialized⟩

theorem Carries.substituted (h : r.Carries r') (ht : r.Substituted applied t)
    (happlied : ∀ generic ids id, applied generic ids id → applied' generic ids id) :
    r'.Substituted applied' t := by
  obtain ⟨g, template, f, made, hentry, hgeneric, hfamily, hmade, hgives⟩ := ht
  obtain ⟨htemplate, hf⟩ := entry_eq_ok_iff.1 hentry
  obtain ⟨template', htemplate', hfamily', -, hspecialized', hfields'⟩ := h.type htemplate
  obtain ⟨f', hf', hbecomes⟩ := h.family hf
  refine ⟨g, template', f', made, entry_eq_ok_iff.2 ⟨htemplate', hfamily' ▸ hf'⟩,
    hspecialized'.trans hgeneric, hfamily'.trans hfamily, hmade, ?_⟩
  rw [hfields' hgeneric, hbecomes.paramNames]
  exact hgives.imp fun field made hfield => ⟨hfield.1, hfield.2.mono happlied⟩

/-! ## Construction -/

/-- What a call that has begun with the first registry gets for an application. It is an
instance that was not withdrawn by then, or the type that was applied. -/
def Obtains (r₀ r : Registry) (generic : TypeId) (params : List TypeId) (id : TypeId) : Prop :=
  r.Specializes generic params id ∧ (r₀.Withdrawn id → id = generic)

theorem Obtains.carried (h : r₀.Obtains r generic params id) (hcarries : r.Carries r') :
    r₀.Obtains r' generic params id :=
  ⟨hcarries.specializes h.1, h.2⟩

/-- What became of the instances that were listed from the second registry to the third:
those that were completed have their fields from their templates, and those that were withdrawn
belong to templates that have fields. -/
structure Completes (r₀ r r' : Registry) : Prop where
  ready : ∀ {id : TypeId} {t : Datatype}, r.size ≤ id → r'.types[id]? = some t →
    t.progress = .ready → r'.Substituted (r₀.Obtains r') t
  failed : ∀ {id : TypeId} {t : Datatype}, r.size ≤ id → r'.types[id]? = some t →
    t.progress = .failed → ∃ (g : TypeId) (template : Datatype), r'.types[g]? = some template ∧
      template.specialized = false ∧ template.family = t.family ∧ template.fields ≠ []

theorem completes_refl (r₀ r : Registry) : Completes r₀ r r where
  ready hid ht := absurd (lt_size ht) (Nat.not_lt_of_le hid)
  failed hid ht := absurd (lt_size ht) (Nat.not_lt_of_le hid)

/-- A template that has fields still has them. -/
theorem Carries.template {g : TypeId} {template : Datatype} (h : r.Carries r')
    (hg : r.types[g]? = some template) (hgeneric : template.specialized = false)
    (hfamily : template.family = t.family) (hfields : template.fields ≠ []) :
    ∃ (g : TypeId) (template : Datatype), r'.types[g]? = some template ∧
      template.specialized = false ∧ template.family = t.family ∧ template.fields ≠ [] := by
  obtain ⟨template', hg', hfamily', -, hspecialized', hfields'⟩ := h.type hg
  exact ⟨g, template', hg', hspecialized'.trans hgeneric, hfamily'.trans hfamily,
    hfields' hgeneric ▸ hfields⟩

theorem Completes.trans (h : Completes r₀ r r') (h' : Completes r₀ r' r'')
    (hgrown : r'.Grown (fun _ => True) r'') : Completes r₀ r r'' where
  ready {id t} hid ht hready := by
    by_cases hlt : id < r'.size
    · refine hgrown.carries.substituted (h.ready hid ((hgrown.kept hlt).symm.trans ht) hready) ?_
      exact fun _ _ _ hobtains => hobtains.carried hgrown.carries
    · exact h'.ready (Nat.le_of_not_lt hlt) ht hready
  failed {id t} hid ht hfailed := by
    by_cases hlt : id < r'.size
    · obtain ⟨g, template, hg, hgeneric, hfamily, hfields⟩ :=
        h.failed hid ((hgrown.kept hlt).symm.trans ht) hfailed
      exact hgrown.carries.template hg hgeneric hfamily hfields
    · exact h'.failed (Nat.le_of_not_lt hlt) ht hfailed

/-- Calls that fill in the fields of what they complete, also if they are refused. -/
def substitution (r : Registry) : Contract where
  relies r' := r.Grown (fun _ => True) r' ∧ r'.WellFormed
  moves r' r'' := r'.Grown (fun _ => True) r'' ∧ r''.WellFormed ∧ r.Completes r' r''
  refuses r' _ r'' := r'.Grown (fun _ => True) r'' ∧ r''.WellFormed ∧ r.Completes r' r''
  faults _ := True
  refl {r'} hr := ⟨.refl r' _, hr.2, completes_refl r r'⟩
  trans h h' := ⟨h.1.trans h'.1, h'.2.1, h.2.2.trans h'.2.2 h'.1⟩
  relies_of_moves hr h := ⟨hr.1.trans h.1, h.2.1⟩
  refuses_of_moves h h' := ⟨h.1.trans h'.1, h'.2.1, h.2.2.trans h'.2.2 h'.1⟩

/-- A way to get instances gets what applications stand for, and fills in the fields of what it
completes. -/
def Procures (apply : TypeId → List TypeId → Register TypeId) (r : Registry) : Prop :=
  ∀ (r' : Registry) (generic : TypeId) (params : List TypeId), (substitution r).relies r' →
    r'.Has params → (substitution r).Meets r' (apply generic params) fun id r'' =>
      r.Obtains r'' generic params id

theorem Procures.fills {apply : TypeId → List TypeId → Register TypeId}
    (happly : Procures apply r) (names : List String) (params : List TypeId) :
    (substitution r).Fills apply names params (fun ty r' => r'.Has params ∧ r'.Has (namedTypes ty))
      fun ty id r' => id < r'.size ∧ ty.Denotes (r.Obtains r') names params id where
  fits hmoves hty := ⟨fun id hid => Nat.lt_of_lt_of_le (hty.1 id hid) hmoves.1.size_le,
    fun id hid => Nat.lt_of_lt_of_le (hty.2 id hid) hmoves.1.size_le⟩
  kept hmoves hid := ⟨Nat.lt_of_lt_of_le hid.1 hmoves.1.size_le,
    hid.2.mono fun _ _ _ hobtains => hobtains.carried hmoves.1.carries⟩
  concrete _ hty := ⟨hty.2 _ List.mem_cons_self, rfl⟩
  param _ hty hname hid := ⟨hty.1 _ (List.mem_of_getElem? hid), _, hname, hid⟩
  unknown {r' _} hr' _ _ := ⟨.refl r' _, hr'.2, completes_refl r r'⟩
  missing _ _ _ := trivial
  args hty _ hmem := ⟨hty.1, fun id hid => hty.2 id (mem_namedTypes_apply hmem hid)⟩
  apply {r' generic args ids} hr' _ hids := by
    have hhas : r'.Has ids := forall_mem_of_forall₂ hids fun _ _ _ hid => hid.1
    refine (happly r' generic ids hr' hhas).mono fun id r'' hmoves hid => ?_
    refine ⟨hid.1.lt_size, ids, ?_, hid⟩
    refine FieldTy.denoteAll_iff.2 (hids.imp fun ty id hty => ?_)
    exact hty.2.mono fun _ _ _ hobtains => hobtains.carried hmoves.1.carries

/-- A new instance is listed with its parameters, and when its fields have been filled in, they
come from those of the template. -/
theorem completes_settle {made : List (String × TypeId)}
    (hentry : r'.entry generic = .ok (t, f)) (hgeneric : t.specialized = false)
    (hgrown : (r'.enlist t.family params).2.Grown (fun _ => True) r'')
    (hcompletes : r.Completes (r'.enlist t.family params).2 r'')
    (hmade : List.Forall₂ (Field.Gives (r.Obtains r'') f.paramNames params) t.fields made) :
    r.Completes r' (r''.settle r'.size made) := by
  have hnew := hgrown.type_enlisted
  have hcarries : r''.Carries (r''.settle r'.size made) := carries_settle fun u hu => by
    obtain rfl := Option.some.inj (hnew.symm.trans hu)
    rfl
  have happlied : ∀ generic ids id, r.Obtains r'' generic ids id →
      r.Obtains (r''.settle r'.size made) generic ids id :=
    fun _ _ _ hobtains => hobtains.carried hcarries
  constructor
  case ready =>
    intro id u hid hu hready
    rcases type_of_modifyType hu with ⟨hne, hu⟩ | ⟨rfl, v, hv, rfl⟩
    · exact hcarries.substituted (hcompletes.ready (size_enlist_le hid hne) hu hready) happlied
    · obtain rfl := Option.some.inj (hnew.symm.trans hv)
      have hgrown' : r'.Grown (fun _ => True) r'' := (grown_enlist fun _ _ => trivial).trans hgrown
      obtain ⟨f'', hentry'', hbecomes⟩ := hgrown'.entry hentry
      refine hcarries.substituted ⟨generic, t, f'', made, hentry'', hgeneric, rfl, ?_, ?_⟩ happlied
      · exact concreteFields?_eq_some_iff.2 rfl
      · rw [hbecomes.paramNames]
        exact hmade
  case failed =>
    intro id u hid hu hfailed
    rcases type_of_modifyType hu with ⟨hne, hu⟩ | ⟨rfl, v, hv, rfl⟩
    · obtain ⟨g, template, hg, hgeneric, hfamily, hfields⟩ :=
        hcompletes.failed (size_enlist_le hid hne) hu hfailed
      exact hcarries.template hg hgeneric hfamily hfields
    · cases hfailed

/-- A new instance is only withdrawn if the template has a field. -/
theorem completes_withdraw (hg : r''.types[generic]? = some t) (hgeneric : t.specialized = false)
    (hfields : t.fields ≠ []) (hinstance : ∀ u, r''.types[r'.size]? = some u → u.family = t.family)
    (hcompletes : r.Completes (r'.enlist t.family params).2 r'') :
    r.Completes r' (r''.withdraw t.family r'.size) := by
  have hcarries := carries_withdraw (r := r'') t.family r'.size
  constructor
  case ready =>
    intro id u hid hu hready
    rcases type_of_modifyType hu with ⟨hne, hu⟩ | ⟨rfl, v, -, rfl⟩
    · refine hcarries.substituted (hcompletes.ready (size_enlist_le hid hne) hu hready) ?_
      exact fun _ _ _ hobtains => hobtains.carried hcarries
    · cases hready
  case failed =>
    intro id u hid hu hfailed
    rcases type_of_modifyType hu with ⟨hne, hu⟩ | ⟨rfl, v, hv, rfl⟩
    · obtain ⟨g, template, hg, hgeneric, hfamily, hfields⟩ :=
        hcompletes.failed (size_enlist_le hid hne) hu hfailed
      exact hcarries.template hg hgeneric hfamily hfields
    · exact hcarries.template hg hgeneric (hinstance v hv).symm hfields

theorem meets_substitution_build {depth : Nat} (happly : Procures (specializeWithin depth) r)
    (hr' : (substitution r).relies r') (hentry : r'.entry generic = .ok (t, f))
    (hgeneric : t.specialized = false) (harity : f.wrongArity? params.length = none)
    (hunlisted : f.instance? params = none) (hparams : r'.Has params) :
    (substitution r).Meets r' (build (specializeWithin depth) t f params)
      fun id r'' => r.Obtains r'' generic params id := by
  obtain ⟨hgrown, hwf⟩ := hr'
  have hlist := Step.enlist hentry hgeneric harity hunlisted hparams
  have hlisted : r'.Grown (fun _ => True) (r'.enlist t.family params).2 :=
    grown_enlist fun _ _ => trivial
  have hevolves : r'.Evolves (build (specializeWithin depth) t f params) _ :=
    evolves_build (supplies_specializeWithin depth) hwf hentry hgeneric harity hunlisted hparams
  refine Contract.meets_build (Contract.meets_instanceFields (happly.fills f.paramNames params)
    ⟨hgrown.trans hlisted, hlist.wellFormed hwf⟩ fun field hfield => ⟨hlist.extends.has hparams,
      hlist.extends.has (hwf.fields_known (entry_eq_ok_iff.1 hentry).1 field hfield)⟩) ?_ ?_
  · intro made r₁ hbuild hmoves hmade
    obtain ⟨hevolved, hspecializes, -⟩ := hevolves.ok hbuild
    refine ⟨⟨?_, hevolved.wellFormed, ?_⟩, hspecializes, fun hwithdrawn => ?_⟩
    · exact Grown.settle (hlisted.trans hmoves.1) (Nat.le_refl _) fun _ _ => trivial
    · exact completes_settle hentry hgeneric hmoves.1 hmoves.2.2
        (hmade.imp fun _ _ hfield => ⟨hfield.1, hfield.2.2⟩)
    · exact absurd hwithdrawn (not_withdrawn_of_le hgrown.size_le)
  · intro e r₁ hrun hrefused
    have hbuild : (build (specializeWithin depth) t f params r').state? =
        some (r₁.withdraw t.family r'.size) := by
      unfold build
      dsimp only
      rw [hrun]
      rfl
    have ht := (entry_eq_ok_iff.1 hentry).1
    have hgrown₁ := hlisted.trans hrefused.1
    refine ⟨Grown.withdraw hgrown₁ (Nat.le_refl _), (hevolves.evolved hbuild).wellFormed, ?_⟩
    refine completes_withdraw ((hgrown₁.kept (lt_size ht)).trans ht) hgeneric ?_ ?_ hrefused.2.2
    · -- Without fields, there is nothing to be refused.
      intro hnil
      rw [hnil] at hrun
      cases hrun
    · intro u hu
      obtain rfl := Option.some.inj (hrefused.1.type_enlisted.symm.trans hu)
      rfl

/-- The induction is on the nesting of instances. An instance that is found may still be under
construction, but has its parameters already. -/
theorem procures_specializeWithin (hr : r.WellFormed) (depth : Nat) :
    Procures (specializeWithin depth) r := by
  induction depth with
  | zero =>
    intro r' generic params _ _
    exact Contract.meets_specializeWithin_zero trivial
  | succ depth ih =>
    intro r' generic params hr' hparams
    have hrefused : ∀ e, (substitution r).refuses r' e r' :=
      fun _ => ⟨.refl r' _, hr'.2, completes_refl r r'⟩
    refine Contract.meets_specializeWithin_succ hr' (fun _ _ => trivial) ?_
      (fun _ _ _ _ _ => hrefused _) (fun _ _ _ _ _ _ => hrefused _) ?_ ?_
    · intro t f hentry hspecialized hempty
      exact ⟨⟨t, (entry_eq_ok_iff.1 hentry).1, .inl ⟨hspecialized, hempty, rfl⟩⟩, fun _ => rfl⟩
    · intro t f id hentry hgeneric _ hlisted
      obtain ⟨ht, hf⟩ := entry_eq_ok_iff.1 hentry
      refine ⟨⟨t, ht, .inr ⟨hgeneric, hr'.2.isInstance_of_listed hf hlisted⟩⟩, fun hwithdrawn => ?_⟩
      obtain ⟨f₀, hf₀, -, hnew⟩ := hr'.1.family hf
      rcases hnew _ (mem_instances hlisted) with hold | hnew
      · exact absurd hwithdrawn (hr.instances_kept hf₀ _ hold)
      · exact absurd hwithdrawn (not_withdrawn_of_le hnew)
    · intro t f hentry hgeneric harity hunlisted
      exact meets_substitution_build ih hr' hentry hgeneric harity hunlisted hparams

/-! ## Specialization that returns -/

/-- The type is what specialization finds for an application, with nothing left to build. -/
def Finds (r : Registry) (generic : TypeId) (params : List TypeId) (id : TypeId) : Prop :=
  specialize generic params r = .ok id r

/-- What was listed and not withdrawn is found once nothing is under construction. -/
theorem Specializes.finds (h : r.Specializes generic params id) (hr : initial.Evolved r)
    (hkept : r.Withdrawn id → id = generic) : r.Finds generic params id := by
  obtain ⟨g, hg, ⟨hspecialized, rfl, rfl⟩ | ⟨hgeneric, hsettled⟩⟩ := h.settled hr hkept
  · obtain ⟨_, f, hentry⟩ := hr.wellFormed.exists_entry (Registry.lt_size hg)
    obtain rfl := Option.some.inj (hg.symm.trans (entry_eq_ok_iff.1 hentry).1)
    exact specialize_self hentry hspecialized
  · exact hsettled.specialize_eq hr hg hgeneric

/-- An instance has its fields from its template, as specialization finds them. -/
def Faithful (r : Registry) (id : TypeId) : Prop :=
  ∃ (t template : Datatype) (f : Family) (made : List (String × TypeId)),
    r.entry id = .ok (t, f) ∧ r.types[f.template]? = some template ∧
      template.specialized = false ∧ r.fields id = .ok made ∧
      List.Forall₂ (Field.Gives r.Finds f.paramNames t.params) template.fields made

/-- Between calls, what is complete and has its fields from its template has them as
specialization finds them. -/
theorem Substituted.faithful (h : r.Substituted applied t) (hr : initial.Evolved r)
    (ht : r.types[id]? = some t) (hspecialized : t.specialized = true) (hkept : ¬ r.Withdrawn id)
    (happlied : ∀ generic ids id, applied generic ids id → r.Finds generic ids id) :
    r.Faithful id := by
  obtain ⟨g, template, f, made, hentry, hgeneric, hfamily, hmade, hgives⟩ := h
  obtain ⟨htemplate, hf⟩ := entry_eq_ok_iff.1 hentry
  have hentry' : r.entry id = .ok (t, f) := entry_eq_ok_iff.2 ⟨ht, hfamily ▸ hf⟩
  obtain ⟨rfl, -⟩ := hr.founded.isGeneric_of_template hentry hgeneric
  refine ⟨t, template, f, made, hentry', htemplate, hgeneric, ?_, ?_⟩
  · rw [fields_eq_of_usable hr hentry' hspecialized hkept, hmade]
    rfl
  · exact hgives.imp fun field made hfield => ⟨hfield.1, hfield.2.mono happlied⟩

/-- An instance that is not listed yet is the first of the types that its construction adds. -/
theorem eq_size_of_unlisted (hentry : r.entry generic = .ok (t, f))
    (hgeneric : t.specialized = false) (hunlisted : f.instance? params = none)
    (h : specialize generic params r = .ok id r') : id = r.size := by
  obtain ⟨depth, hdepth⟩ := r.exists_nestingBound params
  unfold specialize at h
  rw [hdepth, specializeWithin, bind_apply, Action.read, hentry] at h
  cases harity : f.wrongArity? params.length with
  | some expected => simp [hgeneric, harity] at h
  | none =>
    simp only [hgeneric, Bool.false_eq_true, if_false, harity, hunlisted] at h
    unfold build at h
    dsimp only at h
    cases hrun : instanceFields (specializeWithin depth) f.paramNames params t.fields
        (r.enlist t.family params).2 with
    | ok made r₁ =>
      rw [hrun] at h
      exact (Outcome.ok.inj h).1.symm
    | error e r₁ =>
      rw [hrun] at h
      cases h
    | fault fault =>
      rw [hrun] at h
      cases h

/-- The fields of an instance, in terms of the template that it was asked for. -/
theorem Faithful.fields_eq (h : r'.Faithful id) (hr : initial.Evolved r)
    (hgrown : r.Grown (fun _ => True) r') (hentry : r.entry generic = .ok (t, f))
    (hgeneric : t.specialized = false) (hid : r'.Specializes generic params id) :
    ∃ made, r'.fields id = .ok made ∧
      List.Forall₂ (Field.Gives r'.Finds f.paramNames params) t.fields made := by
  obtain ⟨u, template, f', made, hentry', htemplate, -, hmade, hgives⟩ := h
  obtain ⟨hu, hf'⟩ := entry_eq_ok_iff.1 hentry'
  have ht : r'.types[generic]? = some t :=
    (hgrown.kept (lt_size (entry_eq_ok_iff.1 hentry).1)).trans (entry_eq_ok_iff.1 hentry).1
  obtain ⟨v, hv, hfamily, rfl, -⟩ : r'.IsInstance t.family params id := by
    obtain ⟨g, hg, ⟨hspecialized, -⟩ | ⟨-, hinstance⟩⟩ := hid
    · obtain rfl := Option.some.inj (ht.symm.trans hg)
      rw [hgeneric] at hspecialized
      cases hspecialized
    · obtain rfl := Option.some.inj (ht.symm.trans hg)
      exact hinstance
  obtain rfl := Option.some.inj (hu.symm.trans hv)
  -- The instance has the family of the template, which leads back to the template.
  obtain ⟨f'', hentry'', hbecomes⟩ := hgrown.entry hentry
  obtain rfl := Option.some.inj ((hfamily ▸ hf').symm.trans (entry_eq_ok_iff.1 hentry'').2)
  rw [hbecomes.template, ← (hr.founded.isGeneric_of_template hentry hgeneric).1] at htemplate
  obtain rfl := Option.some.inj (ht.symm.trans htemplate)
  rw [hbecomes.paramNames] at hgives
  exact ⟨made, hmade, hgives⟩

/-- Whatever calls were made, specialization fills in the fields of the instances that it
builds as their templates say: in the order of the template and under the same names, a type
for itself, a parameter for the one given in its place, and an application for the type that
specialization finds for it afterwards, be it the new instance itself. This holds of the
instance that was asked for and of all others that were built for its fields; all types that
were there before are as they were. -/
theorem specialize_substitutes (hr : r.Reachable) (hentry : r.entry generic = .ok (t, f))
    (hgeneric : t.specialized = false) (hunlisted : f.instance? params = none)
    (hparams : r.Has params) (h : specialize generic params r = .ok id r') :
    id = r.size ∧ r'.Finds generic params id ∧
      (∃ made, r'.fields id = .ok made ∧
        List.Forall₂ (Field.Gives r'.Finds f.paramNames params) t.fields made) ∧
      (∀ x, r.size ≤ x → x < r'.size → r'.Faithful x) ∧
      ∀ x < r.size, r'.types[x]? = r.types[x]? := by
  have hr := hr.evolved
  have hwf := hr.wellFormed
  have hr' := hr.trans ((evolves_specialize hwf hparams).evolved (by rw [h]; rfl))
  have hsubstitution : (substitution r).Meets r (specialize generic params) _ :=
    procures_specializeWithin hwf _ r generic params ⟨.refl r _, hwf⟩ hparams
  have hwithdrawal : (withdrawal r).Meets r (specialize generic params) _ :=
    retires_specializeWithin hr _ ⟨.refl r _, hwf⟩ hparams
  unfold Contract.Meets at hsubstitution hwithdrawal
  rw [h] at hsubstitution hwithdrawal
  obtain ⟨⟨hgrown, -, hcompletes⟩, hid⟩ := hsubstitution
  obtain ⟨⟨-, -, hkept⟩, -⟩ := hwithdrawal
  -- Nothing was withdrawn, so that all that was obtained is found.
  have hfinds : ∀ generic ids id, r.Obtains r' generic ids id → r'.Finds generic ids id :=
    fun _ _ id hobtains => hobtains.1.finds hr' fun hwithdrawn => hobtains.2 (hkept id hwithdrawn)
  have hfaithful : ∀ x, r.size ≤ x → x < r'.size → r'.Faithful x := by
    intro x hle hlt
    obtain ⟨u, hu⟩ := exists_type hlt
    have hspecialized := (hgrown.made hle hu).specialized
    have hkept : ¬ r'.Withdrawn x :=
      fun hwithdrawn => not_withdrawn_of_le hle (hkept x hwithdrawn)
    have hinstance : r'.IsInstance u.family u.params x := ⟨u, hu, rfl, rfl, hspecialized⟩
    obtain ⟨v, hv, -, -, -, hready⟩ := hinstance.settled (hr'.not_building x) hkept
    obtain rfl := Option.some.inj (hu.symm.trans hv)
    exact (hcompletes.ready hle hu hready).faithful hr' hu hspecialized hkept hfinds
  have hsize := eq_size_of_unlisted hentry hgeneric hunlisted h
  refine ⟨hsize, hfinds _ _ _ hid, ?_, hfaithful, fun x hlt => hgrown.kept hlt⟩
  exact (hfaithful id (Nat.le_of_eq hsize.symm) hid.1.lt_size).fields_eq hr hgrown hentry hgeneric
    hid.1

/-- Two generic objects: a tree has an item and a forest, and a forest has a slice of
trees. -/
def grove : Registry :=
  Operation.build
    [.create "Tree" none ["T"], .create "Forest" none ["T"],
     .addField 12 "item" (.param "T"), .addField 12 "forest" (.apply 13 [.param "T"]),
     .addField 13 "trees" (.apply Builtin.slice [.apply 12 [.param "T"]])]

/-- What is there when `Tree{Int}` has been built. -/
def planted : Registry :=
  (specialize 12 [Builtin.int] grove).state?.getD initial

/-- The slice of trees of the new forest is a slice of the new tree. -/
theorem specialize_substitutes_grove :
    grove.Reachable ∧ grove.Has [Builtin.int] ∧
      specialize 12 [Builtin.int] grove = .ok 14 planted ∧
      planted.fields 14 = .ok [("item", Builtin.int), ("forest", 15)] ∧
      planted.fields 15 = .ok [("trees", 16)] ∧ planted.Finds Builtin.slice [14] 16 ∧
      ∃ t f, grove.entry 12 = .ok (t, f) ∧ t.specialized = false ∧
        f.instance? [Builtin.int] = none ∧ 14 = grove.size ∧ planted.Finds 12 [Builtin.int] 14 ∧
        (∃ made, planted.fields 14 = .ok made ∧
          List.Forall₂ (Field.Gives planted.Finds f.paramNames [Builtin.int]) t.fields made) ∧
        (∀ x, grove.size ≤ x → x < planted.size → planted.Faithful x) ∧
        ∀ x < grove.size, planted.types[x]? = grove.types[x]? := by
  have hreachable : grove.Reachable := reachable_build _
  have hparams : grove.Has [Builtin.int] := by decide +kernel
  have hrun : specialize 12 [Builtin.int] grove = .ok 14 planted := by decide +kernel
  have hfields : ∀ entry ∈ (grove.entry 12).toOption, entry.1.specialized = false ∧
      entry.2.instance? [Builtin.int] = none := by decide +kernel
  have hslice : specialize Builtin.slice [14] planted = .ok 16 planted := by decide +kernel
  obtain ⟨t, f, hentry⟩ :=
    hreachable.evolved.wellFormed.exists_entry (show 12 < grove.size by decide +kernel)
  obtain ⟨hgeneric, hunlisted⟩ := hfields (t, f) (by rw [hentry]; rfl)
  refine ⟨hreachable, hparams, hrun, by decide +kernel, by decide +kernel, hslice, t, f, hentry,
    hgeneric, hunlisted, ?_⟩
  exact specialize_substitutes hreachable hentry hgeneric hunlisted hparams hrun

end Registry

end TypeLayer
