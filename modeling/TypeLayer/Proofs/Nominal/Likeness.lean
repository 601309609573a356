import TypeLayer.Proofs.Nominal.Lowering
import TypeLayer.Proofs.Nominal.Mangling
import TypeLayer.Proofs.Nominal.Substitution

/-!
# Layouts of types that are alike

Types with the same mangled name are alike (`alike_of_mangled_eq`).  If they are no
templates, neither at the top nor in their parameters, they are twins: numbers of one style
and width, or instances of one family with parameters that are twins.  What a field of the
template stands for is then a twin again (`Denotes.twin`), so that the members of twins are
twins, and twins are lowered alike (`Orderly.alongside_twins`).

That instances have their fields from the template, and that kept layouts are not out of date,
depends on the order of calls: a template must have its fields before it has instances, and
instances get no more.  `Orderly` says what is then true of a registry, and
`LeadsOrderly.orderly` that no other call breaks it.
-/

namespace TypeLayer.Registry

open TypeLayer.Action TypeLayer.Outcome

variable {α : Type} {r r' : Registry} {id : TypeId} {t t' : Datatype} {f f' : Family}

/-! ## What operations do -/

theorem substitution_state {x : Register α} {V : α → Registry → Prop}
    (h : (substitution r).Meets r x V) (hrun : (x r).state? = some r') :
    r.Grown (fun _ => True) r' ∧ r.Completes r r' :=
  h.state (P := fun r' => r.Grown (fun _ => True) r' ∧ r.Completes r r')
    (fun _ h => ⟨h.1, h.2.2⟩) (fun _ _ h => ⟨h.1, h.2.2⟩) hrun

theorem substitution_answers {scope : Assoc String TypeId} (hr : r.WellFormed)
    (hscope : r.Has scope.values) :
    (substitution r).AnswersAlike scope (fun _ => True) fun id r' => id < r'.size where
  kept hmoves hid := Nat.lt_of_lt_of_le hid hmoves.1.size_le
  refuses {r' _} hr' := ⟨.refl r' _, hr'.2, completes_refl r r'⟩
  scope hr' hname :=
    Nat.lt_of_lt_of_le (hscope _ (Assoc.mem_values_of_get? hname)) hr'.1.size_le
  tuple := trivial
  method := trivial
  named _ _ := trivial
  specialize hr' _ hparams :=
    (procures_specializeWithin hr _ _ _ _ hr' hparams).mono fun _ _ _ h => h.1.lt_size

/-- What an operation does: it declares a type, adds a field, builds instances, works out a
layout, or does nothing. -/
theorem Operation.after_kinds {op : Operation} (hr : r.WellFormed) (hgiven : r.Has op.given)
    (h : op.after r = some r') :
    (∃ d, r' = r.declare d) ∨
      (∃ id name ty t f, op = .addField id name ty ∧ r.entry id = .ok (t, f) ∧
        f.style = .object ∧
        r' = r.modifyType id fun t => { t with fields := putField name ty t.fields }) ∨
      r.Grown (fun _ => True) r' ∧ r.Completes r r' ∨
      (∃ id, (Registry.layout id r).state? = some r') ∨ r' = r := by
  have hdeclare : ∀ {d : Declaration}, (declareNew d r).state? = some r' →
      (∃ d, r' = r.declare d) ∨ r' = r :=
    fun h => (declareNew_cases h).imp_left fun heq => ⟨_, heq⟩
  have hspecialize : ∀ {generic : TypeId} {params : List TypeId}, r.Has params →
      (Registry.specialize generic params r).state? = some r' →
      r.Grown (fun _ => True) r' ∧ r.Completes r r' :=
    fun hparams hrun => substitution_state
      (procures_specializeWithin hr _ r _ _ ⟨.refl r _, hr⟩ hparams) hrun
  cases op with
  | create | createInteger | createFloat =>
    exact (hdeclare h).imp_right fun heq => .inr (.inr (.inr heq))
  | addField id name ty =>
    rcases addField_cases h with ⟨t, f, hentry, hstyle, -, heq⟩ | heq
    · exact .inr (.inl ⟨id, name, ty, t, f, rfl, hentry, hstyle, heq⟩)
    · exact .inr (.inr (.inr (.inr heq)))
  | specialize | tuple | union | method | slice =>
    exact .inr (.inr (.inl (hspecialize hgiven h)))
  | denote e scope =>
    have hmeets := Contract.meets_denote (substitution_answers hr hgiven) ⟨.refl r _, hr⟩ e
    exact .inr (.inr (.inl (substitution_state hmeets h)))
  | fields id =>
    refine .inr (.inr (.inr (.inr ?_)))
    exact (keeps_query (P := fun r₁ => r₁ = r) (·.fields id)).state rfl h
  | layout id => exact .inr (.inr (.inr (.inl ⟨id, h⟩)))

theorem types_declare {d : Declaration} (ht : (r.declare d).types[id]? = some t) :
    id = r.size ∧ t.fields = [] ∧ t.layout = none ∧ t.progress = .ready ∨
      r.types[id]? = some t := by
  replace ht := (Array.getElem?_push ▸ ht :)
  split at ht
  · next hid =>
    cases ht
    exact .inl ⟨hid, rfl, rfl, rfl⟩
  · exact .inr ht

theorem entry_declare (r : Registry) (d : Declaration) {t : Datatype} {f : Family}
    (hentry : (r.declare d).entry r.size = .ok (t, f)) : t.specialized = !f.isGeneric := by
  obtain ⟨ht, hf⟩ := entry_eq_ok_iff.1 hentry
  replace ht := (Array.getElem?_push_size.symm.trans ht :)
  obtain rfl := Option.some.inj ht
  replace hf := (Array.getElem?_push_size.symm.trans hf :)
  obtain rfl := Option.some.inj hf
  rfl

/-- An instance that could not be built has a template that had fields before. -/
theorem Completes.exists_template (h : r.Completes r r') (hr : r.WellFormed)
    (hgrown : r.Grown (fun _ => True) r') (hle : r.size ≤ id) (hentry : r'.entry id = .ok (t, f))
    (hfailed : t.progress = .failed) :
    ∃ (g : TypeId) (template : Datatype) (f₀ : Family), r.entry g = .ok (template, f₀) ∧
      template.specialized = false ∧ template.fields ≠ [] ∧ f.style = f₀.style := by
  obtain ⟨ht, hf⟩ := entry_eq_ok_iff.1 hentry
  obtain ⟨g, template, hg, hgeneric, hfamily, hfields⟩ := h.failed hle ht hfailed
  have hg₀ := hgrown.template hg hgeneric
  obtain ⟨u, f₀, hentry₀⟩ := hr.exists_entry (lt_size hg₀)
  obtain rfl := Option.some.inj (hg₀.symm.trans (entry_eq_ok_iff.1 hentry₀).1)
  obtain ⟨f₁, hentry₁, hbecomes⟩ := hgrown.entry hentry₀
  have hf₁ := (entry_eq_ok_iff.1 hentry₁).2
  rw [hfamily] at hf₁
  obtain rfl := Option.some.inj (hf.symm.trans hf₁)
  exact ⟨g, _, f₀, hentry₀, hgeneric, hfields, hbecomes.style⟩

/-- Only an object has declared fields, and only an object is withdrawn: without fields, an
instance cannot fail to be built. -/
theorem Reachable.style_object (hr : r.Reachable) (hentry : r.entry id = .ok (t, f))
    (h : t.specialized = false ∧ t.fields ≠ [] ∨ t.progress = .failed) : f.style = .object := by
  induction hr generalizing id t f with
  | refl =>
    have hplain : ∀ t ∈ initial.types, t.fields = [] ∧ t.progress = .ready := by decide
    obtain ⟨hfields, hready⟩ := hplain t (Array.mem_of_getElem? (entry_eq_ok_iff.1 hentry).1)
    rcases h with ⟨-, hne⟩ | hfailed
    · exact absurd hfields hne
    · rw [hready] at hfailed
      cases hfailed
  | @tail r₁ r₂ hr₁ hop ih =>
    obtain ⟨op, hgiven, hafter⟩ := hop
    have hevolved := Reachable.evolved hr₁
    have hwf := hevolved.wellFormed
    have hextends := (op.evolved hevolved hgiven hafter).extends
    -- A type that was there is of the same style as before.
    have hold : ∀ {u : Datatype}, r₁.types[id]? = some u →
        u.specialized = false ∧ u.fields ≠ [] ∨ u.progress = .failed → f.style = .object := by
      intro u hu h
      obtain ⟨u₀, g, hentry₀⟩ := hwf.exists_entry (lt_size hu)
      obtain rfl := Option.some.inj (hu.symm.trans (entry_eq_ok_iff.1 hentry₀).1)
      obtain ⟨t₁, f₁, hentry₁, -, hbecomes⟩ := hextends.entry hentry₀
      obtain ⟨-, rfl⟩ := eq_of_entry hentry hentry₁
      exact hbecomes.style.trans (ih hentry₀ h)
    have ht := (entry_eq_ok_iff.1 hentry).1
    rcases op.after_kinds hwf hgiven hafter with ⟨d, rfl⟩ |
      ⟨i, name, ty, u, g, -, hi, hstyle, rfl⟩ | ⟨hgrown, hcompletes⟩ | ⟨i, hlayout⟩ | rfl
    · rcases types_declare ht with ⟨-, hfields, -, hready⟩ | ht
      · rcases h with ⟨-, hne⟩ | hfailed
        · exact absurd hfields hne
        · rw [hready] at hfailed
          cases hfailed
      · exact hold ht h
    · rcases type_of_modifyType ht with ⟨-, ht⟩ | ⟨rfl, v, hv, rfl⟩
      · exact hold ht h
      · obtain ⟨t₁, f₁, hentry₁, -, hbecomes⟩ := hextends.entry hi
        obtain ⟨-, rfl⟩ := eq_of_entry hentry hentry₁
        exact hbecomes.style.trans hstyle
    · by_cases hlt : id < r₁.size
      · exact hold ((hgrown.kept hlt).symm.trans ht) h
      · have hle := Nat.le_of_not_lt hlt
        rcases h with ⟨hgeneric, -⟩ | hfailed
        · cases hgeneric.symm.trans (hgrown.made hle ht).specialized
        · obtain ⟨g, template, fg, hg, hgeneric, hfields, hstyle⟩ :=
            hcompletes.exists_template hwf hgrown hle hentry hfailed
          exact hstyle.trans (ih hg (.inl ⟨hgeneric, hfields⟩))
    · obtain ⟨u, hu, hfields, hspecialized, hprogress⟩ := type_of_unlaid (unlaid_layout hlayout) ht
      rw [hfields, hspecialized, hprogress] at h
      exact hold hu h
    · exact ih hentry h

/-! ## Orderly runs -/

/-- The operation gives a field to a generic type that has instances, or to an instance. -/
def Operation.tardy (r : Registry) : Operation → Bool
  | .addField id _ _ =>
    match r.entry id with
    | .ok (t, f) => f.isGeneric && (t.specialized || !f.instances.isEmpty)
    | .error _ => false
  | _ => false

/-- Some sequence of operations leads from one registry to the other, in which generic types
have their fields before they have instances, and instances are given none. -/
abbrev LeadsOrderly : Registry → Registry → Prop :=
  Relation.ReflTransGen fun r r' => ∃ op : Operation, r.Has op.given ∧ op.after r = some r' ∧
    (op.tardy r = true → r' = r)

/-- The family is one whose types have their fields once for all. -/
def Lasting (f : Family) : Prop :=
  f.style ≠ .object ∨ f.isGeneric = true

/-- Instances have their fields from their templates as these are, and kept layouts are not
out of date. -/
structure Orderly (r : Registry) : Prop where
  reachable : r.Reachable
  substituted : ∀ {id : TypeId} {t : Datatype} {f : Family}, r.entry id = .ok (t, f) →
    f.isGeneric = true → t.specialized = true → t.progress = .ready →
      r.Substituted r.Specializes t
  remembers : Remembers Lasting r r

theorem Extends.specializes {generic : TypeId} {params : List TypeId} (h : r.Extends r')
    (hid : r.Specializes generic params id) : r'.Specializes generic params id := by
  obtain ⟨g, hg, hcases⟩ := hid
  obtain ⟨g', hg', hbecomes⟩ := h.type hg
  refine ⟨g', hg', ?_⟩
  rw [hbecomes.specialized, hbecomes.family]
  exact hcases.imp_right fun hinstance => ⟨hinstance.1, h.isInstance hinstance.2⟩

/-- An instance still has its fields from its template, as long as the fields of neither
change. -/
theorem Substituted.extends {applied : TypeId → List TypeId → TypeId → Prop}
    (h : r.Substituted applied t) (hextends : r.Extends r')
    (happlied : ∀ generic ids id, applied generic ids id → r'.Specializes generic ids id)
    (ht : t.Becomes t') (hfields : t'.fields = t.fields)
    (htemplate : ∀ (g : TypeId) (u u' : Datatype), r.types[g]? = some u → u.specialized = false →
      u.family = t.family → r'.types[g]? = some u' → u'.fields = u.fields) :
    r'.Substituted r'.Specializes t' := by
  obtain ⟨g, u, f, made, hentry, hgeneric, hfamily, hmade, hgives⟩ := h
  obtain ⟨u', f', hentry', hu, hf⟩ := hextends.entry hentry
  have heq := htemplate g u u' (entry_eq_ok_iff.1 hentry).1 hgeneric hfamily
    (entry_eq_ok_iff.1 hentry').1
  refine ⟨g, u', f', made, hentry', hu.specialized.trans hgeneric, ?_, by rw [hfields, hmade], ?_⟩
  · rw [hu.family, hfamily, ht.family]
  · rw [heq, hf.paramNames, ht.params]
    exact hgives.imp fun field made hfield => ⟨hfield.1, hfield.2.mono happlied⟩

theorem Orderly.evolved (hr : r.Orderly) : initial.Evolved r :=
  Reachable.evolved hr.reachable

theorem lasting_of_becomes (h : f.Becomes f') (hf : Lasting f') : Lasting f := by
  rwa [Lasting, h.style, h.isGeneric] at hf

/-- An operation keeps a registry orderly, if it changes the fields of no type whose fields
matter: those of a template with instances, those of an instance, and those of a type of which
a layout is kept. -/
theorem Orderly.extends (hr : r.Orderly) (hreachable : r'.Reachable) (hextends : r.Extends r')
    (hnew : ∀ {x : TypeId} {u : Datatype} {g : Family}, r'.entry x = .ok (u, g) → r.size ≤ x →
      g.isGeneric = true → u.specialized = true → u.progress = .ready →
        r'.Substituted r'.Specializes u)
    (hfields : ∀ {x : TypeId} {u u' : Datatype} {g : Family}, r.entry x = .ok (u, g) →
      r'.types[x]? = some u' → u'.fields = u.fields ∨ g.isGeneric = false ∨
        u.specialized = false ∧ g.instances = [])
    (hlayouts : Remembers Lasting r r') : r'.Orderly where
  reachable := hreachable
  substituted {x u' g'} hentry' hgeneric hspecialized hready := by
    have hwf := hr.evolved.wellFormed
    by_cases hlt : x < r.size
    · obtain ⟨u, g, hentry⟩ := hwf.exists_entry hlt
      obtain ⟨u₁, g₁, hentry₁, hu, hg⟩ := hextends.entry hentry
      obtain ⟨rfl, rfl⟩ := eq_of_entry hentry' hentry₁
      rw [hg.isGeneric] at hgeneric
      rw [hu.specialized] at hspecialized
      have hready₀ : u.progress = .ready := by
        rw [← hready, hu.progress (hr.evolved.progress_ne_building (entry_eq_ok_iff.1 hentry).1)]
      have hlisted :=
        hr.evolved.founded.listed hentry hgeneric hspecialized (by rw [hready₀]; decide)
      refine (hr.substituted hentry hgeneric hspecialized hready₀).extends hextends
        (fun _ _ _ => hextends.specializes) hu ?_ ?_
      · rcases hfields hentry (entry_eq_ok_iff.1 hentry').1 with hsame | hnot | ⟨hnot, -⟩
        · exact hsame
        · cases hnot.symm.trans hgeneric
        · cases hnot.symm.trans hspecialized
      · intro i v v' hv hv' hfamily hi
        have hentryi : r.entry i = .ok (v, g) :=
          entry_eq_ok_iff.2 ⟨hv, hfamily ▸ (entry_eq_ok_iff.1 hentry).2⟩
        rcases hfields hentryi hi with hsame | hnot | ⟨-, hnone⟩
        · exact hsame
        · cases hnot.symm.trans hgeneric
        · rw [hnone] at hlisted
          cases hlisted
    · exact hnew hentry' (Nat.le_of_not_lt hlt) hgeneric hspecialized hready
  remembers := by
    refine hlayouts.extends hr.evolved hextends fun {x u' g' l} hentry' hlasting hkept => ?_
    -- What is kept is the layout of a usable type that was there.
    obtain ⟨u, g, hentry, hspecialized⟩ := usable_of_plainWithin
      (hlayouts x u' g' l hentry' hlasting hkept (max x r.size + 1)
        (Nat.lt_succ_of_le (Nat.le_max_left _ _))
        fun _ => Nat.lt_succ_of_le (Nat.le_max_right _ _))
    obtain ⟨u₁, g₁, hentry₁, hu, hg⟩ := hextends.entry hentry
    obtain ⟨rfl, rfl⟩ := eq_of_entry hentry' hentry₁
    refine ⟨u, (entry_eq_ok_iff.1 hentry).1, fun hstyle => ?_⟩
    rcases hfields hentry (entry_eq_ok_iff.1 hentry').1 with hsame | hnot | ⟨hnot, -⟩
    · exact hsame
    · rcases hlasting with hplaced | hgeneric
      · exact absurd hstyle hplaced
      · cases hnot.symm.trans (hg.isGeneric.symm.trans hgeneric)
    · cases hnot.symm.trans hspecialized

/-- Kept layouts are not out of date, if none of them is new. -/
theorem Orderly.carried (hr : r.Orderly) (hextends : r.Extends r')
    (hold : ∀ {x : TypeId} {u' : Datatype} {l : Layout}, r'.types[x]? = some u' →
      u'.layout = some l → ∃ u, r.types[x]? = some u ∧ u.layout = some l) :
    Remembers Lasting r r' :=
  hr.remembers.carried (fun _ _ => lasting_of_becomes) hr.evolved hextends
    fun hentry' _ hkept => hold (entry_eq_ok_iff.1 hentry').1 hkept

theorem Orderly.declared {d : Declaration} (hr : r.Orderly) (hreachable : (r.declare d).Reachable)
    (hextends : r.Extends (r.declare d)) : (r.declare d).Orderly := by
  refine hr.extends hreachable hextends ?_ ?_ (hr.carried hextends ?_)
  · intro x u g hentry hle hgeneric hspecialized
    rcases types_declare (entry_eq_ok_iff.1 hentry).1 with ⟨rfl, -⟩ | hu
    · rw [r.entry_declare d hentry, hgeneric] at hspecialized
      cases hspecialized
    · exact absurd (lt_size hu) (Nat.not_lt_of_le hle)
  · intro x u u' g hentry hu'
    have hu := (entry_eq_ok_iff.1 hentry).1
    rcases types_declare hu' with ⟨rfl, -⟩ | hu'
    · exact absurd (lt_size hu) (Nat.lt_irrefl _)
    · exact .inl (congrArg Datatype.fields (Option.some.inj (hu'.symm.trans hu)))
  · intro x u' l hu' hkept
    rcases types_declare hu' with ⟨-, -, hnone, -⟩ | hu
    · cases hnone.symm.trans hkept
    · exact ⟨u', hu, hkept⟩

theorem Orderly.fieldAdded {name : String} {ty : FieldTy} (hr : r.Orderly)
    (hreachable : r'.Reachable) (hextends : r.Extends r') (hentry : r.entry id = .ok (t, f))
    (hprompt : (Operation.addField id name ty).tardy r ≠ true)
    (heq : r' = r.modifyType id fun t => { t with fields := putField name ty t.fields }) :
    r'.Orderly := by
  subst heq
  rw [Operation.tardy, hentry] at hprompt
  refine hr.extends hreachable hextends ?_ ?_ (hr.carried hextends ?_)
  · intro x u g hx hle
    rcases type_of_modifyType (entry_eq_ok_iff.1 hx).1 with ⟨-, hu⟩ | ⟨-, w, hw, -⟩
    · exact absurd (lt_size hu) (Nat.not_lt_of_le hle)
    · exact absurd (lt_size hw) (Nat.not_lt_of_le hle)
  · intro x u u' g hx hu'
    have hu := (entry_eq_ok_iff.1 hx).1
    rcases type_of_modifyType hu' with ⟨-, hu'⟩ | ⟨rfl, w, hw, rfl⟩
    · exact .inl (congrArg Datatype.fields (Option.some.inj (hu'.symm.trans hu)))
    · obtain ⟨rfl, rfl⟩ := eq_of_entry hentry hx
      cases hgeneric : f.isGeneric with
      | false => exact .inr (.inl rfl)
      | true =>
        refine .inr (.inr ?_)
        simpa [hgeneric] using hprompt
  · intro x u' l hu' hkept
    rcases type_of_modifyType hu' with ⟨-, hu⟩ | ⟨rfl, w, hw, rfl⟩
    · exact ⟨u', hu, hkept⟩
    · exact ⟨w, hw, hkept⟩

theorem Orderly.grown (hr : r.Orderly) (hreachable : r'.Reachable) (hextends : r.Extends r')
    (hgrown : r.Grown (fun _ => True) r') (hcompletes : r.Completes r r') : r'.Orderly := by
  refine hr.extends hreachable hextends ?_ ?_ (hr.carried hextends ?_)
  · intro x u g hentry hle _ _ hready
    refine (hcompletes.ready hle (entry_eq_ok_iff.1 hentry).1 hready).extends (.refl r')
      (fun _ _ _ h => h.1) (.refl u) rfl ?_
    intro i v v' hv _ _ hv'
    rw [Option.some.inj (hv.symm.trans hv')]
  · intro x u u' g hentry hu'
    have hu := (entry_eq_ok_iff.1 hentry).1
    rw [hgrown.kept (lt_size hu)] at hu'
    exact .inl (congrArg Datatype.fields (Option.some.inj (hu'.symm.trans hu)))
  · intro x u' l hu' hkept
    by_cases hlt : x < r.size
    · exact ⟨u', (hgrown.kept hlt).symm.trans hu', hkept⟩
    · cases (hgrown.made (Nat.le_of_not_lt hlt) hu').layout.symm.trans hkept

theorem Orderly.laidOut (hr : r.Orderly) (hreachable : r'.Reachable) (hextends : r.Extends r')
    (hlayout : (Registry.layout id r).state? = some r') : r'.Orderly := by
  have hunlaid := unlaid_layout hlayout
  refine hr.extends hreachable hextends ?_ ?_
    (hr.remembers.layout (fun _ hstyle => .inl hstyle) hr.evolved hlayout)
  · intro x u g hentry hle
    obtain ⟨v, hv, -⟩ := type_of_unlaid hunlaid (entry_eq_ok_iff.1 hentry).1
    exact absurd (lt_size hv) (Nat.not_lt_of_le hle)
  · intro x u u' g hentry hu'
    have hu := (entry_eq_ok_iff.1 hentry).1
    obtain ⟨v, hv, hfields, -⟩ := type_of_unlaid hunlaid hu'
    rw [hfields]
    exact .inl (congrArg Datatype.fields (Option.some.inj (hv.symm.trans hu)))

theorem Orderly.after {op : Operation} (hr : r.Orderly) (hgiven : r.Has op.given)
    (hafter : op.after r = some r') (horderly : op.tardy r = true → r' = r) : r'.Orderly := by
  have hextends := (op.evolved hr.evolved hgiven hafter).extends
  have hreachable : r'.Reachable := hr.reachable.tail ⟨op, hgiven, hafter⟩
  rcases op.after_kinds hr.evolved.wellFormed hgiven hafter with ⟨d, rfl⟩ |
    ⟨i, name, ty, v, g, rfl, hi, -, heq⟩ | ⟨hgrown, hcompletes⟩ | ⟨i, hlayout⟩ | rfl
  · exact hr.declared hreachable hextends
  · by_cases htardy : (Operation.addField i name ty).tardy r = true
    · rw [horderly htardy]
      exact hr
    · exact hr.fieldAdded hreachable hextends hi htardy heq
  · exact hr.grown hreachable hextends hgrown hcompletes
  · exact hr.laidOut hreachable hextends hlayout
  · exact hr

theorem orderly_initial : initial.Orderly where
  reachable := .refl
  substituted {id t f} hentry hgeneric hspecialized _ := by
    have hplain : ∀ t ∈ initial.types, ∀ f ∈ initial.families[t.family]?,
        t.specialized = !f.isGeneric := by decide
    obtain ⟨ht, hf⟩ := entry_eq_ok_iff.1 hentry
    have hdeclared := hplain t (Array.mem_of_getElem? ht) f hf
    rw [hspecialized, hgeneric] at hdeclared
    cases hdeclared
  remembers id t f l hentry _ hkept := by
    have hnone : ∀ t ∈ initial.types, t.layout = none := by decide
    cases (hnone t (Array.mem_of_getElem? (entry_eq_ok_iff.1 hentry).1)).symm.trans hkept

theorem LeadsOrderly.orderly (h : r.LeadsOrderly r') (hr : r.Orderly) : r'.Orderly := by
  induction h with
  | refl => exact hr
  | tail _ hop ih =>
    obtain ⟨op, hgiven, hafter, horderly⟩ := hop
    exact ih.after hgiven hafter horderly

theorem leadsOrderly_of_afterAll {ops : List Operation}
    (h : Operation.afterAll ops r = some r')
    (hops : ∀ i, (hi : i < ops.length) → ∀ r₁ ∈ Operation.afterAll (ops.take i) r,
      (ops.get ⟨i, hi⟩).tardy r₁ = false) : r.LeadsOrderly r' := by
  refine reflTransGen_of_afterAll h fun i hi r₁ hr₁ _ hgiven hafter => ⟨_, hgiven, hafter, ?_⟩
  intro htardy
  cases (hops i hi r₁ hr₁).symm.trans htardy

/-! ## Twins -/

/-- The types are the same, or both can be used and are numbers of one style and width, or
instances of one family with parameters that are twins. -/
inductive Twin (r : Registry) : TypeId → TypeId → Prop
  | same (a : TypeId) : Twin r a a
  | number {a b : TypeId} {ta tb : Datatype} {fa fb : Family} (ha : r.entry a = .ok (ta, fa))
      (hb : r.entry b = .ok (tb, fb)) (specialized : ta.specialized = true)
      (specialized' : tb.specialized = true) (number : fa.style.IsNumber)
      (style : fb.style = fa.style) (bits : fb.bits = fa.bits) : Twin r a b
  | family {a b : TypeId} {ta tb : Datatype} {f : Family} (ha : r.entry a = .ok (ta, f))
      (hb : r.entry b = .ok (tb, f)) (specialized : ta.specialized = true)
      (specialized' : tb.specialized = true) (family : tb.family = ta.family)
      (params : List.Forall₂ (Twin r) ta.params tb.params) : Twin r a b

theorem forall₂_and_mem {β γ : Type} {R : β → γ → Prop} {xs : List β} {ys : List γ}
    (h : List.Forall₂ R xs ys) : List.Forall₂ (fun x y => R x y ∧ x ∈ xs ∧ y ∈ ys) xs ys := by
  rw [List.forall₂_iff_zip] at h ⊢
  exact ⟨h.1, fun hmem => ⟨h.2 hmem, List.of_mem_zip hmem⟩⟩

/-- Two lists that come from the same one are related as what comes from each element is. -/
theorem forall₂_of_common {β γ δ : Type} {R : β → γ → Prop} {S : β → δ → Prop} {T : γ → δ → Prop}
    {xs : List β} {ys : List γ} {zs : List δ} (hy : List.Forall₂ R xs ys)
    (hz : List.Forall₂ S xs zs) (h : ∀ x ∈ xs, ∀ y z, R x y → S x z → T y z) :
    List.Forall₂ T ys zs := by
  induction hy generalizing zs with
  | nil =>
    cases hz
    exact .nil
  | cons hxy _ ih =>
    cases hz with
    | cons hxz hz =>
      rw [List.forall_mem_cons] at h
      exact .cons (h.1 _ _ hxy hxz) (ih hz h.2)

/-- What a template gives for twins are twins. -/
theorem Specializes.twin {generic a b : TypeId} {ids ids' : List TypeId}
    (ha : r.Specializes generic ids a) (hb : r.Specializes generic ids' b) (hr : r.WellFormed)
    (h : List.Forall₂ r.Twin ids ids') : r.Twin a b := by
  obtain ⟨g, hg, hcases⟩ := ha
  obtain ⟨g', hg', hcases'⟩ := hb
  obtain rfl := Option.some.inj (hg.symm.trans hg')
  rcases hcases with ⟨hspecialized, -, rfl⟩ | ⟨hgeneric, ta, hta, hfamily, rfl, ha⟩
  · rcases hcases' with ⟨-, -, rfl⟩ | ⟨hgeneric, -⟩
    · exact .same _
    · cases hgeneric.symm.trans hspecialized
  · rcases hcases' with ⟨hspecialized, -⟩ | ⟨-, tb, htb, hfamily', rfl, hb⟩
    · cases hgeneric.symm.trans hspecialized
    · obtain ⟨u, f, hentry⟩ := hr.exists_entry (Registry.lt_size hta)
      obtain ⟨hu, hf⟩ := entry_eq_ok_iff.1 hentry
      obtain rfl := Option.some.inj (hta.symm.trans hu)
      refine .family hentry (entry_eq_ok_iff.2 ⟨htb, ?_⟩) ha hb (hfamily'.trans hfamily.symm) h
      rw [hfamily', ← hfamily]
      exact hf

/-- What the type of a field stands for, given twins as parameters, are twins. -/
theorem Denotes.twin {names : List String} {params params' : List TypeId} {ty : FieldTy}
    {a b : TypeId} (hr : r.WellFormed) (hparams : List.Forall₂ r.Twin params params')
    (ha : ty.Denotes r.Specializes names params a)
    (hb : ty.Denotes r.Specializes names params' b) : r.Twin a b := by
  induction ty using FieldTy.induction_on generalizing a b with
  | concrete c =>
    obtain rfl : a = c := ha
    obtain rfl : b = a := hb
    exact .same b
  | param name =>
    obtain ⟨i, hi, ha⟩ := ha
    obtain ⟨j, hj, hb⟩ := hb
    obtain rfl := Option.some.inj (hi.symm.trans hj)
    obtain ⟨hlt, rfl⟩ := List.getElem?_eq_some_iff.1 ha
    obtain ⟨hlt', rfl⟩ := List.getElem?_eq_some_iff.1 hb
    exact (List.forall₂_iff_get.1 hparams).2 i hlt hlt'
  | apply generic args ih =>
    obtain ⟨ids, hids, ha⟩ := ha
    obtain ⟨ids', hids', hb⟩ := hb
    refine ha.twin hb hr (forall₂_of_common (FieldTy.denoteAll_iff.1 hids)
      (FieldTy.denoteAll_iff.1 hids') ?_)
    exact fun arg harg x y hx hy => ih arg harg hx hy

/-- The type is no template, and neither are its parameters, at any depth. -/
inductive Ground (r : Registry) : TypeId → Prop
  | intro {id : TypeId} {t : Datatype} {f : Family} (entry : r.entry id = .ok (t, f))
      (specialized : t.specialized = true) (params : ∀ p ∈ t.params, Ground r p) : Ground r id

/-- Types that are alike are twins, if none of them is a template. The induction is on the number
of the first type: parameters are older. -/
theorem Alike.twin {a b : TypeId} (h : r.Alike a b) (hr : r.WellFormed) (ha : r.Ground a)
    (hb : r.Ground b) : r.Twin a b := by
  induction a using Nat.strongRecOn generalizing b with
  | ind a ih =>
    cases ha with
    | intro hentrya hspecializeda hparamsa =>
      cases hb with
      | intro hentryb hspecializedb hparamsb =>
        cases h with
        | number ha hb number style bits =>
          obtain ⟨rfl, rfl⟩ := eq_of_entry hentrya ha
          obtain ⟨rfl, rfl⟩ := eq_of_entry hentryb hb
          exact .number ha hb hspecializeda hspecializedb number style.symm bits.symm
        | family ha hb other family params =>
          obtain ⟨rfl, rfl⟩ := eq_of_entry hentrya ha
          obtain ⟨rfl, rfl⟩ := eq_of_entry hentryb hb
          have hf := (entry_eq_ok_iff.1 ha).2
          rw [family] at hf
          obtain rfl := Option.some.inj (hf.symm.trans (entry_eq_ok_iff.1 hb).2)
          refine .family ha hb hspecializeda hspecializedb family.symm
            ((forall₂_and_mem params).imp fun p q hpq => ?_)
          exact ih p (hr.params_older (entry_eq_ok_iff.1 ha).1 p hpq.2.1) hpq.1
            (hparamsa p hpq.2.1) (hparamsb q hpq.2.2)

theorem Twin.style_eq {a b : TypeId} (h : r.Twin a b) (hr : r.WellFormed) (ha : a < r.size) :
    ∃ f g, r.family a = .ok f ∧ r.family b = .ok g ∧ g.style = f.style := by
  cases h with
  | same =>
    obtain ⟨t, f, hentry⟩ := hr.exists_entry ha
    exact ⟨f, f, family_eq_ok_iff.2 ⟨t, hentry⟩, family_eq_ok_iff.2 ⟨t, hentry⟩, rfl⟩
  | number ha hb _ _ _ style _ =>
    exact ⟨_, _, family_eq_ok_iff.2 ⟨_, ha⟩, family_eq_ok_iff.2 ⟨_, hb⟩, style⟩
  | family ha hb _ _ _ _ =>
    exact ⟨_, _, family_eq_ok_iff.2 ⟨_, ha⟩, family_eq_ok_iff.2 ⟨_, hb⟩, rfl⟩

/-! ## Lowering twins -/

theorem Reachable.ready (hr : r.Reachable) (hentry : r.entry id = .ok (t, f))
    (hkept : f.style = .object → ¬ r.Withdrawn id) : t.progress = .ready := by
  have ht := (entry_eq_ok_iff.1 hentry).1
  cases hprogress : t.progress with
  | ready => rfl
  | building => exact absurd hprogress (hr.evolved.progress_ne_building ht)
  | failed => exact absurd ⟨t, ht, hprogress⟩ (hkept (hr.style_object hentry (.inr hprogress)))

theorem usable_of_ready (hspecialized : t.specialized = true) (hready : t.progress = .ready) :
    usable t = .ok true := by
  rw [usable, if_pos hspecialized, hready]

variable {a b : TypeId} {ta tb : Datatype} {depth : Nat}

/-- The fields of instances of one template are twins, if the parameters are. -/
theorem Orderly.fields_twin (hr : r.Orderly) (ha : r.entry a = .ok (ta, f))
    (hb : r.entry b = .ok (tb, f)) (hspecializeda : ta.specialized = true)
    (hspecializedb : tb.specialized = true) (hreadya : ta.progress = .ready)
    (hreadyb : tb.progress = .ready) (hgeneric : f.isGeneric = true)
    (hfamily : tb.family = ta.family) (hparams : List.Forall₂ r.Twin ta.params tb.params) :
    ∃ made made', r.fields a = .ok made ∧ r.fields b = .ok made' ∧
      List.Forall₂ (fun m m' => m.1 = m'.1 ∧ r.Twin m.2 m'.2 ∧ m.2 < r.size ∧ m'.2 < r.size)
        made made' := by
  have hwf := hr.evolved.wellFormed
  have hta := (entry_eq_ok_iff.1 ha).1
  have htb := (entry_eq_ok_iff.1 hb).1
  have hfields : ∀ {x : TypeId} {u : Datatype} {made : List (String × TypeId)},
      r.entry x = .ok (u, f) → u.specialized = true → u.progress = .ready →
      concreteFields? u.fields = some made → r.fields x = .ok made := by
    intro x u made hx hspecialized hready hmade
    rw [fields_eq_of_usable hr.evolved hx hspecialized, hmade]
    · rfl
    · rintro ⟨u', hu', hfailed⟩
      obtain rfl := Option.some.inj ((entry_eq_ok_iff.1 hx).1.symm.trans hu')
      cases hready.symm.trans hfailed
  obtain ⟨g, u, fg, made, hg, hunspecialized, hgfamily, hmade, hgives⟩ :=
    hr.substituted ha hgeneric hspecializeda hreadya
  obtain ⟨g', u', fg', made', hg', hunspecialized', hgfamily', hmade', hgives'⟩ :=
    hr.substituted hb hgeneric hspecializedb hreadyb
  -- Both have the same template.
  obtain rfl : g' = g := hr.evolved.founded.eq_of_family (entry_eq_ok_iff.1 hg).2
    (entry_eq_ok_iff.1 hg).1 (entry_eq_ok_iff.1 hg').1 hunspecialized hunspecialized'
    (hgfamily'.trans (hfamily.trans hgfamily.symm))
  obtain ⟨rfl, rfl⟩ := eq_of_entry hg hg'
  refine ⟨made, made', hfields ha hspecializeda hreadya hmade,
    hfields hb hspecializedb hreadyb hmade', ?_⟩
  have htwins : List.Forall₂ (fun m m' => m.1 = m'.1 ∧ r.Twin m.2 m'.2) made made' :=
    forall₂_of_common hgives hgives' fun field _ m m' hm hm' =>
      ⟨hm.1.trans hm'.1.symm, Denotes.twin hwf hparams hm.2 hm'.2⟩
  exact (forall₂_and_mem htwins).imp fun m m' hm => ⟨hm.1.1, hm.1.2,
    hwf.lt_size_of_made hta hmade hm.2.1, hwf.lt_size_of_made htb hmade' hm.2.2⟩

/-- Members of twins: twins that are lowered within the bound. -/
def TwinMember (r : Registry) (bound : Nat) (x y : TypeId) : Prop :=
  r.Twin x y ∧ (x < r.size ∧ y < r.size) ∧ x < bound ∧ y < bound

theorem exists_names (hr : initial.Evolved r) (hsize : a < r.size ∧ b < r.size) {r₁ s : Registry}
    (h : Unmoved r r r₁ s) : ∃ n n', r₁.display a = .ok n ∧ s.display b = .ok n' := by
  obtain ⟨rfl, rfl⟩ := h
  obtain ⟨n, hn⟩ := exists_display hr hsize.1
  obtain ⟨n', hn'⟩ := exists_display hr hsize.2
  exact ⟨n, n', hn, hn'⟩

theorem comparable_numbers {fa fb : Family} {M : TypeId → TypeId → Prop} (hr : initial.Evolved r)
    (hsize : a < r.size ∧ b < r.size) (hplaced : fa.style ≠ .object)
    (hnumber : ¬ (fa.style = .tuple ∨ fa.style = .slice)) (style : fb.style = fa.style)
    (bits : fb.bits = fa.bits) :
    Comparable (Unmoved r r) (fun _ _ => True) (fun _ => "") M a b ta tb fa fb where
  style := style
  bits := bits
  supertype hstyle := absurd hstyle hplaced
  width := trivial
  shown h := by
    obtain ⟨n, n', hn, hn'⟩ := exists_names hr hsize h
    exact ⟨n, n', hn, hn', rfl⟩
  params hstyle := absurd hstyle hnumber
  fields hstyle := absurd hstyle hplaced

theorem Orderly.comparable_instances (hr : r.Orderly) (ha : r.entry a = .ok (ta, f))
    (hb : r.entry b = .ok (tb, f)) (hspecializeda : ta.specialized = true)
    (hspecializedb : tb.specialized = true) (hreadya : ta.progress = .ready)
    (hreadyb : tb.progress = .ready) (hgeneric : f.isGeneric = true)
    (hfamily : tb.family = ta.family) (hparams : List.Forall₂ r.Twin ta.params tb.params)
    (hdepth : a < depth + 1 ∧ b < depth + 1) (hobject : f.style = .object → r.size < depth + 1) :
    Comparable (Unmoved r r) (fun _ _ => True) (fun _ => "") (r.TwinMember depth) a b ta tb f
      f where
  style := rfl
  bits := rfl
  supertype _ := rfl
  width := trivial
  shown h := by
    obtain ⟨n, n', hn, hn'⟩ := exists_names hr.evolved
      ⟨lt_size (entry_eq_ok_iff.1 ha).1, lt_size (entry_eq_ok_iff.1 hb).1⟩ h
    exact ⟨n, n', hn, hn', rfl⟩
  params _ := by
    have hta := (entry_eq_ok_iff.1 ha).1
    have htb := (entry_eq_ok_iff.1 hb).1
    refine (forall₂_and_mem hparams).imp fun p q hpq => ⟨hpq.1, ?_⟩
    have hp := hr.evolved.wellFormed.params_older hta p hpq.2.1
    have hq := hr.evolved.wellFormed.params_older htb q hpq.2.2
    exact ⟨⟨Nat.lt_trans hp (lt_size hta), Nat.lt_trans hq (lt_size htb)⟩,
      Nat.lt_of_lt_of_le hp (Nat.le_of_lt_succ hdepth.1),
      Nat.lt_of_lt_of_le hq (Nat.le_of_lt_succ hdepth.2)⟩
  fields hstyle := by
    rintro r₁ s ⟨rfl, rfl⟩
    obtain ⟨made, made', hmade, hmade', hmembers⟩ := hr.fields_twin ha hb hspecializeda
      hspecializedb hreadya hreadyb hgeneric hfamily hparams
    have hle := Nat.le_of_lt_succ (hobject hstyle)
    refine .inl ⟨made, made', hmade, hmade', hmembers.imp fun m m' hm => ⟨hm.1, hm.2.1, hm.2.2, ?_⟩⟩
    exact ⟨Nat.lt_of_lt_of_le hm.2.2.1 hle, Nat.lt_of_lt_of_le hm.2.2.2 hle⟩

/-- Twins are lowered alike. The induction is on the nesting of members in place; an object is
only met at the top. -/
theorem Orderly.alongside_twins (hr : r.Orderly) (h : r.Twin a b)
    (hsize : a < r.size ∧ b < r.size) (hdepth : a < depth ∧ b < depth)
    (hobject : ∀ f, r.family a = .ok f → f.style = .object →
      r.size < depth ∧ ¬ r.Withdrawn a ∧ ¬ r.Withdrawn b) :
    Alongside (Unmoved r r) (fun _ _ => True) (SameBut (fun _ => "") fun _ => 0)
      (plainWithin depth a r) (plainWithin depth b r) := by
  have hwf := hr.evolved.wellFormed
  induction depth generalizing a b with
  | zero => exact absurd hdepth.1 (Nat.not_lt_zero _)
  | succ depth ih =>
    have hpairs : Pairs (Unmoved r r) (fun _ _ => True) (fun _ => "") (fun _ => 0)
        (plainWithin depth) (plainWithin depth) (r.TwinMember depth) := by
      rintro r₁ s x y ⟨rfl, rfl⟩ ⟨htwin, hsize, hbound⟩
      obtain ⟨f, g, hf, hg, hstyle⟩ := htwin.style_eq hwf hsize.1
      refine ⟨rfl, f, g, hf, hg, hstyle, fun hplaced => ih htwin hsize hbound ?_⟩
      intro f' hf' hobject
      obtain rfl := Except.ok.inj (hf.symm.trans hf')
      exact absurd hobject hplaced
    have hsame : a = b → Alongside (Unmoved r r) (fun _ _ => True)
        (SameBut (fun _ => "") fun _ => 0) (plainWithin (depth + 1) a r)
        (plainWithin (depth + 1) b r) := by
      rintro rfl
      obtain ⟨t, f, hentry⟩ := hwf.exists_entry hsize.1
      refine (plainWithin_extends hr.evolved (.refl r) hentry ?_ hdepth.1 hdepth.1 ?_).mono
        (fun _ _ _ => trivial) fun l l' hl => ?_
      · intro _ t' ht'
        rw [Option.some.inj (ht'.symm.trans (entry_eq_ok_iff.1 hentry).1)]
      · intro hstyle
        have hlt := (hobject f (family_eq_ok_iff.2 ⟨t, hentry⟩) hstyle).1
        exact ⟨hlt, hlt⟩
      · rw [same_iff.1 hl]
        rfl
    cases h with
    | same => exact hsame rfl
    | @number _ _ ta tb fa fb ha hb specialized specialized' number style bits =>
      have hplaced : fa.style ≠ .object ∧ ¬ (fa.style = .tuple ∨ fa.style = .slice) := by
        rcases number with hstyle | hstyle <;> rw [hstyle] <;> decide
      have hreadya := hr.reachable.ready ha fun hstyle => absurd hstyle hplaced.1
      have hreadyb := hr.reachable.ready hb fun hstyle => absurd (style ▸ hstyle) hplaced.1
      rw [plainWithin_usable ha (usable_of_ready specialized hreadya),
        plainWithin_usable hb (usable_of_ready specialized' hreadyb)]
      exact alongside_lower hpairs
        (comparable_numbers hr.evolved hsize hplaced.1 hplaced.2 style bits) ⟨rfl, rfl⟩
    | @family _ _ ta tb f ha hb specialized specialized' family params =>
      by_cases hgeneric : f.isGeneric = true
      · have hobject := hobject f (family_eq_ok_iff.2 ⟨ta, ha⟩)
        have hreadya := hr.reachable.ready ha fun hstyle => (hobject hstyle).2.1
        have hreadyb := hr.reachable.ready hb fun hstyle => (hobject hstyle).2.2
        rw [plainWithin_usable ha (usable_of_ready specialized hreadya),
          plainWithin_usable hb (usable_of_ready specialized' hreadyb)]
        refine alongside_lower hpairs (hr.comparable_instances ha hb specialized specialized'
          hreadya hreadyb hgeneric family params hdepth fun hstyle => ?_) ⟨rfl, rfl⟩
        exact (hobject hstyle).1
      · exact hsame (hr.evolved.founded.eq_of_not_isGeneric ha hb family.symm
          (Bool.eq_false_iff.2 hgeneric))

/-- Twins that are not the same type are of lasting families. -/
theorem Twin.lasting (h : r.Twin a b) (hr : r.Founded) (hne : a ≠ b) :
    ∃ ta tb fa fb, r.entry a = .ok (ta, fa) ∧ r.entry b = .ok (tb, fb) ∧ Lasting fa ∧
      Lasting fb := by
  cases h with
  | same => exact absurd rfl hne
  | @number _ _ ta tb fa fb ha hb _ _ number style _ =>
    have hplaced : fa.style ≠ .object := by
      rcases number with hstyle | hstyle <;> rw [hstyle] <;> decide
    exact ⟨ta, tb, fa, fb, ha, hb, .inl hplaced, .inl (style ▸ hplaced)⟩
  | @family _ _ ta tb f ha hb _ _ family _ =>
    have hgeneric : f.isGeneric = true := by
      by_contra hnot
      exact hne (hr.eq_of_not_isGeneric ha hb family.symm (Bool.eq_false_iff.2 hnot))
    exact ⟨ta, tb, f, f, ha, hb, .inr hgeneric, .inr hgeneric⟩

/-- The layouts of twins are both refused, or have the same skeleton. -/
theorem Orderly.layout_twins (hr : r.Orderly) (h : r.Twin a b) (ha : a < r.size) (hb : b < r.size)
    (hkepta : ¬ r.Withdrawn a) (hkeptb : ¬ r.Withdrawn b) :
    Alongside (fun _ _ => True) (fun _ _ => True)
      (fun l l' : Layout => l.skeleton = l'.skeleton) (layout a r) (layout b r) := by
  by_cases hab : a = b
  · subst hab
    generalize layout a r = o
    cases o with
    | ok l r' => exact .ok rfl trivial
    | error e r' => exact .error trivial trivial
    | fault fault => exact .fault fault fault
  · obtain ⟨ta, tb, fa, fb, hentrya, hentryb, hlastinga, hlastingb⟩ :=
      h.lasting hr.evolved.founded hab
    have hplaced : ∀ f : Family, f.style ≠ .object → Lasting f := fun _ hstyle => .inl hstyle
    have hplaina := hr.remembers.alongside hplaced hr.evolved hentrya (.inl hlastinga)
    have hplainb := hr.remembers.alongside hplaced hr.evolved hentryb (.inl hlastingb)
    have htwins := hr.alongside_twins h ⟨ha, hb⟩
      ⟨Nat.lt_succ_of_lt ha, Nat.lt_succ_of_lt hb⟩
      fun _ _ _ => ⟨Nat.lt_succ_self _, hkepta, hkeptb⟩
    generalize layout a r = o at hplaina
    generalize layout b r = o' at hplainb
    generalize plainWithin (r.size + 1) a r = p at hplaina htwins
    generalize plainWithin (r.size + 1) b r = p' at hplainb htwins
    cases htwins with
    | ok hl _ =>
      cases hplaina with
      | ok hla _ =>
        cases hplainb with
        | ok hlb _ =>
          rw [same_iff.1 hla, same_iff.1 hlb]
          exact .ok hl trivial
    | error _ _ =>
      cases hplaina with
      | error _ _ =>
        cases hplainb with
        | error _ _ => exact .error trivial trivial
    | fault _ _ =>
      cases hplaina with
      | fault _ _ =>
        cases hplainb with
        | fault _ _ => exact .fault _ _

theorem Ground.lt_size (h : r.Ground a) : a < r.size := by
  cases h with
  | intro entry => exact Registry.lt_size (entry_eq_ok_iff.1 entry).1

/-- Where generic types have their fields before they have instances, and no instance is given
more, types with the same mangled name are laid out alike: both layouts are refused, or they
have the same kinds, widths and slots, nested in the same way, and differ only in the names of
records and in the types of references. -/
theorem layout_of_mangled_eq (hr : initial.LeadsOrderly r)
    (hwords : ∀ (k : FamilyId) (f : Family), r.families[k]? = some f → IsWord f.name)
    (ha : r.Ground a) (hb : r.Ground b) (hkepta : ¬ r.Withdrawn a) (hkeptb : ¬ r.Withdrawn b)
    (hname : r.mangled a = r.mangled b) :
    (∃ e e' r₁ r₂, layout a r = .error e r₁ ∧ layout b r = .error e' r₂) ∨
      ∃ l l' r₁ r₂, layout a r = .ok l r₁ ∧ layout b r = .ok l' r₂ ∧ l.skeleton = l'.skeleton ∧
        l.bytes = l'.bytes := by
  have hr := LeadsOrderly.orderly hr orderly_initial
  have hwf := hr.evolved.wellFormed
  obtain ⟨text, htext⟩ := exists_mangled hwf ha.lt_size
  have halike := alike_of_mangled_eq hr.evolved hwords ha.lt_size hb.lt_size htext
    (hname.symm.trans htext)
  have hlayouts := hr.layout_twins (halike.twin hwf ha hb) ha.lt_size hb.lt_size hkepta hkeptb
  have hreturns := returns_layout hr.evolved ha.lt_size
  generalize layout a r = o, layout b r = o' at hlayouts hreturns
  cases hlayouts with
  | ok hskeleton _ =>
    exact .inr ⟨_, _, _, _, rfl, rfl, hskeleton, Layout.bytes_eq_of_skeleton hskeleton⟩
  | error _ _ => exact .inl ⟨_, _, _, _, rfl, rfl⟩
  | fault =>
    obtain ⟨_, hstate⟩ := hreturns
    cases hstate

theorem ground_of_type (hr : r.WellFormed) (hid : id < r.size)
    (h : ∀ t ∈ r.types[id]?, t.specialized = true ∧ ∀ p ∈ t.params, r.Ground p) : r.Ground id := by
  obtain ⟨t, f, hentry⟩ := hr.exists_entry hid
  obtain ⟨hspecialized, hparams⟩ := h t (entry_eq_ok_iff.1 hentry).1
  exact .intro hentry hspecialized hparams

def surveying : List Operation :=
  [.createInteger "Metres" 32, .create "Box" none ["T"], .addField 13 "item" (.param "T"),
   .addField 13 "pair" (.apply Builtin.tuple [.param "T", .concrete Builtin.double]),
   .addField 13 "next" (.apply 13 [.param "T"]), .specialize 13 [Builtin.int], .layout 14,
   .specialize 13 [12], .specialize 13 [Builtin.float]]

/-- Two boxes for integers of one width, 14 for `Int` and 16 for `Metres`, of which the first
was laid out before the second was built, and a third one for `Float`, 18. Each has a pair of its
item and a number in place. -/
def surveyed : Registry :=
  Operation.build surveying

/-- The skeleton of a box, from the layout of its item. -/
def boxSkeleton (item : Layout) : Layout :=
  .record "" [.word "header" .header, .word "super" (.supertype Builtin.any), .inline "item" item,
    .inline "pair" (.record "" [.inline "0" item, .inline "1" (.float 64)]), .word "next" (.ref 0)]

/-- The two boxes for integers have one name and one skeleton. The box for `Float` takes as many
bytes, but it has another name, and another skeleton. -/
theorem layout_of_mangled_eq_surveyed :
    initial.LeadsOrderly surveyed ∧ surveyed.Ground 14 ∧ surveyed.Ground 16 ∧
      surveyed.mangled 14 = .ok "o.Box$5_3i32" ∧ surveyed.mangled 14 = surveyed.mangled 16 ∧
      (∃ l l' r₁ r₂, layout 14 surveyed = .ok l r₁ ∧ layout 16 surveyed = .ok l' r₂ ∧ l ≠ l' ∧
        l.skeleton = l'.skeleton ∧ l'.skeleton = boxSkeleton (.int 32) ∧ l.bytes = l'.bytes ∧
        l'.bytes = 40) ∧
      surveyed.mangled 18 = .ok "o.Box$7_5float" ∧
      ∃ l r₁, layout 18 surveyed = .ok l r₁ ∧ l.bytes = 40 ∧
        l.skeleton = boxSkeleton (.float 32) ∧ l.skeleton ≠ boxSkeleton (.int 32) := by
  have hafter : Operation.afterAll surveying initial = some surveyed := by decide +kernel
  have horderly : initial.LeadsOrderly surveyed :=
    leadsOrderly_of_afterAll hafter (by decide +kernel)
  have hwf := (LeadsOrderly.orderly horderly orderly_initial).evolved.wellFormed
  have hwords : ∀ (k : FamilyId) (f : Family), surveyed.families[k]? = some f → IsWord f.name := by
    have hall : ∀ f ∈ surveyed.families, IsWord f.name := by decide +kernel
    exact fun k f hf => hall f (Array.mem_of_getElem? hf)
  have hnumbers : ∀ id ∈ [Builtin.int, 12], id < surveyed.size ∧
      ∀ t ∈ surveyed.types[id]?, t.specialized = true ∧ t.params = [] := by decide +kernel
  have hboxes : ∀ id ∈ [14, 16], id < surveyed.size ∧ ∀ t ∈ surveyed.types[id]?,
      t.specialized = true ∧ t.progress = .ready ∧ ∀ p ∈ t.params, p ∈ [Builtin.int, 12] := by
    decide +kernel
  have hground : ∀ id ∈ [14, 16], surveyed.Ground id := by
    intro id hid
    refine ground_of_type hwf (hboxes id hid).1 fun t ht => ⟨((hboxes id hid).2 t ht).1, ?_⟩
    intro p hp
    have hp := ((hboxes id hid).2 t ht).2.2 p hp
    refine ground_of_type hwf (hnumbers p hp).1 fun u hu => ⟨((hnumbers p hp).2 u hu).1, ?_⟩
    rw [((hnumbers p hp).2 u hu).2]
    exact List.forall_mem_nil _
  have hkept : ∀ id ∈ [14, 16], ¬ surveyed.Withdrawn id := by
    rintro id hid ⟨t, ht, hfailed⟩
    cases ((hboxes id hid).2 t ht).2.1.symm.trans hfailed
  have hnames : surveyed.mangled 14 = surveyed.mangled 16 := by decide +kernel
  have hdiffer : ∀ l ∈ (layout 14 surveyed).value?, ∀ l' ∈ (layout 16 surveyed).value?,
      l ≠ l' ∧ l'.skeleton = boxSkeleton (.int 32) ∧ l'.bytes = 40 := by decide +kernel
  have hreturned : (layout 14 surveyed).value?.isSome = true := by decide +kernel
  refine ⟨horderly, hground 14 (by decide), hground 16 (by decide), by decide +kernel, hnames, ?_,
    by decide +kernel, ?_⟩
  · rcases layout_of_mangled_eq horderly hwords (hground 14 (by decide)) (hground 16 (by decide))
      (hkept 14 (by decide)) (hkept 16 (by decide)) hnames with
      ⟨e, e', r₁, r₂, he, -⟩ | ⟨l, l', r₁, r₂, hl, hl', hsame, hbytes⟩
    · rw [he] at hreturned
      cases hreturned
    · rw [hl, hl'] at hdiffer
      obtain ⟨hne, hskeleton, htotal⟩ := hdiffer l rfl l' rfl
      exact ⟨l, l', r₁, r₂, hl, hl', hne, hsame, hskeleton, hbytes, htotal⟩
  · obtain ⟨l, r₁, hl⟩ : ∃ l r₁, layout 18 surveyed = .ok l r₁ :=
      exists_ok_of_isSome (by decide +kernel)
    have hfloat : ∀ l ∈ (layout 18 surveyed).value?, l.bytes = 40 ∧
        l.skeleton = boxSkeleton (.float 32) ∧ l.skeleton ≠ boxSkeleton (.int 32) := by
      decide +kernel
    rw [hl] at hfloat
    exact ⟨l, r₁, hl, hfloat l rfl⟩

end TypeLayer.Registry
