import TypeLayer.Proofs.Nominal.Reachable

/-!
# Families

A family is founded by a declaration: its declared type comes first, and every other
type of the family is an instance of it.  `Founded` says so, together with what the
declaration leaves behind: the name leads to the declared type, and the supertype is
older than the family.  The first type of all, `Any`, is the only one that is its own
supertype.

Each change keeps a registry founded (`Step.founded`), and so do calls
(`Evolved.founded`).  What follows is that names tell families apart, that an instance
has as many parameters as its family asks for, and that supertypes descend to `Any`.
-/

namespace TypeLayer

theorem Family.Becomes.isGeneric {f f' : Family} (h : f.Becomes f') :
    f'.isGeneric = f.isGeneric := by
  unfold Family.isGeneric
  rw [h.variadic, h.paramNames]

theorem Family.Becomes.wrongArity? {f f' : Family} (h : f.Becomes f') (found : Nat) :
    f'.wrongArity? found = f.wrongArity? found := by
  unfold Family.wrongArity?
  rw [h.style, h.variadic, h.paramNames]

namespace Registry

variable {r r' : Registry} {id : TypeId} {k : FamilyId} {t : Datatype} {f : Family}

theorem eq_of_entry {t' : Datatype} {f' : Family} (h : r.entry id = .ok (t, f))
    (h' : r.entry id = .ok (t', f')) : t = t' ∧ f = f' :=
  Prod.mk.inj (Except.ok.inj (h.symm.trans h'))

/-- The families of a registry come from declarations, and their types from them. -/
structure Founded (r : Registry) : Prop where
  template : ∀ {k : FamilyId} {f : Family}, r.families[k]? = some f →
    ∃ t, r.types[f.template]? = some t ∧ t.family = k ∧ t.params = [] ∧
      t.specialized = !f.isGeneric
  member : ∀ {id : TypeId} {t : Datatype} {f : Family}, r.entry id = .ok (t, f) →
    id = f.template ∨ f.template < id ∧ f.isGeneric = true ∧ t.specialized = true ∧
      f.wrongArity? t.params.length = none
  listed : ∀ {id : TypeId} {t : Datatype} {f : Family}, r.entry id = .ok (t, f) →
    f.isGeneric = true → t.specialized = true → t.progress ≠ .failed →
      (t.params, id) ∈ f.instances
  supertype : ∀ {k : FamilyId} {f : Family}, r.families[k]? = some f →
    k = 0 ∧ f.template = Builtin.any ∧ f.supertype = Builtin.any ∨
      f.supertype < f.template ∧ ∃ s, r.types[f.supertype]? = some s ∧ s.family < k
  name : ∀ {k : FamilyId} {f : Family}, r.families[k]? = some f →
    r.names.get? f.name = some f.template
  named : ∀ {name : String} {id : TypeId}, r.names.get? name = some id →
    ∃ t f, r.entry id = .ok (t, f) ∧ f.name = name ∧ f.template = id

/-! ## Changes keep a registry founded -/

/-- A type that was there before the change, with its family. -/
theorem Step.entry_cases {t' : Datatype} {f' : Family} (h : Step r r') (hr : r.WellFormed)
    (hentry : r'.entry id = .ok (t', f')) :
    (∃ t f, r.entry id = .ok (t, f) ∧ t.Becomes t' ∧ r'.Relists t.family f f') ∨
      id = r.size ∧ r.Adds r' t' := by
  obtain ⟨ht', hf'⟩ := entry_eq_ok_iff.1 hentry
  rcases h.type_cases ht' with ⟨t, ht, halters⟩ | hnew
  · left
    rw [halters.becomes.family] at hf'
    rcases h.family_cases hf' with ⟨f, hf, hrelists⟩ | ⟨hk, -⟩
    · exact ⟨t, f, entry_eq_ok_iff.2 ⟨ht, hf⟩, halters.becomes, hrelists⟩
    · exact absurd hk (Nat.ne_of_lt (hr.family_known ht))
  · exact .inr hnew

theorem Founded.isGeneric_of_template (hr : r.Founded) (hentry : r.entry id = .ok (t, f))
    (hgeneric : t.specialized = false) : id = f.template ∧ f.isGeneric = true := by
  obtain ⟨ht, hf⟩ := entry_eq_ok_iff.1 hentry
  rcases hr.member hentry with rfl | ⟨-, -, hspecialized, -⟩
  · obtain ⟨u, hu, -, -, hspecialized⟩ := hr.template hf
    obtain rfl := Option.some.inj (ht.symm.trans hu)
    rw [hgeneric] at hspecialized
    exact ⟨rfl, by simpa using hspecialized.symm⟩
  · rw [hgeneric] at hspecialized
    cases hspecialized

theorem Step.founded_member (h : Step r r') (hwf : r.WellFormed) (hr : r.Founded)
    (hentry : r'.entry id = .ok (t, f)) :
    id = f.template ∨ f.template < id ∧ f.isGeneric = true ∧ t.specialized = true ∧
      f.wrongArity? t.params.length = none := by
  rcases h.entry_cases hwf hentry with ⟨t₀, f₀, hentry₀, hbecomes, hrelists⟩ | ⟨rfl, hadds⟩
  · have hf := hrelists.becomes
    rw [hf.template, hf.isGeneric, hf.wrongArity?, hbecomes.specialized, hbecomes.params]
    exact hr.member hentry₀
  · have hf := (entry_eq_ok_iff.1 hentry).2
    rcases hadds.origin with ⟨f₁, hf₁, htemplate, -⟩ | ⟨hspecialized, hinstance, -⟩
    · obtain rfl := Option.some.inj (hf.symm.trans hf₁)
      exact .inl htemplate.symm
    · -- The new type is an instance of a template that the registry had before.
      obtain ⟨generic, g, f₀, hg, hfamily, hgeneric, harity⟩ := hinstance
      obtain ⟨f₁, hf₁, hbecomes⟩ := h.extends.family (entry_eq_ok_iff.1 hg).2
      rw [← hfamily] at hf₁
      obtain rfl := Option.some.inj (hf.symm.trans hf₁)
      obtain ⟨htemplate, hisGeneric⟩ := hr.isGeneric_of_template hg hgeneric
      have hlt := lt_size (entry_eq_ok_iff.1 hg).1
      rw [hbecomes.template, hbecomes.isGeneric, hbecomes.wrongArity?, ← htemplate]
      exact .inr ⟨hlt, hisGeneric, hspecialized, harity⟩

theorem Step.founded_listed (h : Step r r') (hwf : r.WellFormed) (hr : r.Founded)
    (hentry : r'.entry id = .ok (t, f)) (hgeneric : f.isGeneric = true)
    (hspecialized : t.specialized = true) (hprogress : t.progress ≠ .failed) :
    (t.params, id) ∈ f.instances := by
  obtain ⟨ht, hf⟩ := entry_eq_ok_iff.1 hentry
  rcases h.entry_cases hwf hentry with ⟨t₀, f₀, hentry₀, hbecomes, hrelists⟩ | ⟨rfl, hadds⟩
  · rw [hrelists.becomes.isGeneric] at hgeneric
    rw [hbecomes.specialized] at hspecialized
    have hprogress₀ : t₀.progress ≠ .failed := by
      intro hfailed
      have hkept := hbecomes.progress (by rw [hfailed]; decide)
      exact hprogress (hkept.trans hfailed)
    have hlisted := hr.listed hentry₀ hgeneric hspecialized hprogress₀
    rw [hbecomes.params]
    rcases hrelists.kept _ hlisted with hkept | ⟨u, hu, hfailed⟩
    · exact hkept
    · obtain rfl := Option.some.inj (ht.symm.trans hu)
      exact absurd hfailed hprogress
  · rcases hadds.origin with ⟨f₁, hf₁, -, -, hdeclared⟩ | ⟨-, -, f₁, hf₁, hlisted⟩
    · obtain rfl := Option.some.inj (hf.symm.trans hf₁)
      rw [hspecialized, hgeneric] at hdeclared
      cases hdeclared
    · obtain rfl := Option.some.inj (hf.symm.trans hf₁)
      exact hlisted

theorem Step.founded_supertype (h : Step r r') (hwf : r.WellFormed) (hr : r.Founded)
    (hf' : r'.families[k]? = some f) :
    k = 0 ∧ f.template = Builtin.any ∧ f.supertype = Builtin.any ∨
      f.supertype < f.template ∧ ∃ s, r'.types[f.supertype]? = some s ∧ s.family < k := by
  rcases h.family_cases hf' with ⟨f₀, hf₀, hrelists⟩ | ⟨rfl, hfounds⟩
  · rw [hrelists.becomes.template, hrelists.becomes.supertype]
    rcases hr.supertype hf₀ with hany | ⟨hlt, s, hs, hfamily⟩
    · exact .inl hany
    · obtain ⟨s', hs', hbecomes⟩ := h.extends.type hs
      exact .inr ⟨hlt, s', hs', by rw [hbecomes.family]; exact hfamily⟩
  · rw [hfounds.template]
    rcases hfounds.supertype with hlt | ⟨hsize, hsupertype⟩
    · obtain ⟨s, hs⟩ := exists_type hlt
      obtain ⟨s', hs', hbecomes⟩ := h.extends.type hs
      exact .inr ⟨hlt, s', hs', by rw [hbecomes.family]; exact hwf.family_known hs⟩
    · -- A registry without types has no families either: each has its declared type.
      have hfamilies : r.families.size = 0 := by
        by_contra hne
        obtain ⟨t, ht, -⟩ := hr.template (Array.getElem?_eq_getElem (Nat.pos_of_ne_zero hne))
        exact Nat.not_lt_zero _ (Nat.lt_of_lt_of_eq (lt_size ht) hsize)
      exact .inl ⟨hfamilies, hsize, hsupertype.trans hsize⟩

theorem Step.founded (h : Step r r') (hwf : r.WellFormed) (hr : r.Founded) : r'.Founded where
  template hf' := by
    rcases h.family_cases hf' with ⟨f, hf, hrelists⟩ | ⟨rfl, hfounds⟩
    · obtain ⟨t, ht, hfamily, hparams, hspecialized⟩ := hr.template hf
      obtain ⟨t', ht', hbecomes⟩ := h.extends.type ht
      rw [hrelists.becomes.template, hrelists.becomes.isGeneric]
      exact ⟨t', ht', hbecomes.family.trans hfamily, hbecomes.params.trans hparams,
        hbecomes.specialized.trans hspecialized⟩
    · rw [hfounds.template]
      exact hfounds.type
  member hentry := h.founded_member hwf hr hentry
  listed hentry := h.founded_listed hwf hr hentry
  supertype hf' := h.founded_supertype hwf hr hf'
  name hf' := by
    rcases h.family_cases hf' with ⟨f, hf, hrelists⟩ | ⟨-, hfounds⟩
    · rw [hrelists.becomes.name, hrelists.becomes.template]
      exact h.extends.name (hr.name hf)
    · rw [hfounds.template]
      exact hfounds.name
  named hname := by
    rcases h.name_cases hname with hname | ⟨t, f, hentry, hf, -, htemplate⟩
    · obtain ⟨t, f, hentry, hf, htemplate⟩ := hr.named hname
      obtain ⟨t', f', hentry', -, hbecomes⟩ := h.extends.entry hentry
      exact ⟨t', f', hentry', hbecomes.name.trans hf, hbecomes.template.trans htemplate⟩
    · exact ⟨t, f, hentry, hf, htemplate⟩

theorem Steps.founded (h : r.Steps r') (hwf : r.WellFormed) (hr : r.Founded) : r'.Founded := by
  induction h with
  | refl => exact hr
  | tail hsteps hstep ih => exact hstep.founded (Steps.wellFormed hsteps hwf) ih

/-! ## Calls keep a registry founded -/

theorem founded_empty : Founded ⟨#[], #[], ∅⟩ := by
  constructor <;> simp [entry_eq_ok_iff]

theorem founded_initial : initial.Founded :=
  Steps.founded (steps_foldl_declare (by decide)) wellFormed_empty founded_empty

theorem Evolved.founded (hr : initial.Evolved r) : r.Founded :=
  Steps.founded hr.steps wellFormed_initial founded_initial

/-- Between calls nothing is under construction. -/
theorem Evolved.not_building (hr : initial.Evolved r) (id : TypeId) : ¬ r.Building id := by
  rw [hr.building]
  rintro ⟨t, ht, hbuilding⟩
  have hready : ∀ t ∈ initial.types, t.progress = .ready := by decide
  rw [hready t (Array.mem_of_getElem? ht)] at hbuilding
  cases hbuilding

/-- A family that is not generic has one type. -/
theorem Founded.eq_of_not_isGeneric {a b : TypeId} {ta tb : Datatype} {fa fb : Family}
    (hr : r.Founded) (ha : r.entry a = .ok (ta, fa)) (hb : r.entry b = .ok (tb, fb))
    (hfamily : ta.family = tb.family) (hgeneric : fa.isGeneric = false) : a = b := by
  have hfa := (entry_eq_ok_iff.1 ha).2
  have hfb := (entry_eq_ok_iff.1 hb).2
  rw [← hfamily] at hfb
  obtain rfl := Option.some.inj (hfa.symm.trans hfb)
  have hdeclared : ∀ {id : TypeId} {t : Datatype}, r.entry id = .ok (t, fa) → id = fa.template := by
    intro id t hentry
    rcases hr.member hentry with heq | ⟨-, hisGeneric, -⟩
    · exact heq
    · rw [hgeneric] at hisGeneric
      cases hisGeneric
  rw [hdeclared ha, hdeclared hb]

/-! ## Names -/

/-- No two families have the same name. -/
theorem Founded.eq_of_name {k' : FamilyId} {f' : Family} (hr : r.Founded)
    (hf : r.families[k]? = some f) (hf' : r.families[k']? = some f') (hname : f.name = f'.name) :
    k = k' ∧ f = f' := by
  obtain ⟨t, ht, hfamily, -⟩ := hr.template hf
  obtain ⟨t', ht', hfamily', -⟩ := hr.template hf'
  have htemplate : f.template = f'.template := by
    have hlookup := hr.name hf
    rw [hname, hr.name hf'] at hlookup
    exact (Option.some.inj hlookup).symm
  rw [htemplate, ht'] at ht
  obtain rfl := Option.some.inj ht
  obtain rfl : k = k' := hfamily.symm.trans hfamily'
  exact ⟨rfl, Option.some.inj (hf.symm.trans hf')⟩

/-- A family with the name of a built-in one is that family. -/
theorem Evolved.becomes_builtin {k₀ : FamilyId} {f₀ : Family} (hr : initial.Evolved r)
    (hf₀ : initial.families[k₀]? = some f₀) (hf : r.families[k]? = some f)
    (hname : f.name = f₀.name) : f₀.Becomes f := by
  obtain ⟨f', hf', hbecomes⟩ := hr.extends.family hf₀
  obtain ⟨-, rfl⟩ := hr.founded.eq_of_name hf hf' (hname.trans hbecomes.name.symm)
  exact hbecomes

theorem Founded.lookup_eq_some_iff (hr : r.Founded) {name : String} :
    r.lookup name = some id ↔
      ∃ (k : FamilyId) (f : Family), r.families[k]? = some f ∧ f.name = name ∧ f.template = id := by
  constructor
  · intro h
    obtain ⟨t, f, hentry, hname, htemplate⟩ := hr.named h
    exact ⟨t.family, f, (entry_eq_ok_iff.1 hentry).2, hname, htemplate⟩
  · rintro ⟨k, f, hf, rfl, rfl⟩
    exact hr.name hf

/-! ## Numbers of parameters -/

theorem wrongArity?_eq_none_iff {found : Nat} :
    f.wrongArity? found = none ↔
      (f.style = .method → found ≠ 0) ∧ (f.variadic = false → found = f.paramNames.length) := by
  unfold Family.wrongArity?
  by_cases hmethod : f.style = .method ∧ found = 0
  · simp [hmethod]
  · rw [if_neg hmethod]
    have hfound : f.style = .method → found ≠ 0 := fun hstyle hzero => hmethod ⟨hstyle, hzero⟩
    cases hvariadic : f.variadic with
    | true => simpa using hfound
    | false => simpa [hfound] using fun _ => hfound

/-- A type that can be used is the declared type of a family that is not generic, or it
has parameters as the family asks for. -/
theorem Founded.specialized_cases (hr : r.Founded) (hentry : r.entry id = .ok (t, f))
    (hspecialized : t.specialized = true) :
    f.isGeneric = false ∧ t.params = [] ∨ f.wrongArity? t.params.length = none := by
  obtain ⟨ht, hf⟩ := entry_eq_ok_iff.1 hentry
  rcases hr.member hentry with rfl | ⟨-, -, -, harity⟩
  · obtain ⟨u, hu, -, hparams, hgeneric⟩ := hr.template hf
    obtain rfl := Option.some.inj (ht.symm.trans hu)
    rw [hspecialized] at hgeneric
    exact .inl ⟨by simpa using hgeneric.symm, hparams⟩
  · exact .inr harity

theorem Founded.length_params (hr : r.Founded) (hentry : r.entry id = .ok (t, f))
    (hspecialized : t.specialized = true) (hvariadic : f.variadic = false) :
    t.params.length = f.paramNames.length := by
  rcases hr.specialized_cases hentry hspecialized with ⟨hgeneric, hparams⟩ | harity
  · have hnames : f.paramNames = [] := by simpa [Family.isGeneric, hvariadic] using hgeneric
    rw [hparams, hnames]
    rfl
  · exact (wrongArity?_eq_none_iff.1 harity).2 hvariadic

/-- A method has at least its result as a parameter. -/
theorem Evolved.method_params (hr : initial.Evolved r) (hentry : r.entry id = .ok (t, f))
    (hspecialized : t.specialized = true) (hname : f.name = "Fn") : t.params ≠ [] := by
  have hf := (entry_eq_ok_iff.1 hentry).2
  obtain ⟨f₀, hf₀, hname₀, hstyle, hvariadic⟩ : ∃ f₀, initial.families[Builtin.method]? = some f₀ ∧
      f₀.name = "Fn" ∧ f₀.style = .method ∧ f₀.variadic = true := ⟨_, rfl, rfl, rfl, rfl⟩
  have hbecomes := hr.becomes_builtin hf₀ hf (hname.trans hname₀.symm)
  rw [← hbecomes.style] at hstyle
  rw [← hbecomes.variadic] at hvariadic
  rcases hr.founded.specialized_cases hentry hspecialized with ⟨hgeneric, -⟩ | harity
  · rw [Family.isGeneric, hvariadic] at hgeneric
    cases hgeneric
  · have hlength := (wrongArity?_eq_none_iff.1 harity).1 hstyle
    exact fun hempty => hlength (by rw [hempty]; rfl)

theorem Evolved.slice_params (hr : initial.Evolved r) (hentry : r.entry id = .ok (t, f))
    (hspecialized : t.specialized = true) (hstyle : f.style = .slice) : t.params ≠ [] := by
  have hf := (entry_eq_ok_iff.1 hentry).2
  have hname := hr.wellFormed.reserved hf "Slice" (by rw [hstyle]; rfl)
  obtain ⟨f₀, hf₀, hname₀, hvariadic, hnames⟩ : ∃ f₀,
      initial.families[Builtin.slice]? = some f₀ ∧ f₀.name = "Slice" ∧ f₀.variadic = false ∧
        f₀.paramNames = ["T"] := ⟨_, rfl, rfl, rfl, rfl⟩
  have hbecomes := hr.becomes_builtin hf₀ hf (hname.trans hname₀.symm)
  have hlength := hr.founded.length_params hentry hspecialized (hbecomes.variadic.trans hvariadic)
  rw [hbecomes.paramNames, hnames] at hlength
  exact fun hempty => by simp [hempty] at hlength

/-! ## Supertypes -/

/-- `Any` has no instances. -/
theorem Evolved.any_isGeneric (hr : initial.Evolved r) (hf : r.families[0]? = some f) :
    f.isGeneric = false := by
  obtain ⟨f₀, hf₀, hgeneric⟩ : ∃ f₀, initial.families[0]? = some f₀ ∧ f₀.isGeneric = false :=
    ⟨_, rfl, rfl⟩
  obtain ⟨f', hf', hbecomes⟩ := hr.extends.family hf₀
  obtain rfl := Option.some.inj (hf.symm.trans hf')
  exact hbecomes.isGeneric.trans hgeneric

/-- The supertype of a type is older than the family of the type, and its own family is
older still. -/
theorem Evolved.supertype (hr : initial.Evolved r) (hentry : r.entry id = .ok (t, f))
    (hne : id ≠ Builtin.any) :
    f.supertype < f.template ∧ f.template ≤ id ∧
      ∃ s, r.types[f.supertype]? = some s ∧ s.family < t.family := by
  obtain ⟨ht, hf⟩ := entry_eq_ok_iff.1 hentry
  have hmember := hr.founded.member hentry
  rcases hr.founded.supertype hf with ⟨hk, htemplate, -⟩ | ⟨hlt, s, hs, hfamily⟩
  · rw [hk] at hf
    rcases hmember with heq | ⟨-, hgeneric, -⟩
    · exact absurd (heq.trans htemplate) hne
    · rw [hr.any_isGeneric hf] at hgeneric
      cases hgeneric
  · refine ⟨hlt, ?_, s, hs, hfamily⟩
    rcases hmember with heq | ⟨hlt', -⟩
    · exact Nat.le_of_eq heq.symm
    · exact Nat.le_of_lt hlt'

end Registry

end TypeLayer
