import Mathlib.Logic.Relation
import TypeLayer.Nominal.Specialize

/-!
# Changes of a registry

`Step` lists the ways in which a registry changes, each with what is known when
the change is made.  A change only adds: types and families keep their numbers
and what they were declared with (`Extends`).  What remains to be known of a
change is which types, families and names are new afterwards; `type_cases`,
`family_cases` and `name_cases` say that.  An instance is under construction
(`Building`) from the change that lists it to the one that settles or withdraws it.

A registry is well formed if its numbers lead somewhere (`WellFormed`): a type has
a family, its parameters are older than the type, an instance is listed once, under its
own parameters, and a name leads to a declared type of that name.  Every change
keeps a registry well formed.
-/

namespace TypeLayer

/-- What can become of a type: its fields and its layout change, and its progress as
long as it is under construction. -/
structure Datatype.Becomes (t t' : Datatype) : Prop where
  family : t'.family = t.family
  params : t'.params = t.params
  specialized : t'.specialized = t.specialized
  progress : t.progress ≠ .building → t'.progress = t.progress

/-- What can become of a family: its list of instances changes. -/
structure Family.Becomes (f f' : Family) : Prop where
  name : f'.name = f.name
  style : f'.style = f.style
  bits : f'.bits = f.bits
  supertype : f'.supertype = f.supertype
  paramNames : f'.paramNames = f.paramNames
  variadic : f'.variadic = f.variadic
  template : f'.template = f.template

theorem Datatype.Becomes.refl (t : Datatype) : t.Becomes t :=
  ⟨rfl, rfl, rfl, fun _ => rfl⟩

theorem Datatype.Becomes.trans {t t' t'' : Datatype} (h : t.Becomes t') (h' : t'.Becomes t'') :
    t.Becomes t'' where
  family := h'.family.trans h.family
  params := h'.params.trans h.params
  specialized := h'.specialized.trans h.specialized
  progress ht := by
    have ht' := h.progress ht
    rw [← ht'] at ht
    exact (h'.progress ht).trans ht'

theorem Family.Becomes.refl (f : Family) : f.Becomes f :=
  ⟨rfl, rfl, rfl, rfl, rfl, rfl, rfl⟩

theorem Family.becomes_relisted (f : Family) (instances : List (List TypeId × TypeId)) :
    f.Becomes { f with instances } :=
  ⟨rfl, rfl, rfl, rfl, rfl, rfl, rfl⟩

theorem Family.Becomes.trans {f f' f'' : Family} (h : f.Becomes f') (h' : f'.Becomes f'') :
    f.Becomes f'' where
  name := h'.name.trans h.name
  style := h'.style.trans h.style
  bits := h'.bits.trans h.bits
  supertype := h'.supertype.trans h.supertype
  paramNames := h'.paramNames.trans h.paramNames
  variadic := h'.variadic.trans h.variadic
  template := h'.template.trans h.template

/-- The name of the only family of a style, for the styles that only built-in families
have. -/
def Style.reserved? : Style → Option String
  | .tuple => some "Tuple"
  | .union => some "Union"
  | .method => some "Fn"
  | .slice => some "Slice"
  | .integer | .floating | .object => none

namespace Registry

variable {r r' r'' : Registry} {id : TypeId} {k : FamilyId}

/-! ## Access -/

theorem entry_eq_ok_iff {t : Datatype} {f : Family} :
    r.entry id = .ok (t, f) ↔ r.types[id]? = some t ∧ r.families[t.family]? = some f := by
  unfold entry get
  cases ht : r.types[id]? with
  | none => simp
  | some t' =>
    cases hf : r.families[t'.family]? with
    | none =>
      suffices t' = t → r.families[t.family]? ≠ some f by simpa [hf]
      rintro rfl
      simp [hf]
    | some f' =>
      suffices t' = t → (f' = f ↔ r.families[t.family]? = some f) by simpa [hf]
      rintro rfl
      simp [hf]

theorem lt_size {t : Datatype} (h : r.types[id]? = some t) : id < r.size :=
  (Array.getElem?_eq_some_iff.1 h).1

theorem exists_type (h : id < r.size) : ∃ t, r.types[id]? = some t :=
  ⟨_, Array.getElem?_eq_getElem h⟩

/-- The registry has all of these types. -/
def Has (r : Registry) (ids : List TypeId) : Prop :=
  ∀ id ∈ ids, id < r.size

instance (r : Registry) (ids : List TypeId) : Decidable (r.Has ids) :=
  inferInstanceAs (Decidable (∀ id ∈ ids, id < r.size))

theorem has_nil (r : Registry) : r.Has [] :=
  List.forall_mem_nil _

theorem has_cons {ids : List TypeId} : r.Has (id :: ids) ↔ id < r.size ∧ r.Has ids :=
  List.forall_mem_cons

theorem has_append {ids ids' : List TypeId} : r.Has (ids ++ ids') ↔ r.Has ids ∧ r.Has ids' :=
  List.forall_mem_append

/-- The type is an instance of which the fields are still being filled in. -/
def Building (r : Registry) (id : TypeId) : Prop :=
  ∃ t, r.types[id]? = some t ∧ t.progress = .building

/-- The type is an instance that could not be completed. -/
def Withdrawn (r : Registry) (id : TypeId) : Prop :=
  ∃ t, r.types[id]? = some t ∧ t.progress = .failed

/-! ## Changes -/

/-- What is checked before a type is declared. Only the first type is its own
supertype, and some styles are reserved for built-in families. -/
structure Declaration.Allowed (d : Declaration) (r : Registry) : Prop where
  name_new : r.names.get? d.name = none
  supertype_first : d.supertype = none → r.size = 0
  supertype_known : ∀ s ∈ d.supertype, s < r.size
  reserved : ∀ name ∈ d.style.reserved?, d.name = name

/-- The ways in which a registry changes. -/
inductive Step (r : Registry) : Registry → Prop
  | declare {d : Declaration} (allowed : d.Allowed r) : Step r (r.declare d)
  | setField {id : TypeId} {owner : Datatype} {family : Family} {name : String} {ty : FieldTy}
      (entry : r.entry id = .ok (owner, family)) (style : family.style = .object)
      (checked : r.checkFieldTy owner family ty = .ok ())
      (known : r.Has (namedTypes ty)) :
      Step r (r.modifyType id fun t => { t with fields := putField name ty t.fields })
  | enlist {generic : TypeId} {template : Datatype} {family : Family} {params : List TypeId}
      (entry : r.entry generic = .ok (template, family)) (generic : template.specialized = false)
      (arity : family.wrongArity? params.length = none) (unlisted : family.instance? params = none)
      (known : r.Has params) : Step r (r.enlist template.family params).2
  | settle {id : TypeId} {fields : List (String × TypeId)} (building : r.Building id)
      (distinct : (fields.map Prod.fst).Nodup) (known : r.Has (fields.map Prod.snd)) :
      Step r (r.settle id fields)
  | withdraw {id : TypeId} {t : Datatype} (type : r.types[id]? = some t)
      (building : t.progress = .building) : Step r (r.withdraw t.family id)
  | setLayout {id : TypeId} {layout : Layout} :
      Step r (r.modifyType id fun t => { t with layout := some layout })

abbrev Steps : Registry → Registry → Prop :=
  Relation.ReflTransGen Step

theorem mem_putField {name : String} {ty : FieldTy} {fields : List Field} {field : Field}
    (h : field ∈ putField name ty fields) : field = ⟨name, ty⟩ ∨ field ∈ fields := by
  induction fields with
  | nil => simpa [putField] using h
  | cons f rest ih =>
    unfold putField at h
    split at h
    · rcases List.mem_cons.1 h with rfl | h
      · exact .inl rfl
      · exact .inr (List.mem_cons_of_mem _ h)
    · rcases List.mem_cons.1 h with rfl | h
      · exact .inr List.mem_cons_self
      · exact (ih h).imp_right (List.mem_cons_of_mem _)

/-- A field that is put under a name that is taken changes no name. -/
theorem names_putField (name : String) (ty : FieldTy) (fields : List Field) :
    (putField name ty fields).map Field.name =
      if name ∈ fields.map Field.name then fields.map Field.name
      else fields.map Field.name ++ [name] := by
  induction fields with
  | nil => simp [putField]
  | cons f rest ih =>
    unfold putField
    by_cases hname : f.name = name
    · simp [hname]
    · rw [if_neg hname, List.map_cons, ih]
      by_cases hmem : name ∈ rest.map Field.name
      · simp [hmem]
      · simp [hmem, Ne.symm hname]

theorem nodup_putField {name : String} {ty : FieldTy} {fields : List Field}
    (h : (fields.map Field.name).Nodup) : ((putField name ty fields).map Field.name).Nodup := by
  rw [names_putField]
  split
  · exact h
  · next hnew => exact List.nodup_append.2 ⟨h, by simp, fun a ha b hb => by
      obtain rfl := List.mem_singleton.1 hb
      exact fun heq => hnew (heq ▸ ha)⟩

/-- The type is an instance of the family, for the given parameters. A type that
is declared without parameters counts as the instance for none. -/
def IsInstance (r : Registry) (k : FamilyId) (params : List TypeId) (id : TypeId) : Prop :=
  ∃ t, r.types[id]? = some t ∧ t.family = k ∧ t.params = params ∧ t.specialized = true

/-- What can become of a type in one change. Fields that are new have types of the
registry, and the names of the fields stay distinct. -/
structure Alters (r : Registry) (t t' : Datatype) : Prop where
  becomes : t.Becomes t'
  known : ∀ field ∈ t'.fields, field ∈ t.fields ∨ r.Has (namedTypes field.ty)
  distinct : (t.fields.map Field.name).Nodup → (t'.fields.map Field.name).Nodup

theorem alters_refl (r : Registry) (t : Datatype) : r.Alters t t :=
  ⟨.refl t, fun _ hfield => .inl hfield, fun hfields => hfields⟩

theorem families_modifyFamily {change : Family → Family} {f : Family}
    (hf : r.families[k]? = some f) : (r.modifyFamily k change).families[k]? = some (change f) := by
  unfold modifyFamily
  rw [Array.getElem?_modify, if_pos rfl, hf]
  rfl

/-- What is known of a type that a change adds. It is declared together with its family,
or it is an instance of a template. -/
structure Adds (r r' : Registry) (t : Datatype) : Prop where
  fields : t.fields = []
  params : r.Has t.params
  family : t.family < r'.families.size
  origin : (∃ f, r'.families[t.family]? = some f ∧ f.template = r.size ∧ t.params = [] ∧
      t.specialized = !f.isGeneric) ∨
    t.specialized = true ∧ (∃ generic g f, r.entry generic = .ok (g, f) ∧ t.family = g.family ∧
      g.specialized = false ∧ f.wrongArity? t.params.length = none) ∧
      ∃ f', r'.families[t.family]? = some f' ∧ (t.params, r.size) ∈ f'.instances

theorem types_modifyType (r : Registry) (i : TypeId) (change : Datatype → Datatype)
    (id : TypeId) : (r.modifyType i change).types[id]? =
      if i = id then r.types[id]?.map change else r.types[id]? :=
  Array.getElem?_modify

/-- Where a type is changed in place, all others stay as they are. -/
theorem type_of_modifyType {i : TypeId} {change : Datatype → Datatype} {t' : Datatype}
    (ht' : (r.modifyType i change).types[id]? = some t') :
    id ≠ i ∧ r.types[id]? = some t' ∨
      id = i ∧ ∃ t, r.types[id]? = some t ∧ t' = change t := by
  rw [types_modifyType] at ht'
  split at ht'
  · next hi =>
    obtain ⟨t, ht, rfl⟩ := Option.map_eq_some_iff.1 ht'
    exact .inr ⟨hi.symm, t, ht, rfl⟩
  · next hi => exact .inl ⟨Ne.symm hi, ht'⟩

theorem alters_of_modifyType {i : TypeId} {change : Datatype → Datatype} {t' : Datatype}
    (ht' : (r.modifyType i change).types[id]? = some t')
    (hchange : ∀ t, r.types[i]? = some t → r.Alters t (change t)) :
    ∃ t, r.types[id]? = some t ∧ r.Alters t t' := by
  rcases type_of_modifyType ht' with ⟨-, ht⟩ | ⟨rfl, t, ht, rfl⟩
  · exact ⟨t', ht, r.alters_refl t'⟩
  · exact ⟨t, ht, hchange t ht⟩

/-- A type was there before the change, or it is new. -/
theorem Step.type_cases {t' : Datatype} (h : Step r r') (ht' : r'.types[id]? = some t') :
    (∃ t, r.types[id]? = some t ∧ r.Alters t t') ∨ id = r.size ∧ r.Adds r' t' := by
  cases h with
  | declare allowed =>
    replace ht' := (Array.getElem?_push ▸ ht' :)
    split at ht'
    · next hid =>
      cases ht'
      exact .inr ⟨hid, rfl, r.has_nil, by simp [Registry.declare],
        .inl ⟨_, Array.getElem?_push_size, rfl, rfl, rfl⟩⟩
    · exact .inl ⟨t', ht', r.alters_refl t'⟩
  | enlist entry generic arity unlisted known =>
    replace ht' := (Array.getElem?_push ▸ ht' :)
    split at ht'
    · next hid =>
      cases ht'
      have hfamily := (entry_eq_ok_iff.1 entry).2
      have hlt := (Array.getElem?_eq_some_iff.1 hfamily).1
      refine .inr ⟨hid, rfl, known, by simpa [Registry.enlist, modifyFamily] using hlt, .inr ?_⟩
      refine ⟨rfl, ⟨_, _, _, entry, rfl, generic, arity⟩, _, families_modifyFamily hfamily, ?_⟩
      exact List.mem_append_right _ List.mem_cons_self
    · exact .inl ⟨t', ht', r.alters_refl t'⟩
  | setField entry style checked known =>
    refine .inl (alters_of_modifyType ht' fun t _ => ⟨⟨rfl, rfl, rfl, fun _ => rfl⟩, ?_, ?_⟩)
    · intro field hfield
      rcases mem_putField hfield with rfl | hfield
      · exact .inr known
      · exact .inl hfield
    · exact nodup_putField
  | settle building distinct known =>
    obtain ⟨t₀, ht₀, hprogress⟩ := building
    refine .inl (alters_of_modifyType ht' fun t ht => ⟨⟨rfl, rfl, rfl, fun hne => ?_⟩, ?_, ?_⟩)
    · obtain rfl := Option.some.inj (ht.symm.trans ht₀)
      exact absurd hprogress hne
    · intro field hfield
      obtain ⟨f, hf, rfl⟩ := List.mem_map.1 hfield
      have hknown := known f.2 (List.mem_map_of_mem hf)
      exact .inr (by simpa [namedTypes, has_cons, has_nil] using hknown)
    · intro _
      simpa [Function.comp_def] using distinct
  | withdraw type building =>
    refine .inl (alters_of_modifyType ht' fun t ht =>
      ⟨⟨rfl, rfl, rfl, fun hne => ?_⟩, ?_, fun hfields => hfields⟩)
    · obtain rfl := Option.some.inj (ht.symm.trans type)
      exact absurd building hne
    · exact fun field hfield => .inl hfield
  | setLayout =>
    refine .inl (alters_of_modifyType ht' fun t _ =>
      ⟨⟨rfl, rfl, rfl, fun _ => rfl⟩, ?_, fun hfields => hfields⟩)
    exact fun field hfield => .inl hfield

theorem family_of_modifyFamily {i : FamilyId} {change : Family → Family} {f' : Family}
    (hf' : (r.modifyFamily i change).families[k]? = some f') :
    k ≠ i ∧ r.families[k]? = some f' ∨
      k = i ∧ ∃ f, r.families[k]? = some f ∧ f' = change f := by
  replace hf' : (if i = k then r.families[k]?.map change else r.families[k]?) = some f' := by
    rw [← hf']
    exact Array.getElem?_modify.symm
  split at hf'
  · next hi =>
    obtain ⟨f, hf, rfl⟩ := Option.map_eq_some_iff.1 hf'
    exact .inr ⟨hi.symm, f, hf, rfl⟩
  · next hi => exact .inl ⟨Ne.symm hi, hf'⟩

/-- What is known of a family that a change adds, together with its declared type. -/
structure Founds (r r' : Registry) (f : Family) : Prop where
  instances : f.instances = []
  reserved : ∀ name ∈ f.style.reserved?, f.name = name
  template : f.template = r.size
  supertype : f.supertype < r.size ∨ r.size = 0 ∧ f.supertype = r.size
  name : r'.names.get? f.name = some r.size
  type : ∃ t, r'.types[r.size]? = some t ∧ t.family = r.families.size ∧ t.params = [] ∧
    t.specialized = !f.isGeneric

/-- What can become of a family in one change that leads to the registry. An instance
that is new on its list is a type under construction with these parameters; one that is
no longer on it is withdrawn. -/
structure Relists (r' : Registry) (k : FamilyId) (f f' : Family) : Prop where
  becomes : f.Becomes f'
  new : ∀ p ∈ f'.instances, p ∈ f.instances ∨ r'.IsInstance k p.1 p.2 ∧ r'.Building p.2
  kept : ∀ p ∈ f.instances, p ∈ f'.instances ∨ r'.Withdrawn p.2
  distinct : (f.instances.map Prod.fst).Nodup → (f'.instances.map Prod.fst).Nodup

theorem relists_refl (r' : Registry) (k : FamilyId) (f : Family) : r'.Relists k f f :=
  ⟨.refl f, fun _ hp => .inl hp, fun _ hp => .inl hp, fun hkeys => hkeys⟩

theorem not_mem_keys_of_unlisted {f : Family} {params : List TypeId}
    (h : f.instance? params = none) : params ∉ f.instances.map Prod.fst := by
  intro hmem
  obtain ⟨p, hp, rfl⟩ := List.mem_map.1 hmem
  have hne := List.lookup_eq_none_iff.1 h p hp
  simp at hne

/-- A family was there before the change, or it is new. -/
theorem Step.family_cases {f' : Family} (h : Step r r') (hf' : r'.families[k]? = some f') :
    (∃ f, r.families[k]? = some f ∧ r'.Relists k f f') ∨
      k = r.families.size ∧ r.Founds r' f' := by
  cases h with
  | @declare d allowed =>
    replace hf' := (Array.getElem?_push ▸ hf' :)
    split at hf'
    · next hk =>
      cases hf'
      have hsupertype : d.supertype.getD r.size < r.size ∨
          r.size = 0 ∧ d.supertype.getD r.size = r.size := by
        cases hd : d.supertype with
        | none => exact .inr ⟨allowed.supertype_first hd, rfl⟩
        | some s => exact .inl (allowed.supertype_known s hd)
      exact .inr ⟨hk, rfl, allowed.reserved, rfl, hsupertype, Assoc.get?_insert_self _ _ _, _,
        Array.getElem?_push_size, rfl, rfl, rfl⟩
    · exact .inl ⟨f', hf', relists_refl _ k f'⟩
  | enlist entry generic arity unlisted known =>
    rcases family_of_modifyFamily hf' with ⟨-, hf⟩ | ⟨rfl, f, hf, rfl⟩
    · exact .inl ⟨f', hf, relists_refl _ k f'⟩
    · obtain rfl := Option.some.inj (hf.symm.trans (entry_eq_ok_iff.1 entry).2)
      refine .inl ⟨f, hf, f.becomes_relisted _, fun p hp => ?_, fun p hp => ?_, fun hkeys => ?_⟩
      · rcases List.mem_append.1 hp with hp | hp
        · exact .inl hp
        · obtain rfl := List.mem_singleton.1 hp
          exact .inr ⟨⟨_, Array.getElem?_push_size, rfl, rfl, rfl⟩, _,
            Array.getElem?_push_size, rfl⟩
      · exact .inl (List.mem_append_left _ hp)
      · have hnew := not_mem_keys_of_unlisted unlisted
        rw [List.map_append, List.nodup_append]
        refine ⟨hkeys, by simp, fun key hkey new hmem heq => hnew ?_⟩
        obtain rfl := List.mem_singleton.1 hmem
        exact heq ▸ hkey
  | @withdraw id t type building =>
    rcases family_of_modifyFamily hf' with ⟨-, hf⟩ | ⟨rfl, f, hf, rfl⟩
    · exact .inl ⟨f', hf, relists_refl _ k f'⟩
    · refine .inl ⟨f, hf, f.becomes_relisted _, fun p hp => ?_, fun p hp => ?_, fun hkeys => ?_⟩
      · exact .inl (List.mem_filter.1 hp).1
      · by_cases hid : p.2 = id
        · refine .inr ⟨{ t with progress := .failed }, ?_, rfl⟩
          unfold Registry.withdraw
          rw [types_modifyType, hid, if_pos rfl]
          show Option.map _ r.types[id]? = _
          rw [type]
          rfl
        · exact .inl (List.mem_filter.2 ⟨hp, by simpa using hid⟩)
      · exact hkeys.sublist (List.filter_sublist.map Prod.fst)
  | setField | settle | setLayout => exact .inl ⟨f', hf', relists_refl _ k f'⟩

/-- A name was there before the change, or it is that of the declared type. -/
theorem Step.name_cases {name : String} (h : Step r r') (hname : r'.names.get? name = some id) :
    r.names.get? name = some id ∨
      ∃ t f, r'.entry id = .ok (t, f) ∧ f.name = name ∧ t.params = [] ∧ f.template = id := by
  cases h with
  | @declare d allowed =>
    replace hname := (Assoc.get?_insert r.names d.name name r.size ▸ hname :)
    split at hname
    · next heq =>
      cases hname
      refine .inr ⟨_, _, entry_eq_ok_iff.2 ⟨Array.getElem?_push_size, Array.getElem?_push_size⟩, ?_⟩
      exact ⟨heq, rfl, rfl⟩
    · exact .inl hname
  | setField | enlist | settle | withdraw | setLayout => exact .inl hname

/-! ## Instances under construction -/

/-- A change of a type that has nothing to do with its construction. -/
theorem building_modifyType {i : TypeId} {change : Datatype → Datatype}
    (hchange : ∀ t : Datatype, (change t).progress = t.progress) :
    (r.modifyType i change).Building id ↔ r.Building id := by
  unfold Building
  rw [types_modifyType]
  split
  · cases r.types[id]? <;> simp [hchange]
  · exact Iff.rfl

/-- A change of a type that ends its construction. -/
theorem building_modifyType_end {i : TypeId} {change : Datatype → Datatype}
    (hchange : ∀ t : Datatype, (change t).progress ≠ .building) :
    (r.modifyType i change).Building id ↔ r.Building id ∧ id ≠ i := by
  unfold Building
  rw [types_modifyType]
  by_cases hi : i = id
  · rw [if_pos hi]
    cases r.types[id]? <;> simp [hchange, hi]
  · simp [hi, Ne.symm hi]

theorem building_settle {i : TypeId} {fields : List (String × TypeId)} :
    (r.settle i fields).Building id ↔ r.Building id ∧ id ≠ i :=
  building_modifyType_end fun _ => nofun

theorem building_withdraw {i : TypeId} :
    (r.withdraw k i).Building id ↔ r.Building id ∧ id ≠ i :=
  building_modifyType_end fun _ => nofun

theorem not_building_size (r : Registry) : ¬ r.Building r.size := by
  rintro ⟨t, ht, -⟩
  exact absurd (lt_size ht) (Nat.lt_irrefl _)

theorem building_declare {d : Declaration} : (r.declare d).Building id ↔ r.Building id := by
  unfold Building Registry.declare
  rw [Array.getElem?_push]
  split
  · next hid =>
    rw [hid, Array.getElem?_size]
    simp
  · exact Iff.rfl

theorem building_enlist {params : List TypeId} :
    (r.enlist k params).2.Building id ↔ r.Building id ∨ id = r.size := by
  unfold Building Registry.enlist
  rw [Array.getElem?_push]
  by_cases hid : id = r.types.size
  · simp [hid, modifyFamily, size]
  · simp [hid, modifyFamily, size]

theorem Building.not_withdrawn (h : r.Building id) : ¬ r.Withdrawn id := by
  obtain ⟨t, ht, hbuilding⟩ := h
  rintro ⟨t', ht', hfailed⟩
  obtain rfl := Option.some.inj (ht.symm.trans ht')
  rw [hbuilding] at hfailed
  cases hfailed

/-- A withdrawn type was withdrawn before, or it was under construction and the change
withdraws it. -/
theorem Step.withdrawn_cases (h : Step r r') (hid : r'.Withdrawn id) :
    r.Withdrawn id ∨
      ∃ t, r.types[id]? = some t ∧ t.progress = .building ∧ r' = r.withdraw t.family id := by
  obtain ⟨t', ht', hfailed⟩ := hid
  cases h with
  | declare | enlist =>
    replace ht' := (Array.getElem?_push ▸ ht' :)
    split at ht'
    · cases ht'
      cases hfailed
    · exact .inl ⟨t', ht', hfailed⟩
  | setField | setLayout =>
    rcases type_of_modifyType ht' with ⟨-, ht⟩ | ⟨rfl, t, ht, rfl⟩
    · exact .inl ⟨t', ht, hfailed⟩
    · exact .inl ⟨t, ht, hfailed⟩
  | settle =>
    rcases type_of_modifyType ht' with ⟨-, ht⟩ | ⟨rfl, t, ht, rfl⟩
    · exact .inl ⟨t', ht, hfailed⟩
    · cases hfailed
  | withdraw type building =>
    rcases type_of_modifyType ht' with ⟨-, ht⟩ | ⟨rfl, t, ht, rfl⟩
    · exact .inl ⟨t', ht, hfailed⟩
    · exact .inr ⟨_, type, building, rfl⟩

/-! ## Extension -/

/-- The second registry has all that the first one has. -/
structure Extends (r r' : Registry) : Prop where
  type : ∀ {id : TypeId} {t : Datatype}, r.types[id]? = some t →
    ∃ t', r'.types[id]? = some t' ∧ t.Becomes t'
  family : ∀ {k : FamilyId} {f : Family}, r.families[k]? = some f →
    ∃ f', r'.families[k]? = some f' ∧ f.Becomes f'
  name : ∀ {name id}, r.names.get? name = some id → r'.names.get? name = some id

theorem Extends.refl (r : Registry) : r.Extends r where
  type ht := ⟨_, ht, .refl _⟩
  family hf := ⟨_, hf, .refl _⟩
  name hname := hname

theorem Extends.trans (h : r.Extends r') (h' : r'.Extends r'') : r.Extends r'' where
  type ht := by
    obtain ⟨t', ht', hbecomes⟩ := h.type ht
    obtain ⟨t'', ht'', hbecomes'⟩ := h'.type ht'
    exact ⟨t'', ht'', hbecomes.trans hbecomes'⟩
  family hf := by
    obtain ⟨f', hf', hbecomes⟩ := h.family hf
    obtain ⟨f'', hf'', hbecomes'⟩ := h'.family hf'
    exact ⟨f'', hf'', hbecomes.trans hbecomes'⟩
  name hname := h'.name (h.name hname)

theorem Extends.lt_size (h : r.Extends r') (hid : id < r.size) : id < r'.size := by
  obtain ⟨t, ht⟩ := exists_type hid
  obtain ⟨t', ht', -⟩ := h.type ht
  exact Registry.lt_size ht'

theorem Extends.has {ids : List TypeId} (h : r.Extends r') (hids : r.Has ids) : r'.Has ids :=
  fun id hid => h.lt_size (hids id hid)

theorem Extends.entry {t : Datatype} {f : Family} (h : r.Extends r')
    (hentry : r.entry id = .ok (t, f)) :
    ∃ t' f', r'.entry id = .ok (t', f') ∧ t.Becomes t' ∧ f.Becomes f' := by
  obtain ⟨ht, hf⟩ := entry_eq_ok_iff.1 hentry
  obtain ⟨t', ht', hbecomes⟩ := h.type ht
  obtain ⟨f', hf', hbecomes'⟩ := h.family hf
  exact ⟨t', f', entry_eq_ok_iff.2 ⟨ht', hbecomes.family ▸ hf'⟩, hbecomes, hbecomes'⟩

theorem Extends.isInstance {params : List TypeId} (h : r.Extends r')
    (hinstance : r.IsInstance k params id) : r'.IsInstance k params id := by
  obtain ⟨t, ht, rfl, rfl, hspecialized⟩ := hinstance
  obtain ⟨t', ht', hbecomes⟩ := h.type ht
  exact ⟨t', ht', hbecomes.family, hbecomes.params, hbecomes.specialized.trans hspecialized⟩

theorem Step.size_le (h : Step r r') : r.size ≤ r'.size := by
  cases h <;>
    simp [size, Registry.declare, Registry.enlist, Registry.settle, Registry.withdraw, modifyType,
      modifyFamily]

theorem Step.families_size_le (h : Step r r') : r.families.size ≤ r'.families.size := by
  cases h <;>
    simp [Registry.declare, Registry.enlist, Registry.settle, Registry.withdraw, modifyType,
      modifyFamily]

theorem Step.extends (h : Step r r') : r.Extends r' where
  type ht := by
    have hlt := Registry.lt_size ht
    obtain ⟨t', ht'⟩ := exists_type (Nat.lt_of_lt_of_le hlt h.size_le)
    rcases h.type_cases ht' with ⟨t, ht₀, halters⟩ | ⟨rfl, -⟩
    · obtain rfl := Option.some.inj (ht.symm.trans ht₀)
      exact ⟨t', ht', halters.becomes⟩
    · exact absurd hlt (Nat.lt_irrefl _)
  family hf := by
    have hlt := (Array.getElem?_eq_some_iff.1 hf).1
    have hf' := Array.getElem?_eq_getElem (Nat.lt_of_lt_of_le hlt h.families_size_le)
    rcases h.family_cases hf' with ⟨f, hf₀, hrelists⟩ | ⟨rfl, -⟩
    · obtain rfl := Option.some.inj (hf.symm.trans hf₀)
      exact ⟨_, hf', hrelists.becomes⟩
    · exact absurd hlt (Nat.lt_irrefl _)
  name hname := by
    cases h with
    | declare allowed => exact Assoc.get?_insert_of_unknown allowed.name_new hname
    | setField | enlist | settle | withdraw | setLayout => exact hname

theorem Steps.extends (h : r.Steps r') : r.Extends r' := by
  induction h with
  | refl => exact .refl r
  | tail _ hstep ih => exact ih.trans hstep.extends

/-! ## Well-formed registries -/

/-- The numbers of a registry lead somewhere. -/
structure WellFormed (r : Registry) : Prop where
  family_known : ∀ {id : TypeId} {t : Datatype}, r.types[id]? = some t →
    t.family < r.families.size
  params_older : ∀ {id : TypeId} {t : Datatype}, r.types[id]? = some t → ∀ p ∈ t.params, p < id
  fields_known : ∀ {id : TypeId} {t : Datatype}, r.types[id]? = some t →
    ∀ field ∈ t.fields, r.Has (namedTypes field.ty)
  fields_distinct : ∀ {id : TypeId} {t : Datatype}, r.types[id]? = some t →
    (t.fields.map Field.name).Nodup
  instances : ∀ {k : FamilyId} {f : Family}, r.families[k]? = some f →
    ∀ p ∈ f.instances, r.IsInstance k p.1 p.2
  instances_kept : ∀ {k : FamilyId} {f : Family}, r.families[k]? = some f →
    ∀ p ∈ f.instances, ¬ r.Withdrawn p.2
  instances_distinct : ∀ {k : FamilyId} {f : Family}, r.families[k]? = some f →
    (f.instances.map Prod.fst).Nodup
  name : ∀ {name id}, r.names.get? name = some id →
    ∃ t f, r.entry id = .ok (t, f) ∧ f.name = name ∧ t.params = []
  reserved : ∀ {k : FamilyId} {f : Family}, r.families[k]? = some f →
    ∀ name ∈ f.style.reserved?, f.name = name

theorem WellFormed.exists_entry (hr : r.WellFormed) (hid : id < r.size) :
    ∃ t f, r.entry id = .ok (t, f) := by
  obtain ⟨t, ht⟩ := exists_type hid
  exact ⟨t, _, entry_eq_ok_iff.2 ⟨ht, Array.getElem?_eq_getElem (hr.family_known ht)⟩⟩

theorem mem_instances {f : Family} {params : List TypeId} (h : f.instance? params = some id) :
    (params, id) ∈ f.instances := by
  obtain ⟨before, after, hsplit, -⟩ := List.lookup_eq_some_iff.1 h
  simp [hsplit]

/-- An instance that is found has the parameters that were asked for. -/
theorem WellFormed.isInstance_of_listed {f : Family} {params : List TypeId} (hr : r.WellFormed)
    (hf : r.families[k]? = some f) (h : f.instance? params = some id) :
    r.IsInstance k params id :=
  hr.instances hf (params, id) (mem_instances h)

theorem WellFormed.not_withdrawn_of_listed {f : Family} {params : List TypeId} (hr : r.WellFormed)
    (hf : r.families[k]? = some f) (h : f.instance? params = some id) : ¬ r.Withdrawn id :=
  hr.instances_kept hf (params, id) (mem_instances h)

theorem Step.instances_kept (h : Step r r') (hr : r.WellFormed) {f' : Family}
    (hf' : r'.families[k]? = some f') {p : List TypeId × TypeId} (hp : p ∈ f'.instances) :
    ¬ r'.Withdrawn p.2 := by
  intro hwithdrawn
  rcases h.withdrawn_cases hwithdrawn with hbefore | ⟨t, ht, hprogress, rfl⟩
  · rcases h.family_cases hf' with ⟨f, hf, hrelists⟩ | ⟨-, hfounds⟩
    · rcases hrelists.new p hp with hp | ⟨-, hbuilding⟩
      · exact hr.instances_kept hf p hp hbefore
      · exact hbuilding.not_withdrawn hwithdrawn
    · rw [hfounds.instances] at hp
      exact nomatch hp
  · -- The instance is taken off the list of its own family, and on no other list.
    rcases family_of_modifyFamily hf' with ⟨hk, hf⟩ | ⟨rfl, f, hf, rfl⟩
    · obtain ⟨u, hu, hfamily, -⟩ := hr.instances hf p hp
      obtain rfl := Option.some.inj (ht.symm.trans hu)
      exact hk hfamily.symm
    · have hne := (List.mem_filter.1 hp).2
      simp at hne

theorem Step.wellFormed (h : Step r r') (hr : r.WellFormed) : r'.WellFormed where
  family_known ht' := by
    rcases h.type_cases ht' with ⟨t, ht, halters⟩ | ⟨-, hadds⟩
    · rw [halters.becomes.family]
      exact Nat.lt_of_lt_of_le (hr.family_known ht) h.families_size_le
    · exact hadds.family
  params_older ht' := by
    rcases h.type_cases ht' with ⟨t, ht, halters⟩ | ⟨rfl, hadds⟩
    · rw [halters.becomes.params]
      exact hr.params_older ht
    · exact hadds.params
  fields_known ht' field hfield := by
    refine h.extends.has ?_
    rcases h.type_cases ht' with ⟨t, ht, halters⟩ | ⟨-, hadds⟩
    · rcases halters.known field hfield with hfield | hknown
      · exact hr.fields_known ht field hfield
      · exact hknown
    · rw [hadds.fields] at hfield
      exact nomatch hfield
  fields_distinct ht' := by
    rcases h.type_cases ht' with ⟨t, ht, halters⟩ | ⟨-, hadds⟩
    · exact halters.distinct (hr.fields_distinct ht)
    · rw [hadds.fields]
      exact List.nodup_nil
  instances hf' p hp := by
    rcases h.family_cases hf' with ⟨f, hf, hrelists⟩ | ⟨-, hfounds⟩
    · rcases hrelists.new p hp with hp | hp
      · exact h.extends.isInstance (hr.instances hf p hp)
      · exact hp.1
    · rw [hfounds.instances] at hp
      exact nomatch hp
  instances_kept hf' p hp := h.instances_kept hr hf' hp
  instances_distinct hf' := by
    rcases h.family_cases hf' with ⟨f, hf, hrelists⟩ | ⟨-, hfounds⟩
    · exact hrelists.distinct (hr.instances_distinct hf)
    · rw [hfounds.instances]
      exact List.nodup_nil
  name hname := by
    rcases h.name_cases hname with hname | ⟨t, f, hentry, hf, ht, -⟩
    · obtain ⟨t, f, hentry, hf, ht⟩ := hr.name hname
      obtain ⟨t', f', hentry', hbecomes, hbecomes'⟩ := h.extends.entry hentry
      exact ⟨t', f', hentry', hbecomes'.name.trans hf, hbecomes.params.trans ht⟩
    · exact ⟨t, f, hentry, hf, ht⟩
  reserved hf' := by
    rcases h.family_cases hf' with ⟨f, hf, hrelists⟩ | ⟨-, hfounds⟩
    · rw [hrelists.becomes.style, hrelists.becomes.name]
      exact hr.reserved hf
    · exact hfounds.reserved

theorem Steps.wellFormed (h : r.Steps r') (hr : r.WellFormed) : r'.WellFormed := by
  induction h with
  | refl => exact hr
  | tail _ hstep ih => exact hstep.wellFormed ih

end Registry

end TypeLayer
