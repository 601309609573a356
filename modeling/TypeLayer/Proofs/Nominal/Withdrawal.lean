import TypeLayer.Proofs.Nominal.Acceptance

/-!
# References to withdrawn instances

An instance that cannot be completed is withdrawn.  What was built for its fields in the
meantime is complete and stays on the lists of its families, also where it refers back to
the instance that was being built.  Such a reference leads nowhere (`Dangles`).

A reference back needs a recursive template: while an instance is being built, only the
instances of templates that its own template applies come into being, and they find it on a
list only if its template is among them.  `closed_apart` says so, and
`retires_specializeWithin` carries it through the nesting of instances.  Apart from
that, a new type refers to a withdrawn one only if the caller or a template did already
(`closed_unwithdrawn`).
-/

namespace TypeLayer

namespace Registry

/-- The types that the type of a field names or applies. -/
def mentions (ty : FieldTy) : List TypeId :=
  namedTypes ty ++ (applications ty).map Prod.fst

end Registry

/-- The type has the other one as a parameter, or in the type of a field. -/
def Datatype.Refers (t : Datatype) (x : TypeId) : Prop :=
  x ∈ t.params ∨ ∃ field ∈ t.fields, x ∈ Registry.mentions field.ty

instance (t : Datatype) (x : TypeId) : Decidable (t.Refers x) :=
  inferInstanceAs (Decidable (x ∈ t.params ∨ ∃ field ∈ t.fields, x ∈ Registry.mentions field.ty))

/-- A new instance refers to what it was made of. -/
theorem Datatype.Made.good_of_refers {t : Datatype} {good : TypeId → Prop} {x : TypeId}
    (h : t.Made good) (hx : t.Refers x) : good x := by
  rcases hx with hx | ⟨field, hfield, hx⟩
  · exact h.params x hx
  · obtain ⟨id, hty, hid⟩ := h.fields field hfield
    rw [hty] at hx
    obtain rfl : x = id := by
      simpa [Registry.mentions, Registry.namedTypes, Registry.applications] using hx
    exact hid

namespace Registry

open TypeLayer.Action

variable {r r' r'' : Registry} {id x generic : TypeId} {params given : List TypeId} {t : Datatype}
  {f : Family}

theorem WellFormed.refers_lt (hr : r.WellFormed) (ht : r.types[id]? = some t)
    (happlied : ∀ field ∈ t.fields, ∀ p ∈ applications field.ty, p.1 < r.size)
    (hx : t.Refers x) : x < r.size := by
  rcases hx with hx | ⟨field, hfield, hx⟩
  · exact Nat.lt_trans (hr.params_older ht x hx) (lt_size ht)
  · rcases List.mem_append.1 hx with hx | hx
    · exact hr.fields_known ht field hfield x hx
    · obtain ⟨p, hp, rfl⟩ := List.mem_map.1 hx
      exact happlied field hfield p hp

theorem WellFormed.refers_lt_of_made {good : TypeId → Prop} (hr : r.WellFormed)
    (ht : r.types[id]? = some t) (hmade : t.Made good) (hx : t.Refers x) : x < r.size := by
  refine hr.refers_lt ht (fun field hfield p hp => ?_) hx
  obtain ⟨id, hty, -⟩ := hmade.fields field hfield
  rw [hty] at hp
  cases hp

theorem Evolved.lt_size_of_mem_applications {field : Field} {p : TypeId × Nat}
    (hr : initial.Evolved r) (ht : r.types[id]? = some t) (hfield : field ∈ t.fields)
    (hp : p ∈ applications field.ty) : p.1 < r.size := by
  obtain ⟨_, f, hentry⟩ := hr.wellFormed.exists_entry (lt_size ht)
  obtain rfl := Option.some.inj (ht.symm.trans (entry_eq_ok_iff.1 hentry).1)
  obtain ⟨u, g, hentry', -⟩ := entry_of_mem_applications (hr.checked hentry field hfield) hp
  exact lt_size (entry_eq_ok_iff.1 hentry').1

/-- Of a type that there was before, growth changes nothing. -/
theorem Grown.withdrawn_iff {good : TypeId → Prop} (h : r.Grown good r') (hx : x < r.size) :
    r'.Withdrawn x ↔ r.Withdrawn x := by
  unfold Withdrawn
  rw [h.kept hx]

theorem not_withdrawn_of_le (h : r.size ≤ x) : ¬ r.Withdrawn x := by
  rintro ⟨t, ht, -⟩
  exact absurd (lt_size ht) (Nat.not_lt_of_le h)

/-! ## What is given and mentioned -/

/-- A field of a template names or applies the type. -/
def Mentions (r : Registry) (x : TypeId) : Prop :=
  ∃ (g : TypeId) (t : Datatype), r.types[g]? = some t ∧ t.specialized = false ∧
    ∃ field ∈ t.fields, x ∈ mentions field.ty

/-- Construction leads to a withdrawn type only if it is given or mentioned. -/
theorem closed_unwithdrawn (hr : r.WellFormed) (given : List TypeId) :
    r.Closed (fun x => r.Withdrawn x → x ∈ given ∨ r.Mentions x)
      fun x => r.Withdrawn x → x ∈ given ∨ r.Mentions x where
  new hid hwithdrawn := absurd hwithdrawn (not_withdrawn_of_le hid)
  self hg _ _ := hg
  listed _ hentry _ p hp hwithdrawn :=
    absurd hwithdrawn (hr.instances_kept (entry_eq_ok_iff.1 hentry).2 p hp)
  named {g t} _ ht hgeneric field hfield _ hid _ :=
    .inr ⟨g, t, ht, hgeneric, field, hfield, List.mem_append_left _ hid⟩
  applied {g t} _ ht hgeneric field hfield _ hp _ :=
    .inr ⟨g, t, ht, hgeneric, field, hfield, List.mem_append_right _ (List.mem_map_of_mem hp)⟩

/-! ## What refers back -/

/-- The template comes to apply itself. -/
def Recursive (r : Registry) (g : TypeId) : Prop :=
  Relation.TransGen r.Applies g g

/-- The type is an instance of a template that was recursive in the first registry. -/
def OfRecursive (r r' : Registry) (x : TypeId) : Prop :=
  ∃ (g : TypeId) (t t' : Datatype), r.types[g]? = some t ∧ r.Recursive g ∧
    r'.types[x]? = some t' ∧ t'.family = t.family

theorem Evolved.lt_size_of_applies {g h : TypeId} (hr : initial.Evolved r) (hg : r.Applies g h) :
    h < r.size := by
  obtain ⟨n, t, ht, -, field, hfield, hp⟩ := hg
  exact hr.lt_size_of_mem_applications ht hfield hp

theorem Evolved.lt_size_of_transGen {g h : TypeId} (hr : initial.Evolved r)
    (hg : Relation.TransGen r.Applies g h) : h < r.size := by
  cases hg with
  | single happlies => exact hr.lt_size_of_applies happlies
  | tail _ happlies => exact hr.lt_size_of_applies happlies

/-- Two templates of one family are the same. -/
theorem Founded.eq_of_family {g g' : TypeId} {t t' : Datatype} (hr : r.Founded)
    (hf : r.families[t.family]? = some f) (ht : r.types[g]? = some t)
    (ht' : r.types[g']? = some t') (hgeneric : t.specialized = false)
    (hgeneric' : t'.specialized = false) (hfamily : t'.family = t.family) : g' = g := by
  have hentry : r.entry g = .ok (t, f) := entry_eq_ok_iff.2 ⟨ht, hf⟩
  have hentry' : r.entry g' = .ok (t', f) := entry_eq_ok_iff.2 ⟨ht', hfamily ▸ hf⟩
  rw [(hr.isGeneric_of_template hentry hgeneric).1, (hr.isGeneric_of_template hentry' hgeneric').1]

theorem size_enlist (r : Registry) (k : FamilyId) (params : List TypeId) :
    (r.enlist k params).2.size = r.size + 1 := by
  simp [enlist, size, modifyFamily]

theorem size_enlist_le {k : FamilyId} (hid : r.size ≤ id) (hne : id ≠ r.size) :
    (r.enlist k params).2.size ≤ id := by
  rw [size_enlist]
  exact Nat.lt_of_le_of_ne hid (Ne.symm hne)

/-- What is built for a new instance leaves the instance as it was listed. -/
theorem Grown.type_enlisted {good : TypeId → Prop} {k : FamilyId}
    (h : (r.enlist k params).2.Grown good r') : r'.types[r.size]? = some
      { family := k, specialized := true, params, fields := [], layout := none,
        progress := .building } := by
  refine (h.kept ?_).trans Array.getElem?_push_size
  rw [size_enlist]
  exact Nat.lt_succ_self _

/-- If the template is not recursive, then nothing that is built for the fields of its
instance leads back to the instance. -/
theorem closed_apart (hr : initial.Evolved r) (hgrown : r.Grown (fun _ => True) r')
    (hwf : (r'.enlist t.family params).2.WellFormed) (hentry : r.entry generic = .ok (t, f))
    (hgeneric : t.specialized = false) (hrecursive : ¬ r.Recursive generic) :
    (r'.enlist t.family params).2.Closed (Relation.TransGen r.Applies generic) (· ≠ r'.size) := by
  obtain ⟨ht, hf⟩ := entry_eq_ok_iff.1 hentry
  have hlisted : r.Grown (fun _ => True) (r'.enlist t.family params).2 :=
    hgrown.trans (grown_enlist fun _ _ => trivial)
  have hold : ∀ {x : TypeId}, x < r.size → x ≠ r'.size :=
    fun hx => Nat.ne_of_lt (Nat.lt_of_lt_of_le hx hgrown.size_le)
  constructor
  case new =>
    intro id hid
    rw [size_enlist] at hid
    exact Nat.ne_of_gt hid
  case self =>
    intro g u hg _ _
    exact hold (hr.lt_size_of_transGen hg)
  case listed =>
    -- The instance is on the list of its own family only, and has the only template of it.
    intro g u f' hg hentry' hgeneric' p hp heq
    obtain ⟨hu, hf'⟩ := entry_eq_ok_iff.1 hentry'
    obtain ⟨v, hv, hfamily, -⟩ := hwf.instances hf' p hp
    rw [heq] at hv
    obtain rfl := Option.some.inj (hv.symm.trans Array.getElem?_push_size)
    have hsame := hr.founded.eq_of_family hf ht (hlisted.template hu hgeneric') hgeneric hgeneric'
      hfamily.symm
    rw [hsame] at hg
    exact hrecursive hg
  case named =>
    intro g u _ hu hgeneric' field hfield id hid
    exact hold (hr.wellFormed.fields_known (hlisted.template hu hgeneric') field hfield id hid)
  case applied =>
    intro g u hg hu hgeneric' field hfield p hp
    exact hg.tail ⟨p.2, u, hlisted.template hu hgeneric', hgeneric', field, hfield, hp⟩

theorem grown_apart {depth : Nat} {names : List String} (hr : initial.Evolved r)
    (hgrown : r.Grown (fun _ => True) r') (hwf : (r'.enlist t.family params).2.WellFormed)
    (hentry : r.entry generic = .ok (t, f)) (hgeneric : t.specialized = false)
    (hrecursive : ¬ r.Recursive generic) (hparams : r'.Has params)
    (h : (instanceFields (specializeWithin depth) names params t.fields
      (r'.enlist t.family params).2).state? = some r'') :
    (r'.enlist t.family params).2.Grown (· ≠ r'.size) r'' := by
  have ht := (entry_eq_ok_iff.1 hentry).1
  have hstays : Stays (specializeWithin depth) (r'.enlist t.family params).2
      (Relation.TransGen r.Applies generic) (· ≠ r'.size) :=
    stays_specializeWithin (closed_apart hr hgrown hwf hentry hgeneric hrecursive) depth
  have hparams : ∀ p ∈ params, p ≠ r'.size := fun p hp => Nat.ne_of_lt (hparams p hp)
  refine growth_state (Contract.meets_instanceFields (hstays.fills hparams) (.refl _ _)
    fun field hfield => ⟨fun id hid => ?_, fun p hp => ?_⟩) h
  · have hlt := hr.wellFormed.fields_known ht field hfield id hid
    exact Nat.ne_of_lt (Nat.lt_of_lt_of_le hlt hgrown.size_le)
  · exact .single ⟨p.2, t, ht, hgeneric, field, hfield, hp⟩

/-! ## Refused calls -/

/-- From the second registry to the third, references to withdrawn types have come up only
to types that were withdrawn before, and to instances that refer back. The first registry
has the templates. -/
def Strands (r₀ r r' : Registry) : Prop :=
  ∀ {id : TypeId} {t : Datatype} {x : TypeId}, r.size ≤ id → r'.types[id]? = some t →
    t.progress ≠ .failed → t.Refers x → r'.Withdrawn x →
      r.Withdrawn x ∨ r.size ≤ x ∧ x < id ∧ r₀.OfRecursive r' x

theorem strands_refl (r₀ r : Registry) : Strands r₀ r r :=
  fun hid ht => absurd (lt_size ht) (Nat.not_lt_of_le hid)

/-- Calls that withdraw nothing if they return, and leave only such references to withdrawn
types as lead back if they are refused. -/
def withdrawal (r : Registry) : Contract where
  relies r' := r.Grown (fun _ => True) r' ∧ r'.WellFormed
  moves r' r'' := r'.Grown (fun _ => True) r'' ∧ r''.WellFormed ∧
    ∀ x, r''.Withdrawn x → r'.Withdrawn x
  refuses r' _ r'' := r'.Grown (fun _ => True) r'' ∧ r.Strands r' r''
  faults _ := True
  refl {r'} hr := ⟨.refl r' _, hr.2, fun _ hx => hx⟩
  trans h h' := ⟨h.1.trans h'.1, h'.2.1, fun x hx => h.2.2 x (h'.2.2 x hx)⟩
  relies_of_moves hr h := ⟨hr.1.trans h.1, h.2.1⟩
  refuses_of_moves {r₁ r₂ r₃ e} h h' := by
    obtain ⟨hgrown, hwf, hkept⟩ := h
    obtain ⟨hgrown', hstrands⟩ := h'
    refine ⟨hgrown.trans hgrown', fun {id t x} hid ht hprogress hx hwithdrawn => ?_⟩
    by_cases hlt : id < r₂.size
    · -- What was there when the call was made can only refer to what was there.
      have ht₂ : r₂.types[id]? = some t := (hgrown'.kept hlt).symm.trans ht
      have hx₂ := hwf.refers_lt_of_made ht₂ (hgrown.made hid ht₂) hx
      exact .inl (hkept x ((hgrown'.withdrawn_iff hx₂).1 hwithdrawn))
    · rcases hstrands (Nat.le_of_not_lt hlt) ht hprogress hx hwithdrawn with hx | ⟨hle, hx⟩
      · exact .inl (hkept x hx)
      · exact .inr ⟨Nat.le_trans hgrown.size_le hle, hx⟩

theorem withdrawn_of_enlist {k : FamilyId} (h : (r.enlist k params).2.Withdrawn x) :
    r.Withdrawn x := by
  obtain ⟨t, ht, hfailed⟩ := h
  replace ht := (Array.getElem?_push ▸ ht :)
  split at ht
  · cases ht
    cases hfailed
  · exact ⟨t, ht, hfailed⟩

theorem withdrawn_of_settle {fields : List (String × TypeId)}
    (h : (r.settle id fields).Withdrawn x) : r.Withdrawn x := by
  obtain ⟨t, ht, hfailed⟩ := h
  rcases type_of_modifyType ht with ⟨-, ht⟩ | ⟨-, t, -, rfl⟩
  · exact ⟨t, ht, hfailed⟩
  · cases hfailed

theorem types_withdraw {k : FamilyId} (hne : x ≠ id) :
    (r.withdraw k id).types[x]? = r.types[x]? := by
  unfold withdraw
  rw [types_modifyType, if_neg (Ne.symm hne)]
  rfl

/-- When an instance is withdrawn, it is left behind only by what refers back to it. -/
theorem strands_withdraw (ht : r.types[generic]? = some t)
    (hgrown : (r'.enlist t.family params).2.Grown (fun _ => True) r'')
    (hstrands : r.Strands (r'.enlist t.family params).2 r'')
    (hapart : ¬ r.Recursive generic → (r'.enlist t.family params).2.Grown (· ≠ r'.size) r'') :
    r.Strands r' (r''.withdraw t.family r'.size) := by
  intro id u x hid hu hprogress hx hwithdrawn
  have hne : id ≠ r'.size := by
    rintro rfl
    rcases type_of_modifyType hu with ⟨hne, -⟩ | ⟨-, v, -, rfl⟩
    · exact hne rfl
    · exact hprogress rfl
  have hlt : r'.size < id := Nat.lt_of_le_of_ne hid (Ne.symm hne)
  have hle : (r'.enlist t.family params).2.size ≤ id := size_enlist_le hid hne
  rw [types_withdraw hne] at hu
  by_cases hself : x = r'.size
  · subst hself
    by_cases hrecursive : r.Recursive generic
    · obtain ⟨v, hv, -⟩ := hwithdrawn
      refine .inr ⟨Nat.le_refl _, hlt, generic, t, v, ht, hrecursive, hv, ?_⟩
      rcases type_of_modifyType hv with ⟨hne, -⟩ | ⟨-, v₀, hv₀, rfl⟩
      · exact absurd rfl hne
      · obtain rfl := Option.some.inj (hv₀.symm.trans hgrown.type_enlisted)
        rfl
    · exact absurd rfl (((hapart hrecursive).made hle hu).good_of_refers hx)
  · have hwithdrawn'' : r''.Withdrawn x := by
      unfold Withdrawn at hwithdrawn
      rwa [types_withdraw hself] at hwithdrawn
    rcases hstrands hle hu hprogress hx hwithdrawn'' with hbefore | ⟨hle', hlt', hback⟩
    · exact .inl (withdrawn_of_enlist hbefore)
    · rw [size_enlist] at hle'
      obtain ⟨g, v, v', hv, hrecursive, hv', hfamily⟩ := hback
      refine .inr ⟨Nat.le_of_succ_le hle', hlt', g, v, v', hv, hrecursive, ?_, hfamily⟩
      rw [types_withdraw hself]
      exact hv'

/-! ## Specialization -/

/-- A way to get instances leaves only such references to withdrawn types as lead back. -/
def Retires (apply : TypeId → List TypeId → Register TypeId) (r : Registry) : Prop :=
  ∀ {r' : Registry} {generic : TypeId} {params : List TypeId}, (withdrawal r).relies r' →
    r'.Has params → (withdrawal r).Meets r' (apply generic params) fun id r'' => id < r''.size

theorem Retires.fills {apply : TypeId → List TypeId → Register TypeId} {names : List String}
    (h : Retires apply r) :
    (withdrawal r).Fills apply names params (fun ty r' => r'.Has params ∧ r.Has (namedTypes ty))
      fun _ id r' => id < r'.size where
  fits hmoves hty := ⟨fun p hp => Nat.lt_of_lt_of_le (hty.1 p hp) hmoves.1.size_le, hty.2⟩
  kept hmoves hid := Nat.lt_of_lt_of_le hid hmoves.1.size_le
  concrete hr' hty := Nat.lt_of_lt_of_le (hty.2 _ List.mem_cons_self) hr'.1.size_le
  param _ hty _ hid := hty.1 _ (List.mem_of_getElem? hid)
  unknown {r' _} _ _ _ := ⟨.refl r' _, strands_refl r r'⟩
  missing _ _ _ := trivial
  args hty _ hmem := ⟨hty.1, fun id hid => hty.2 id (mem_namedTypes_apply hmem hid)⟩
  apply hr' _ hids := h hr' (forall_mem_of_forall₂ hids fun _ _ _ hid => hid)

theorem meets_withdrawal_build {depth : Nat} (happly : Retires (specializeWithin depth) r)
    (hr : initial.Evolved r) (hr' : (withdrawal r).relies r')
    (hentry : r'.entry generic = .ok (t, f)) (hgeneric : t.specialized = false)
    (harity : f.wrongArity? params.length = none) (hunlisted : f.instance? params = none)
    (hparams : r'.Has params) :
    (withdrawal r).Meets r' (build (specializeWithin depth) t f params)
      fun id r'' => id < r''.size := by
  obtain ⟨hgrown, hwf⟩ := hr'
  have hlist := Step.enlist hentry hgeneric harity hunlisted hparams
  have hwf₁ := hlist.wellFormed hwf
  have hlisted : r'.Grown (fun _ => True) (r'.enlist t.family params).2 :=
    grown_enlist fun _ _ => trivial
  have ht : r.types[generic]? = some t := hgrown.template (entry_eq_ok_iff.1 hentry).1 hgeneric
  obtain ⟨_, f₀, hentry₀⟩ := hr.wellFormed.exists_entry (lt_size ht)
  obtain rfl := Option.some.inj (ht.symm.trans (entry_eq_ok_iff.1 hentry₀).1)
  have hevolves : r'.Evolves (build (specializeWithin depth) t f params) _ :=
    evolves_build (supplies_specializeWithin depth) hwf hentry hgeneric harity hunlisted hparams
  refine Contract.meets_build (Contract.meets_instanceFields happly.fills
    ⟨hgrown.trans hlisted, hwf₁⟩ fun field hfield =>
      ⟨hlist.extends.has hparams, hr.wellFormed.fields_known ht field hfield⟩) ?_ ?_
  · intro fields r₁ hbuild hmoves _
    obtain ⟨hevolved, hspecializes, -⟩ := hevolves.ok hbuild
    refine ⟨⟨?_, hevolved.wellFormed, fun x hx => ?_⟩, hspecializes.lt_size⟩
    · exact Grown.settle (hlisted.trans hmoves.1) (Nat.le_refl _) fun _ _ => trivial
    · exact withdrawn_of_enlist (hmoves.2.2 x (withdrawn_of_settle hx))
  · intro e r₁ hrun hrefused
    refine ⟨Grown.withdraw (hlisted.trans hrefused.1) (Nat.le_refl _), ?_⟩
    refine strands_withdraw ht hrefused.1 hrefused.2 fun hrecursive => ?_
    exact grown_apart hr hgrown hwf₁ hentry₀ hgeneric hrecursive hparams (by rw [hrun]; rfl)

/-- The induction is on the nesting of instances. The entry that a call lists is withdrawn
after everything that was built for it, so that it is the last to be accounted for. -/
theorem retires_specializeWithin (hr : initial.Evolved r) (depth : Nat) :
    Retires (specializeWithin depth) r := by
  induction depth with
  | zero =>
    intro r' generic params _ _
    exact Contract.meets_specializeWithin_zero trivial
  | succ depth ih =>
    intro r' generic params hr' hparams
    have hrefused : ∀ e, (withdrawal r).refuses r' e r' :=
      fun _ => ⟨.refl r' _, strands_refl r r'⟩
    refine Contract.meets_specializeWithin_succ hr' (fun _ _ => trivial) ?_
      (fun _ _ _ _ _ => hrefused _) (fun _ _ _ _ _ _ => hrefused _) ?_ ?_
    · intro t f hentry _ _
      exact lt_size (entry_eq_ok_iff.1 hentry).1
    · intro t f id hentry _ _ hlisted
      obtain ⟨u, hu, -⟩ := hr'.2.isInstance_of_listed (entry_eq_ok_iff.1 hentry).2 hlisted
      exact lt_size hu
    · intro t f hentry hgeneric harity hunlisted
      exact meets_withdrawal_build ih hr hr' hentry hgeneric harity hunlisted hparams

theorem withdrawal_answers {scope : Assoc String TypeId} (hr : initial.Evolved r)
    (hscope : r.Has scope.values) :
    (withdrawal r).AnswersAlike scope (fun _ => True) fun id r' => id < r'.size where
  kept hmoves hid := Nat.lt_of_lt_of_le hid hmoves.1.size_le
  refuses {r' _} _ := ⟨.refl r' _, strands_refl r r'⟩
  scope hr' hname :=
    Nat.lt_of_lt_of_le (hscope _ (Assoc.mem_values_of_get? hname)) hr'.1.size_le
  tuple := trivial
  method := trivial
  named _ _ := trivial
  specialize hr' _ hparams := retires_specializeWithin hr _ hr' hparams

/-! ## References that lead nowhere -/

/-- The first type is on the list of a family and refers to the second, which is withdrawn. -/
def Dangles (r : Registry) (id x : TypeId) : Prop :=
  ∃ (k : FamilyId) (f : Family) (key : List TypeId) (t : Datatype), r.families[k]? = some f ∧
    (key, id) ∈ f.instances ∧ r.types[id]? = some t ∧ t.Refers x ∧ r.Withdrawn x

/-- What the references of a new type to withdrawn ones come down to: the other type was
withdrawn before, and the caller gave it or a template mentions it; or it is new as well, but
older, and an instance of a recursive template. -/
def Excuses (r : Registry) (given : List TypeId) (r' : Registry) (id x : TypeId) : Prop :=
  r.Withdrawn x ∧ (x ∈ given ∨ r.Mentions x) ∨ r.size ≤ x ∧ x < id ∧ r.OfRecursive r' x

theorem Evolved.refers_lt (hr : initial.Evolved r) (ht : r.types[id]? = some t)
    (hx : t.Refers x) : x < r.size :=
  hr.wellFormed.refers_lt ht
    (fun _ hfield _ hp => hr.lt_size_of_mem_applications ht hfield hp) hx

theorem dangles_cases (hr : initial.Evolved r) (hwf : r'.WellFormed)
    (hgrown : r.Grown (fun x => r.Withdrawn x → x ∈ given ∨ r.Mentions x) r')
    (hstrands : r.Strands r r') (h : r'.Dangles id x) :
    r.Dangles id x ∨ r.size ≤ id ∧ r.Excuses given r' id x := by
  obtain ⟨k, f', key, t, hf', hlisted, ht, hx, hwithdrawn⟩ := h
  by_cases hlt : id < r.size
  · have ht₀ : r.types[id]? = some t := (hgrown.kept hlt).symm.trans ht
    obtain ⟨f, hf, -, hnew⟩ := hgrown.family hf'
    have hlisted₀ := (hnew _ hlisted).resolve_right (Nat.not_le_of_lt hlt)
    have hwithdrawn₀ := (hgrown.withdrawn_iff (hr.refers_lt ht₀ hx)).1 hwithdrawn
    exact .inl ⟨k, f, key, t, hf, hlisted₀, ht₀, hx, hwithdrawn₀⟩
  · have hid : r.size ≤ id := Nat.le_of_not_lt hlt
    have hprogress : t.progress ≠ .failed :=
      fun hfailed => hwf.instances_kept hf' _ hlisted ⟨t, ht, hfailed⟩
    refine .inr ⟨hid, (hstrands hid ht hprogress hx hwithdrawn).imp_left fun hbefore => ?_⟩
    exact ⟨hbefore, (hgrown.made hid ht).good_of_refers hx hbefore⟩

/-- A declared type is never withdrawn. -/
theorem Reachable.not_withdrawn_of_named (hr : r.Reachable) {name : String}
    (hname : r.names.get? name = some id) : ¬ r.Withdrawn id := by
  obtain ⟨t, f, hentry, -, rfl⟩ := hr.evolved.founded.named hname
  obtain ⟨t', ht', hready⟩ := hr.template_ready (entry_eq_ok_iff.1 hentry).2
  rintro ⟨t'', ht'', hfailed⟩
  obtain rfl := Option.some.inj (ht'.symm.trans ht'')
  rw [hready] at hfailed
  cases hfailed

theorem specialize_dangles {e : DatatypeError} (hr : initial.Evolved r) (hparams : r.Has params)
    (hrun : specialize generic params r = .error e r') (h : r'.Dangles id x) :
    r.Dangles id x ∨ r.size ≤ id ∧ r.Excuses (generic :: params) r' id x := by
  have hwf := hr.wellFormed
  have hstate : (specialize generic params r).state? = some r' := by rw [hrun]; rfl
  have hevolved := (evolves_specialize hwf hparams).evolved hstate
  have hgrown := stays_specialize (closed_unwithdrawn hwf (generic :: params)) (.refl r _)
    (fun _ => .inl List.mem_cons_self) fun p hp _ => .inl (List.mem_cons_of_mem _ hp)
  have hstrands : (withdrawal r).Meets r (specialize generic params) fun id r' => id < r'.size :=
    retires_specializeWithin hr _ ⟨.refl r _, hwf⟩ hparams
  exact dangles_cases hr hevolved.wellFormed (growth_state hgrown hstate)
    (hstrands.error hrun).2 h

theorem denote_dangles {expr : TypeExpr} {scope : Assoc String TypeId} {e : DatatypeError}
    (hr : r.Reachable) (hscope : r.Has scope.values) (hrun : denote expr scope r = .error e r')
    (h : r'.Dangles id x) :
    r.Dangles id x ∨ r.size ≤ id ∧ r.Excuses scope.values r' id x := by
  have hwf := hr.evolved.wellFormed
  have hstate : (denote expr scope r).state? = some r' := by rw [hrun]; rfl
  have hgiven : r.Has (Operation.denote expr scope).given := hscope
  have hevolved := Operation.evolved hr.evolved hgiven hstate
  have hbuiltin : ∀ {name : String} {id : TypeId}, initial.names.get? name = some id →
      ¬ r.Withdrawn id :=
    fun hname => hr.not_withdrawn_of_named (hr.evolved.extends.name hname)
  have htuple := hbuiltin (show initial.names.get? "Tuple" = some Builtin.tuple from rfl)
  have hmethod := hbuiltin (show initial.names.get? "Fn" = some Builtin.method from rfl)
  have hgrown := Contract.meets_denote (growth_answers (closed_unwithdrawn hwf scope.values)
    (fun name id hname _ => .inl (Assoc.mem_values_of_get? hname)) (absurd · htuple)
    (absurd · hmethod) fun name id hname hid => absurd hid (hr.not_withdrawn_of_named hname))
    (.refl r _) expr
  have hstrands := Contract.meets_denote (withdrawal_answers hr.evolved hscope)
    ⟨.refl r _, hwf⟩ expr
  exact dangles_cases hr.evolved hevolved.wellFormed (growth_state hgrown hstate)
    (hstrands.error hrun).2 h

/-- Whatever calls were made, a call that is refused leaves no reference that leads nowhere,
unless it was there before, or a new type has it for one of two reasons: the caller or a template
referred to a withdrawn type already, or a recursive template was being built. -/
theorem refused_dangles (hr : r.Reachable) :
    (∀ generic params e r', r.Has params → specialize generic params r = .error e r' →
      ∀ id x, r'.Dangles id x →
        r.Dangles id x ∨ r.size ≤ id ∧ r.Excuses (generic :: params) r' id x) ∧
    ∀ expr scope e r', r.Has scope.values → denote expr scope r = .error e r' →
      ∀ id x, r'.Dangles id x → r.Dangles id x ∨ r.size ≤ id ∧ r.Excuses scope.values r' id x :=
  ⟨fun _ _ _ _ hparams hrun _ _ h => specialize_dangles hr.evolved hparams hrun h,
    fun _ _ _ _ hscope hrun _ _ h => denote_dangles hr hscope hrun h⟩

/-- Two generic objects of which each has the other as a field; the first one also has a field
for which no instance can be built. -/
def tangled : Registry :=
  Operation.build
    [.slice Builtin.int, .create "Left" none ["T"], .create "Right" none ["T"],
     .addField 13 "right" (.apply 14 [.param "T"]), .addField 14 "left" (.apply 13 [.param "T"]),
     .addField 13 "slice" (.apply 12 [.param "T"])]

/-- What is left when `Left{Int}` cannot be built. -/
def tattered : Registry :=
  (specialize 13 [Builtin.int] tangled).state?.getD initial

theorem dangles_tattered : tattered.Dangles 16 15 := by
  obtain ⟨f, hf, hlisted⟩ : ∃ f ∈ tattered.families[13]?, ([Builtin.int], 16) ∈ f.instances := by
    decide +kernel
  obtain ⟨t, ht, hrefers⟩ : ∃ t ∈ tattered.types[16]?, t.Refers 15 := by
    decide +kernel
  have hwithdrawn : ∃ t ∈ tattered.types[15]?, t.progress = .failed := by
    decide +kernel
  exact ⟨13, f, [Builtin.int], t, hf, hlisted, ht, hrefers, hwithdrawn⟩

/-- The reference is new, and nothing was withdrawn before: what excuses it is that the template
of the withdrawn type is recursive. -/
theorem refused_dangles_tangled :
    tangled.Reachable ∧ tangled.Has [Builtin.int] ∧
      specialize 13 [Builtin.int] tangled = .error (.specializationArity "Slice" 0 1) tattered ∧
      tattered.Dangles 16 15 ∧ ¬ tangled.Dangles 16 15 ∧ tangled.size ≤ 16 ∧
      tangled.Excuses [13, Builtin.int] tattered 16 15 ∧ ¬ tangled.Withdrawn 15 ∧
      tangled.OfRecursive tattered 15 := by
  have hreachable : tangled.Reachable := reachable_build _
  have hparams : tangled.Has [Builtin.int] := by decide +kernel
  have hrun : specialize 13 [Builtin.int] tangled =
      .error (.specializationArity "Slice" 0 1) tattered := by decide +kernel
  have hready : ∀ t ∈ tangled.types, t.progress ≠ .failed := by decide +kernel
  have hkept : ¬ tangled.Withdrawn 15 := by
    rintro ⟨t, ht, hfailed⟩
    exact hready t (Array.mem_of_getElem? ht) hfailed
  have hnot : ¬ tangled.Dangles 16 15 := by
    rintro ⟨k, f, key, t, -, -, -, -, hwithdrawn⟩
    exact hkept hwithdrawn
  obtain ⟨hnew, hexcuses⟩ := ((refused_dangles hreachable).1 13 [Builtin.int] _ tattered hparams
    hrun 16 15 dangles_tattered).resolve_left hnot
  refine ⟨hreachable, hparams, hrun, dangles_tattered, hnot, hnew, hexcuses, hkept, ?_⟩
  exact (hexcuses.resolve_left fun hbefore => hkept hbefore.1).2.2

/-- From a registry without withdrawn types, a call that is refused leaves a complete and
listed `Right{Int}` with a field that leads to the withdrawn `Left{Int}`. -/
theorem refused_leaves_dangling :
    tangled.Reachable ∧ (∀ id, ¬ tangled.Withdrawn id) ∧ tangled.Has [Builtin.int] ∧
      specialize 13 [Builtin.int] tangled = .error (.specializationArity "Slice" 0 1) tattered ∧
      tattered.Dangles 16 15 ∧ tattered.fields 16 = .ok [("left", 15)] := by
  have hreachable : tangled.Reachable := reachable_build _
  have hready : ∀ t ∈ tangled.types, t.progress ≠ .failed := by decide +kernel
  refine ⟨hreachable, ?_, by decide +kernel, by decide +kernel, dangles_tattered, by decide +kernel⟩
  rintro id ⟨t, ht, hfailed⟩
  exact hready t (Array.mem_of_getElem? ht) hfailed

end Registry

end TypeLayer
