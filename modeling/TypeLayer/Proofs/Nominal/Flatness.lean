import Mathlib.Data.Set.Card
import Mathlib.Data.List.ProdSigma
import TypeLayer.Proofs.Concurrent.Alone
import TypeLayer.Proofs.Nominal.Withdrawal

/-!
# Flat templates

A construction ends because an instance is listed before its fields are filled in: for a
template and parameters that are on a list, no instance is built again.  If fields apply types
to nothing but types and parameters by name, a construction can come to few templates with few
lists of parameters.  The parameters are among those that were given first and those that
fields name, and there are as many of them as some field gives.

These pairs are the `candidates`.  Each new type takes one of those that are `missing` on the
lists, so that the number of types and the number of missing pairs together never rise
(`budget`).  Hence a call ends, however the templates refer to each other and whatever they do
with their parameters, and it adds no more types than there are candidates, apart from the one
that was asked for (`specialize_flat`).
-/

namespace TypeLayer

namespace FieldTy

/-- The type of a field is a type or a parameter by name. -/
def isAtom : FieldTy → Bool
  | .concrete _ | .param _ => true
  | .apply _ _ => false

/-- No application has an application among its arguments. -/
def isFlat : FieldTy → Bool
  | .concrete _ | .param _ => true
  | .apply _ args => args.all isAtom

end FieldTy

namespace Registry

open TypeLayer.Action

variable {r r' : Registry} {g h id generic : TypeId} {params ps : List TypeId} {t : Datatype}
  {f : Family} {pairs : Set (TypeId × List TypeId)} {depth : Nat}

/-- No field of a template applies a type to an application. -/
def Flat (r : Registry) : Prop :=
  ∀ t ∈ r.types.toList, t.specialized = false → ∀ field ∈ t.fields, field.ty.isFlat = true

instance (r : Registry) : Decidable r.Flat :=
  inferInstanceAs (Decidable (∀ t ∈ r.types.toList, _))

theorem Flat.isFlat {field : Field} (hr : r.Flat) (ht : r.types[g]? = some t)
    (hgeneric : t.specialized = false) (hfield : field ∈ t.fields) : field.ty.isFlat = true :=
  hr t (Array.mem_toList_iff.2 (Array.mem_of_getElem? ht)) hgeneric field hfield

/-- A field of a template names the type. -/
def Names (r : Registry) (id : TypeId) : Prop :=
  ∃ (g : TypeId) (t : Datatype), r.types[g]? = some t ∧ t.specialized = false ∧
    ∃ field ∈ t.fields, id ∈ namedTypes field.ty

/-- The templates with parameters for them, taken from the given ones and from those that
fields of templates name, and as many as some field of a template applies them to. -/
def candidates (r : Registry) (params : List TypeId) : Set (TypeId × List TypeId) :=
  {p | (∃ t, r.types[p.1]? = some t ∧ t.specialized = false) ∧
    (∃ g, r.AppliesTo g p.1 p.2.length) ∧ ∀ id ∈ p.2, id ∈ params ∨ r.Names id}

/-! ## The number of candidates -/

/-- The lists of at most so many atoms. -/
def tuplesUpTo {α : Type} (atoms : List α) : Nat → List (List α)
  | 0 => [[]]
  | width + 1 => [] :: (atoms ×ˢ tuplesUpTo atoms width).map fun p => p.1 :: p.2

theorem mem_tuplesUpTo {α : Type} {atoms l : List α} {width : Nat} (hlength : l.length ≤ width)
    (hl : ∀ a ∈ l, a ∈ atoms) : l ∈ tuplesUpTo atoms width := by
  induction width generalizing l with
  | zero =>
    rw [List.length_eq_zero_iff.1 (Nat.le_zero.1 hlength)]
    exact List.mem_singleton_self _
  | succ width ih =>
    rw [tuplesUpTo]
    cases l with
    | nil => exact List.mem_cons_self
    | cons a l =>
      rw [List.forall_mem_cons] at hl
      have hrest : l ∈ tuplesUpTo atoms width := ih (Nat.le_of_succ_le_succ hlength) hl.2
      exact List.mem_cons_of_mem _
        (List.mem_map.2 ⟨(a, l), List.mem_product.2 ⟨hl.1, hrest⟩, rfl⟩)

theorem length_tuplesUpTo_le {α : Type} (atoms : List α) (width : Nat) :
    (tuplesUpTo atoms width).length ≤ (atoms.length + 1).pow width := by
  induction width with
  | zero => exact Nat.le_refl 1
  | succ width ih =>
    rw [tuplesUpTo, List.length_cons, List.length_map, List.length_product]
    have hpos : 0 < (atoms.length + 1).pow width := Nat.pow_pos (Nat.succ_pos _)
    calc atoms.length * (tuplesUpTo atoms width).length + 1
        ≤ atoms.length * (atoms.length + 1).pow width + (atoms.length + 1).pow width :=
          Nat.add_le_add (Nat.mul_le_mul_left _ ih) hpos
      _ = (atoms.length + 1) * (atoms.length + 1).pow width := (Nat.succ_mul _ _).symm
      _ = (atoms.length + 1).pow (width + 1) := Nat.mul_comm _ _

/-- The bound on nested instances leaves room for all pairs, and for two calls more. -/
theorem add_two_le_pow {size : Nat} (hsize : 0 < size) (atoms width : Nat) :
    size * (atoms + 1).pow width + 2 ≤ (size + atoms + 2).pow (size + width) := by
  induction width with
  | zero =>
    calc size * 1 + 2
        ≤ size + atoms + 2 := by omega
      _ = (size + atoms + 2).pow 1 := (Nat.pow_one _).symm
      _ ≤ (size + atoms + 2).pow size := Nat.pow_le_pow_right (Nat.succ_pos _) hsize
  | succ width ih =>
    calc size * ((atoms + 1).pow width * (atoms + 1)) + 2
        = size * (atoms + 1).pow width * (atoms + 1) + 2 := by rw [Nat.mul_assoc]
      _ ≤ size * (atoms + 1).pow width * (atoms + 1) + 2 * (atoms + 1) := by omega
      _ = (size * (atoms + 1).pow width + 2) * (atoms + 1) := (Nat.add_mul _ _ _).symm
      _ ≤ (size + atoms + 2).pow (size + width) * (size + atoms + 2) :=
          Nat.mul_le_mul ih (by omega)

theorem longestApplication_le_all {ty : FieldTy} {tys : List FieldTy} (hty : ty ∈ tys) :
    longestApplication ty ≤ longestApplicationAll tys := by
  induction tys with
  | nil => cases hty
  | cons first rest ih =>
    rw [longestApplicationAll]
    rcases List.mem_cons.1 hty with rfl | hty
    · exact Nat.le_max_left _ _
    · exact Nat.le_trans (ih hty) (Nat.le_max_right _ _)

theorem le_longestApplication {ty : FieldTy} {p : TypeId × Nat} (hp : p ∈ applications ty) :
    p.2 ≤ longestApplication ty := by
  induction ty using FieldTy.induction_on with
  | concrete id => cases hp
  | param name => cases hp
  | apply generic args ih =>
    rw [longestApplication]
    rcases mem_applications_apply.1 hp with rfl | ⟨ty, hty, hp⟩
    · exact Nat.le_max_left _ _
    · exact Nat.le_trans (ih ty hty hp)
        (Nat.le_trans (longestApplication_le_all hty) (Nat.le_max_right _ _))

theorem mem_allFieldTys {field : Field} (ht : r.types[g]? = some t) (hfield : field ∈ t.fields) :
    field.ty ∈ r.allFieldTys :=
  List.mem_flatMap.2 ⟨t, Array.mem_toList_iff.2 (Array.mem_of_getElem? ht),
    List.mem_map_of_mem hfield⟩

/-- The pairs of a type with at most as many parameters as the bound on nested instances
counts on. -/
def pairsUpTo (r : Registry) (params : List TypeId) : List (TypeId × List TypeId) :=
  List.range r.size ×ˢ tuplesUpTo (params ++ namedTypesAll r.allFieldTys)
    (max params.length (longestApplicationAll r.allFieldTys))

theorem mem_pairsUpTo {p : TypeId × List TypeId} (hp : p ∈ r.candidates params) :
    p ∈ r.pairsUpTo params := by
  obtain ⟨⟨t, ht, -⟩, ⟨g, u, hu, -, field, hfield, happlied⟩, hatoms⟩ := hp
  refine List.mem_product.2 ⟨List.mem_range.2 (lt_size ht), mem_tuplesUpTo ?_ fun id hid => ?_⟩
  · have hlength := Nat.le_trans (le_longestApplication happlied)
      (longestApplication_le_all (mem_allFieldTys hu hfield))
    exact Nat.le_trans hlength (Nat.le_max_right _ _)
  · rcases hatoms id hid with hid | ⟨g', t', ht', -, field', hfield', hid⟩
    · exact List.mem_append_left _ hid
    · rw [namedTypesAll_eq]
      exact List.mem_append_right _ (List.mem_flatMap.2 ⟨_, mem_allFieldTys ht' hfield', hid⟩)

theorem finite_candidates (r : Registry) (params : List TypeId) : (r.candidates params).Finite :=
  (List.finite_toSet (r.pairsUpTo params)).subset fun _ hp => mem_pairsUpTo hp

theorem ncard_candidates_le (r : Registry) (params : List TypeId) :
    (r.candidates params).ncard ≤ (r.pairsUpTo params).length := by
  have hsubset : r.candidates params ⊆ (r.pairsUpTo params).toFinset :=
    fun _ hp => List.mem_toFinset.2 (mem_pairsUpTo hp)
  refine Nat.le_trans (Set.ncard_le_ncard hsubset (Finset.finite_toSet _)) ?_
  rw [Set.ncard_coe_finset]
  exact List.toFinset_card_le _

theorem length_pairsUpTo_add_two_le (hsize : 0 < r.size) (params : List TypeId) :
    (r.pairsUpTo params).length + 2 ≤ r.nestingBound params := by
  have htuples := length_tuplesUpTo_le (params ++ namedTypesAll r.allFieldTys)
    (max params.length (longestApplicationAll r.allFieldTys))
  rw [List.length_append] at htuples
  rw [pairsUpTo, List.length_product, List.length_range]
  exact Nat.le_trans (Nat.add_le_add_right (Nat.mul_le_mul_left _ htuples) 2)
    (add_two_le_pow hsize _ _)

/-! ## Pairs without an instance -/

/-- The template has an instance for the parameters on its list. -/
def Lists (r : Registry) (p : TypeId × List TypeId) : Prop :=
  ∃ t f, r.entry p.1 = .ok (t, f) ∧ p.2 ∈ f.instances.map Prod.fst

/-- The pairs for which there is no instance yet. -/
def missing (r : Registry) (pairs : Set (TypeId × List TypeId)) : Set (TypeId × List TypeId) :=
  {p ∈ pairs | ¬ r.Lists p}

theorem missing_subset (hlists : ∀ p, r.Lists p → r'.Lists p) :
    r'.missing pairs ⊆ r.missing pairs :=
  fun p hp => ⟨hp.1, fun hlisted => hp.2 (hlists p hlisted)⟩

theorem entry_enlist (hentry : r.entry id = .ok (t, f)) (k : FamilyId) (params : List TypeId) :
    ∃ f', (r.enlist k params).2.entry id = .ok (t, f') ∧ (∀ p ∈ f.instances, p ∈ f'.instances) ∧
      (t.family = k → (params, r.size) ∈ f'.instances) := by
  have hgrown : r.Grown (fun _ => True) (r.enlist k params).2 := grown_enlist fun _ _ => trivial
  obtain ⟨f', hentry', -⟩ := hgrown.entry hentry
  have hf := (entry_eq_ok_iff.1 hentry).2
  refine ⟨f', hentry', ?_⟩
  rcases family_of_modifyFamily (entry_eq_ok_iff.1 hentry').2 with ⟨hne, hf'⟩ | ⟨-, f₀, hf₀, rfl⟩
  · obtain rfl := Option.some.inj (hf.symm.trans hf')
    exact ⟨fun _ hp => hp, fun hk => absurd hk hne⟩
  · obtain rfl := Option.some.inj (hf.symm.trans hf₀)
    exact ⟨fun p hp => List.mem_append_left _ hp,
      fun _ => List.mem_append_right _ (List.mem_singleton_self _)⟩

theorem lists_enlist {p : TypeId × List TypeId} (k : FamilyId) (params : List TypeId)
    (hp : r.Lists p) : (r.enlist k params).2.Lists p := by
  obtain ⟨t, f, hentry, hlisted⟩ := hp
  obtain ⟨f', hentry', hkept, -⟩ := entry_enlist hentry k params
  exact ⟨t, f', hentry', List.map_subset _ hkept hlisted⟩

theorem size_settle (r : Registry) (id : TypeId) (fields : List (String × TypeId)) :
    (r.settle id fields).size = r.size := by
  simp [settle, size, modifyType]

theorem size_withdraw (r : Registry) (k : FamilyId) (id : TypeId) :
    (r.withdraw k id).size = r.size := by
  simp [withdraw, size, modifyType, modifyFamily]

/-- A type that changes in place is still found with its family. -/
theorem lists_modifyType {p : TypeId × List TypeId} {change : Datatype → Datatype}
    (hchange : ∀ t, (change t).family = t.family) (hp : r.Lists p) :
    (r.modifyType id change).Lists p := by
  obtain ⟨t, f, hentry, hlisted⟩ := hp
  obtain ⟨ht, hf⟩ := entry_eq_ok_iff.1 hentry
  have htypes := types_modifyType r id change p.1
  rw [ht] at htypes
  split at htypes
  · rw [← hchange t] at hf
    exact ⟨change t, f, entry_eq_ok_iff.2 ⟨htypes, hf⟩, hlisted⟩
  · exact ⟨t, f, entry_eq_ok_iff.2 ⟨htypes, hf⟩, hlisted⟩

/-- Where an instance is listed, its pair is missing no longer. -/
theorem ncard_missing_enlist_lt (hpairs : pairs.Finite) (hmem : (g, ps) ∈ pairs)
    (hentry : r.entry g = .ok (t, f)) (hunlisted : f.instance? ps = none) :
    ((r.enlist t.family ps).2.missing pairs).ncard < (r.missing pairs).ncard := by
  refine Set.ncard_lt_ncard ?_ (hpairs.subset (Set.sep_subset _ _))
  refine (Set.ssubset_iff_of_subset (missing_subset fun _ => lists_enlist _ _)).2 ⟨(g, ps), ?_, ?_⟩
  · refine ⟨hmem, fun hlists => ?_⟩
    obtain ⟨t', f', hentry', hlisted⟩ := hlists
    obtain ⟨rfl, rfl⟩ := Prod.mk.inj (Except.ok.inj (hentry.symm.trans hentry'))
    exact not_mem_keys_of_unlisted hunlisted hlisted
  · intro hmissing
    obtain ⟨f', hentry', -, hnew⟩ := entry_enlist hentry t.family ps
    exact hmissing.2 ⟨t, f', hentry', List.mem_map_of_mem (hnew rfl)⟩

/-! ## Construction -/

/-- Calls that pay for each new type with a missing pair. They can rely on there being fewer
of these than the bound on nested instances. -/
def budget (r : Registry) (pairs : Set (TypeId × List TypeId)) (depth : Nat) : Contract where
  relies r' := r.Grown (fun _ => True) r' ∧ (r'.missing pairs).ncard < depth
  moves r' r'' := r'.Grown (fun _ => True) r'' ∧
    r''.size + (r''.missing pairs).ncard ≤ r'.size + (r'.missing pairs).ncard
  refuses r' _ r'' := r''.size ≤ r'.size + (r'.missing pairs).ncard
  faults _ := False
  refl {r'} _ := ⟨.refl r' _, Nat.le_refl _⟩
  trans hmoves hmoves' := ⟨hmoves.1.trans hmoves'.1, Nat.le_trans hmoves'.2 hmoves.2⟩
  relies_of_moves {r' r''} hr' hmoves := by
    have hsize := hmoves.1.size_le
    exact ⟨hr'.1.trans hmoves.1, by omega⟩
  refuses_of_moves hmoves hrefused := Nat.le_trans hrefused hmoves.2

/-- The call asks for one of the pairs, or for a type that is no template. -/
def Foreseen (r : Registry) (pairs : Set (TypeId × List TypeId)) (g : TypeId)
    (ps : List TypeId) : Prop :=
  g < r.size ∧ ∀ t, r.types[g]? = some t → t.specialized = false → (g, ps) ∈ pairs

/-- A finite set of pairs that construction does not lead out of, if arguments are only
parameters and types that are named. -/
structure Complete (r : Registry) (pairs : Set (TypeId × List TypeId)) : Prop where
  finite : pairs.Finite
  foreseen : ∀ {g h : TypeId} {ps ids : List TypeId} {t : Datatype} {field : Field}
    {args : List FieldTy}, (g, ps) ∈ pairs → r.types[g]? = some t → t.specialized = false →
    field ∈ t.fields → field.ty = .apply h args → ids.length = args.length →
    (∀ id ∈ ids, id ∈ ps ∨ id ∈ namedTypesAll args) → r.Foreseen pairs h ids

/-- A way to get instances pays for each new type. -/
def Pays (apply : TypeId → List TypeId → Register TypeId) (r : Registry)
    (pairs : Set (TypeId × List TypeId)) (depth : Nat) : Prop :=
  ∀ {r' : Registry} {g : TypeId} {ps : List TypeId}, (budget r pairs depth).relies r' →
    r.Foreseen pairs g ps → (budget r pairs depth).Meets r' (apply g ps) fun _ _ => True

section Fields

variable {apply : TypeId → List TypeId → Register TypeId} {names : List String}

/-- Types and parameters by name cost nothing, and give a parameter or a type that is named.
What is applied to these is paid for. -/
theorem Pays.fills (happly : Pays apply r pairs depth) (hnames : names.length ≤ ps.length) :
    (budget r pairs depth).Fills apply names ps
      (fun ty _ => ty.isFlat = true ∧ ∀ h args ids, ty = .apply h args →
        ids.length = args.length → (∀ id ∈ ids, id ∈ ps ∨ id ∈ namedTypesAll args) →
          r.Foreseen pairs h ids)
      fun ty id _ => ty.isAtom = true → id ∈ ps ∨ id ∈ namedTypes ty where
  fits _ hty := hty
  kept _ hid := hid
  concrete _ _ _ := .inr List.mem_cons_self
  param _ _ _ hid _ := .inl (List.mem_of_getElem? hid)
  unknown _ _ _ := Nat.le_add_right _ _
  missing _ _ hlt := absurd hnames (Nat.not_le_of_lt hlt)
  args {_ _ args} hty ty hmem := by
    have hatom : ty.isAtom = true := List.all_eq_true.1 hty.1 ty hmem
    cases ty with
    | concrete | param =>
      refine ⟨rfl, fun h args ids heq => ?_⟩
      cases heq
    | apply => cases hatom
  apply {r' h args ids} hr' hty hids := by
    have hknown : ∀ id ∈ ids, id ∈ ps ∨ id ∈ namedTypesAll args := by
      refine forall_mem_of_forall₂ hids fun ty hmem id hid => ?_
      refine (hid (List.all_eq_true.1 hty.1 ty hmem)).imp_right fun hid => ?_
      rw [namedTypesAll_eq]
      exact List.mem_flatMap.2 ⟨ty, hmem, hid⟩
    exact (happly hr' (hty.2 h args ids rfl hids.length_eq.symm hknown)).mono
      fun _ _ _ _ hatom => absurd hatom Bool.false_ne_true

/-- Listing the instance adds a type and takes its pair from the missing ones, which leaves to
the fields what they may add. -/
theorem Pays.meets_build (happly : Pays apply r pairs depth) (hflat : r.Flat)
    (hpairs : r.Complete pairs) (hr' : (budget r pairs (depth + 1)).relies r')
    (hmem : (g, ps) ∈ pairs) (hentry : r'.entry g = .ok (t, f))
    (hgeneric : t.specialized = false) (hnames : f.paramNames.length ≤ ps.length)
    (hunlisted : f.instance? ps = none) :
    (budget r pairs depth).Meets r' (build apply t f ps) fun _ _ => True := by
  have ht : r.types[g]? = some t := hr'.1.template (entry_eq_ok_iff.1 hentry).1 hgeneric
  have hlisted : r'.Grown (fun _ => True) (r'.enlist t.family ps).2 :=
    grown_enlist fun _ _ => trivial
  have hlt := ncard_missing_enlist_lt hpairs.finite hmem hentry hunlisted
  have hsize := r'.size_enlist t.family ps
  have hrelies : (budget r pairs depth).relies (r'.enlist t.family ps).2 :=
    ⟨hr'.1.trans hlisted, Nat.lt_of_lt_of_le hlt (Nat.le_of_lt_succ hr'.2)⟩
  have hfills : (budget r pairs depth).Fills apply f.paramNames ps _ _ := happly.fills hnames
  refine Contract.meets_build (Contract.meets_instanceFields hfills hrelies fun field hfield =>
    ⟨hflat.isFlat ht hgeneric hfield, fun h args ids =>
      hpairs.foreseen hmem ht hgeneric hfield⟩) ?_ ?_
  · intro fields r₁ _ hmoves _
    have hsettled : ((r₁.settle r'.size fields).missing pairs).ncard ≤ (r₁.missing pairs).ncard :=
      Set.ncard_le_ncard (missing_subset fun _ => lists_modifyType fun _ => rfl)
        (hpairs.finite.subset (Set.sep_subset _ _))
    have hfields := hmoves.2
    have hsize₁ := r₁.size_settle r'.size fields
    refine ⟨⟨Grown.settle (hlisted.trans hmoves.1) (Nat.le_refl _) fun _ _ => trivial, ?_⟩,
      trivial⟩
    omega
  · intro e r₁ _ hrefused
    have hfields : r₁.size ≤ _ := hrefused
    show (r₁.withdraw t.family r'.size).size ≤ _
    rw [size_withdraw]
    omega

end Fields

/-- A family has no more names for parameters than there are parameters in a list that it
takes. -/
theorem Reachable.length_paramNames_le {k : FamilyId} (hr : r.Reachable)
    (hf : r.families[k]? = some f) (harity : f.wrongArity? ps.length = none) :
    f.paramNames.length ≤ ps.length := by
  cases hvariadic : f.variadic with
  | true =>
    rw [hr.paramNames_of_variadic hf hvariadic]
    exact Nat.zero_le _
  | false => exact Nat.le_of_eq ((wrongArity?_eq_none_iff.1 harity).2 hvariadic).symm

/-- Specialization pays for each new type. The induction is on the bound on nested instances,
which is above the number of missing pairs and falls with it. -/
theorem pays_specializeWithin (hr : r.Reachable) (hflat : r.Flat) (hpairs : r.Complete pairs)
    (depth : Nat) : Pays (specializeWithin depth) r pairs depth := by
  induction depth with
  | zero =>
    intro r' g ps hr' _
    exact absurd hr'.2 (Nat.not_lt_zero _)
  | succ depth ih =>
    intro r' g ps hr' hforeseen
    obtain ⟨t, f, hentry⟩ := hr.evolved.wellFormed.exists_entry hforeseen.1
    obtain ⟨f', hentry', hbecomes⟩ := hr'.1.entry hentry
    refine Contract.meets_specializeWithin_succ hr' ?_ (fun _ _ _ _ _ => trivial)
      (fun _ _ _ _ _ => Nat.le_add_right _ _) (fun _ _ _ _ _ _ => Nat.le_add_right _ _)
      (fun _ _ _ _ _ _ _ => trivial) ?_
    · intro fault hfault
      cases hentry'.symm.trans hfault
    · intro t' f'' hread hgeneric harity hunlisted
      obtain ⟨rfl, rfl⟩ := eq_of_entry hentry' hread
      have hmem := hforeseen.2 t (entry_eq_ok_iff.1 hentry).1 hgeneric
      rw [hbecomes.wrongArity?] at harity
      have hnames := hr.length_paramNames_le (entry_eq_ok_iff.1 hentry).2 harity
      rw [← hbecomes.paramNames] at hnames
      have hpays : Pays (specializeWithin depth) r pairs depth := ih
      exact hpays.meets_build hflat hpairs hr' hmem hentry' hgeneric hnames hunlisted

/-! ## The end of a call -/

/-- What was asked for, and the candidates, are all that construction leads to. -/
theorem complete_candidates (hr : r.Reachable) (generic : TypeId) (params : List TypeId) :
    r.Complete (insert (generic, params) (r.candidates params)) where
  finite := (r.finite_candidates params).insert _
  foreseen {g h ps ids t field args} hmem ht hgeneric hfield hty hlength hids := by
    have happlies : r.AppliesTo g h ids.length := by
      refine ⟨t, ht, hgeneric, field, hfield, ?_⟩
      rw [hty, applications, hlength]
      exact List.mem_cons_self
    have hps : ∀ id ∈ ps, id ∈ params ∨ r.Names id := by
      rcases Set.mem_insert_iff.1 hmem with heq | hmem
      · obtain ⟨-, rfl⟩ := Prod.mk.inj heq
        exact fun id hid => .inl hid
      · exact hmem.2.2
    refine ⟨hr.evolved.lt_size_of_applies ⟨_, happlies⟩, fun u hu htemplate => ?_⟩
    refine Set.mem_insert_of_mem _ ⟨⟨u, hu, htemplate⟩, ⟨g, happlies⟩, fun id hid => ?_⟩
    rcases hids id hid with hid | hid
    · exact hps id hid
    · refine .inr ⟨g, t, ht, hgeneric, field, hfield, ?_⟩
      rw [hty, namedTypes]
      exact hid

theorem ncard_missing_le (r : Registry) (generic : TypeId) (params : List TypeId) :
    (r.missing (insert (generic, params) (r.candidates params))).ncard ≤
      (r.candidates params).ncard + 1 := by
  have hsubset := Set.ncard_le_ncard (Set.sep_subset _ fun p => ¬ r.Lists p)
    ((r.finite_candidates params).insert (generic, params))
  exact Nat.le_trans hsubset (Set.ncard_insert_le _ _)

theorem budget_specialize (hr : r.Reachable) (hflat : r.Flat) (hgeneric : generic < r.size)
    (params : List TypeId) :
    (budget r (insert (generic, params) (r.candidates params)) (r.nestingBound params)).Meets r
      (specialize generic params) fun _ _ => True := by
  have hmissing := r.ncard_missing_le generic params
  have hncard := r.ncard_candidates_le params
  have hroom := length_pairsUpTo_add_two_le (Nat.zero_lt_of_lt hgeneric) params
  refine pays_specializeWithin hr hflat (complete_candidates hr generic params)
    (r.nestingBound params) ⟨.refl r _, ?_⟩ ⟨hgeneric, fun _ _ _ => Set.mem_insert _ _⟩
  omega

/-- If no field of a template applies a type to an application, then a call for an instance
comes to its end, step by step and whatever the templates have of each other: it returns a
type or is refused, as `specialize` says. The types that it adds are at most as many as there
are candidates, and one more for what was asked for. -/
theorem specialize_flat (hr : r.Reachable) (hflat : r.Flat) (hgeneric : generic < r.size)
    (params : List TypeId) :
    (r.candidates params).Finite ∧
      ∃ call r', Specializing.Runs (.begin generic params, r) (call, r') ∧ call.step r' = none ∧
        ((∃ id, call.activity = .give id ∧ specialize generic params r = .ok id r') ∨
          ∃ e, call.activity = .refuse e ∧ specialize generic params r = .error e r') ∧
        r'.size ≤ r.size + (r.candidates params).ncard + 1 := by
  refine ⟨r.finite_candidates params, ?_⟩
  have hmissing := r.ncard_missing_le generic params
  have hruns := Specializing.runs_specialize hr.evolved generic params
  have hmeets := budget_specialize hr hflat hgeneric params
  unfold Contract.Meets at hmeets
  unfold Specializing.Delivers at hruns
  cases hrun : specialize generic params r with
  | ok id r' =>
    rw [hrun] at hmeets hruns
    have hadded : r'.size + _ ≤ _ := hmeets.1.2
    exact ⟨_, r', hruns, rfl, .inl ⟨id, rfl, rfl⟩, by omega⟩
  | error e r' =>
    rw [hrun] at hmeets hruns
    have hadded : r'.size ≤ _ := hmeets
    exact ⟨_, r', hruns, rfl, .inr ⟨e, rfl, rfl⟩, by omega⟩
  | fault fault =>
    rw [hrun] at hmeets
    exact hmeets.elim

/-- Two generic types that have each other and themselves as fields, with the parameters
swapped, repeated, dropped and replaced by a type. -/
def woven : Registry :=
  Operation.build
    [.create "Pair" none ["A", "B"], .create "Cell" none ["C"],
     .addField 12 "swapped" (.apply 12 [.param "B", .param "A"]),
     .addField 12 "twin" (.apply 12 [.param "A", .param "A"]),
     .addField 12 "cell" (.apply 13 [.param "B"]),
     .addField 13 "pair" (.apply 12 [.param "C", .concrete Builtin.int])]

theorem specialize_flat_woven :
    woven.Reachable ∧ woven.Flat ∧ woven.size = 14 ∧
      ∃ call r', Specializing.Runs (.begin 12 [Builtin.bool, Builtin.long], woven) (call, r') ∧
        call.step r' = none ∧ call.activity = .give 14 ∧ r'.size = 26 ∧
        r'.size ≤ woven.size + (woven.candidates [Builtin.bool, Builtin.long]).ncard + 1 := by
  have hreachable : woven.Reachable := reachable_build _
  have hflat : woven.Flat := by decide +kernel
  have hsize : woven.size = 14 := by decide +kernel
  obtain ⟨r', hrun⟩ : ∃ r', specialize 12 [Builtin.bool, Builtin.long] woven = .ok 14 r' :=
    Outcome.exists_ok (by decide +kernel)
  have hsize' : (specialize 12 [Builtin.bool, Builtin.long] woven).state?.map size = some 26 := by
    decide +kernel
  rw [hrun, Outcome.state?_ok, Option.map_some] at hsize'
  obtain ⟨-, call, r'', hruns, hend, ⟨id, hgive, hok⟩ | ⟨e, -, herror⟩, hadded⟩ :=
    specialize_flat hreachable hflat (show 12 < woven.size by decide +kernel)
      [Builtin.bool, Builtin.long]
  · obtain ⟨rfl, rfl⟩ := Outcome.ok.inj (hrun.symm.trans hok)
    exact ⟨hreachable, hflat, hsize, call, r', hruns, hend, hgive, Option.some.inj hsize', hadded⟩
  · cases hrun.symm.trans herror

end Registry

end TypeLayer
