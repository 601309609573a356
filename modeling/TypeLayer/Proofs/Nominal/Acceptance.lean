import TypeLayer.Proofs.Nominal.Declared
import TypeLayer.Proofs.Nominal.Instances

/-!
# Fields that are accepted and their instances

Whether a type can be applied to some number of arguments is judged twice: when a field is
declared, and when an instance is built for it.  The first time, only the family of the
type counts.  The second time, it also counts whether the type is a template: one that can
be used already takes no arguments, whatever its family says.

The two agree on everything else.  An instance of a template whose fields were accepted can
be built, unless the construction comes to a field that applies a type which can be used
(`Misapplies`), or has no end.
-/

namespace TypeLayer.Registry

open TypeLayer.Action

variable {α β : Type} {r r' : Registry} {g generic : TypeId} {params : List TypeId} {t : Datatype}
  {f : Family}

/-! ## Applications -/

/-- A field of the template applies the second type to so many arguments, at any depth. -/
def AppliesTo (r : Registry) (g h : TypeId) (n : Nat) : Prop :=
  ∃ t, r.types[g]? = some t ∧ t.specialized = false ∧
    ∃ field ∈ t.fields, (h, n) ∈ applications field.ty

/-- A field of the template applies the second type. -/
def Applies (r : Registry) (g h : TypeId) : Prop :=
  ∃ n, r.AppliesTo g h n

/-- The type can be used, and so many arguments are refused with the given error. -/
def Refuses (r : Registry) (h : TypeId) (n : Nat) (e : DatatypeError) : Prop :=
  ∃ t f, r.entry h = .ok (t, f) ∧ t.specialized = true ∧ n ≠ 0 ∧
    e = .specializationArity f.name 0 n

/-- The construction of an instance can come to an application that is refused with the
given error. -/
def Misapplies (r : Registry) (generic : TypeId) (e : DatatypeError) : Prop :=
  ∃ g h n, Relation.ReflTransGen r.Applies generic g ∧ r.AppliesTo g h n ∧ r.Refuses h n e

/-! ## Construction -/

/-- Calls that build instances for the fields of a template, and are refused only where an
application is. -/
def acceptance (r : Registry) (generic : TypeId) : Contract where
  relies r' := r.Grown (fun _ => True) r'
  moves r' r'' := r'.Grown (fun _ => True) r''
  refuses _ e _ := r.Misapplies generic e
  faults fault := fault = .endless
  refl {r'} _ := .refl r' _
  trans := Grown.trans
  relies_of_moves := Grown.trans
  refuses_of_moves _ he := he

/-- The declared type of a field that was accepted on a template. -/
def Accepted (r : Registry) (g : TypeId) (t : Datatype) (f : Family) (ty : FieldTy) : Prop :=
  r.checkFieldTy t f ty = .ok () ∧ ∀ p ∈ applications ty, r.AppliesTo g p.1 p.2

/-- A way to get instances is refused only where an application is. -/
def Admits (apply : TypeId → List TypeId → Register TypeId) (r : Registry) (generic : TypeId) :
    Prop :=
  ∀ {r' : Registry} {g : TypeId} {t : Datatype} {f : Family} {params : List TypeId},
    r.Grown (fun _ => True) r' → Relation.ReflTransGen r.Applies generic g →
    r.entry g = .ok (t, f) → f.wrongArity? params.length = none →
    (t.specialized = true → params ≠ [] →
      r.Misapplies generic (.specializationArity f.name 0 params.length)) →
    (acceptance r generic).Meets r' (apply g params) fun _ _ => True

theorem Admits.fills {apply : TypeId → List TypeId → Register TypeId}
    (h : Admits apply r generic) (hr : r.Reachable)
    (hreached : Relation.ReflTransGen r.Applies generic g) (hentry : r.entry g = .ok (t, f))
    (harity : f.wrongArity? params.length = none) :
    (acceptance r generic).Fills apply f.paramNames params (fun ty _ => r.Accepted g t f ty)
      fun _ _ _ => True where
  fits _ hty := hty
  kept _ _ := trivial
  concrete _ _ := trivial
  param _ _ _ _ := trivial
  unknown _ hty hname := absurd (checkFieldTy_param_iff.1 hty.1).2 hname
  missing {_ name} _ hty hlt := by
    have hname := (checkFieldTy_param_iff.1 hty.1).2
    -- A family with names for its parameters takes as many as it has names for.
    have hvariadic : f.variadic = false := by
      by_contra hvariadic
      rw [Bool.not_eq_false] at hvariadic
      rw [hr.paramNames_of_variadic (entry_eq_ok_iff.1 hentry).2 hvariadic] at hname
      cases hname
    have hlength := (wrongArity?_eq_none_iff.1 harity).2 hvariadic
    exact absurd hlength (Nat.ne_of_lt hlt)
  args hty ty hmem := ⟨(checkFieldTy_apply_iff.1 hty.1).2 ty hmem,
    fun p hp => hty.2 p (mem_applications_apply.2 (.inr ⟨ty, hmem, hp⟩))⟩
  apply {r' h' args ids} hgrown hty hids := by
    have hlength := hids.length_eq
    obtain ⟨⟨u, g', hentry', harity'⟩, -⟩ := checkFieldTy_apply_iff.1 hty.1
    have happlies : r.AppliesTo g h' args.length :=
      hty.2 _ (mem_applications_apply.2 (.inl rfl))
    refine h hgrown (hreached.tail ⟨_, happlies⟩) hentry' (hlength ▸ harity') ?_
    intro hspecialized hids
    refine ⟨g, h', ids.length, hreached, hlength ▸ happlies, u, g', hentry', hspecialized, ?_, rfl⟩
    exact fun hzero => hids (List.length_eq_zero_iff.1 hzero)

theorem meets_acceptance_build {apply : TypeId → List TypeId → Register TypeId} {f' : Family}
    (happly : Admits apply r generic) (hr : r.Reachable) (hgrown : r.Grown (fun _ => True) r')
    (hreached : Relation.ReflTransGen r.Applies generic g) (hentry : r.entry g = .ok (t, f))
    (hgeneric : t.specialized = false) (harity : f.wrongArity? params.length = none)
    (hnames : f'.paramNames = f.paramNames) :
    (acceptance r generic).Meets r' (build apply t f' params) fun _ _ => True := by
  have ht := (entry_eq_ok_iff.1 hentry).1
  have hlisted : r'.Grown (fun _ => True) (r'.enlist t.family params).2 :=
    grown_enlist fun _ _ => trivial
  have hfields : (acceptance r generic).Meets (r'.enlist t.family params).2
      (instanceFields apply f.paramNames params t.fields) _ :=
    Contract.meets_instanceFields (happly.fills hr hreached hentry harity)
      (hgrown.trans hlisted) fun field hfield =>
        ⟨hr.evolved.checked hentry field hfield, fun p hp => ⟨t, ht, hgeneric, field, hfield, hp⟩⟩
  rw [← hnames] at hfields
  refine Contract.meets_build hfields ?_ fun _ _ _ hrefused => hrefused
  intro fields r₁ _ hgrown₁ _
  exact ⟨Grown.settle (hlisted.trans hgrown₁) (Nat.le_refl _) fun _ _ => trivial, trivial⟩

/-- The instance of a template is refused only where an application is. The induction is on
the nesting of instances; that arities are right is known of every application from the
time it was declared, and of the first call from its caller. -/
theorem admits_specializeWithin (hr : r.Reachable) (depth : Nat) :
    Admits (specializeWithin depth) r generic := by
  induction depth with
  | zero =>
    intro r' g t f params _ _ _ _ _
    exact Contract.meets_specializeWithin_zero rfl
  | succ depth ih =>
    intro r' g t f params hgrown hreached hentry harity hrefused
    obtain ⟨f', hentry', hbecomes⟩ := hgrown.entry hentry
    have hfamily : ∀ {t' f''}, r'.entry g = .ok (t', f'') → t' = t ∧ f'' = f' := fun hread =>
      eq_of_entry hread hentry'
    refine Contract.meets_specializeWithin_succ hgrown ?_ (fun _ _ _ _ _ => trivial) ?_ ?_
      (fun _ _ _ _ _ _ _ => trivial) ?_
    · intro fault hfault
      cases hentry'.symm.trans hfault
    · intro t' f'' hread hspecialized hparams
      obtain ⟨rfl, rfl⟩ := hfamily hread
      rw [hbecomes.name]
      exact hrefused hspecialized hparams
    · intro t' f'' expected hread _ hwrong
      obtain ⟨rfl, rfl⟩ := hfamily hread
      rw [hbecomes.wrongArity?, harity] at hwrong
      cases hwrong
    · intro t' f'' hread hgeneric _ _
      obtain ⟨rfl, rfl⟩ := hfamily hread
      exact meets_acceptance_build ih hr hgrown hreached hentry hgeneric harity hbecomes.paramNames

/-! ## Applications that are refused -/

section Refused

variable {depth : Nat} {names : List String} {p : TypeId × Nat} {e : DatatypeError}
  (hrefuses : r.Refuses p.1 p.2 e)

include hrefuses

theorem fails_specializeWithin (hgrown : r.Grown (fun _ => True) r')
    (hlength : params.length = p.2) :
    (growth r fun _ => True).Meets r' (specializeWithin depth p.1 params) fun _ _ => False := by
  obtain ⟨t, f, hentry, hspecialized, hne, -⟩ := hrefuses
  obtain ⟨f', hentry', -⟩ := hgrown.entry hentry
  have hready : ∀ {t' f''}, r'.entry p.1 = .ok (t', f'') → t'.specialized ≠ false := by
    intro t' f'' hread hgeneric
    obtain ⟨rfl, -⟩ := eq_of_entry hentry' hread
    cases hgeneric.symm.trans hspecialized
  cases depth with
  | zero =>
    exact Contract.meets_specializeWithin_zero trivial
  | succ depth =>
    refine Contract.meets_specializeWithin_succ hgrown (fun _ _ => trivial) ?_
      (fun _ _ _ _ _ => .refl r' _) (fun _ _ _ _ _ _ => .refl r' _)
      (fun _ _ _ hread hgeneric _ _ => hready hread hgeneric)
      fun _ _ hread hgeneric _ _ => absurd hgeneric (hready hread)
    rintro t' f'' - - rfl
    exact hne hlength.symm

/-- What is filled in does not have the application that is refused, since no type that has it
is filled in at all. -/
theorem refused_fills :
    (growth r fun _ => True).Fills (specializeWithin depth) names params (fun _ _ => True)
      fun ty _ _ => p ∉ applications ty where
  fits _ _ := trivial
  kept _ hp := hp
  concrete _ _ := List.not_mem_nil
  param _ _ _ _ := List.not_mem_nil
  unknown {r' _} _ _ _ := .refl r' _
  missing _ _ _ := trivial
  args _ _ _ := trivial
  apply {r' h args ids} hgrown _ hids := by
    by_cases hp : p = (h, args.length)
    · have hlength : ids.length = p.2 := by rw [hp, hids.length_eq]
      have hfails : (growth r fun _ => True).Meets r' (specializeWithin depth p.1 ids) _ :=
        fails_specializeWithin hrefuses hgrown hlength
      rw [hp] at hfails
      exact hfails.mono fun _ _ _ hfalse => hfalse.elim
    · have hstays : Stays (specializeWithin depth) r (fun _ => True) fun _ => True :=
        stays_specializeWithin r.closed_true depth
      refine (hstays hgrown trivial fun _ _ => trivial).mono fun _ _ _ _ => ?_
      rw [mem_applications_apply]
      rintro (hhead | ⟨ty, hmem, hin⟩)
      · exact hp hhead
      · exact forall_mem_of_forall₂ hids.flip (fun _ _ _ hnot => hnot) ty hmem hin

/-- A template with a field that is refused has no new instances. -/
theorem fails_build (ht : r.types[generic]? = some t) (happlies : r.AppliesTo generic p.1 p.2) :
    (growth r fun _ => True).Meets r (build (specializeWithin depth) t f params)
      fun _ _ => False := by
  obtain ⟨t', ht', -, field, hfield, hp⟩ := happlies
  obtain rfl := Option.some.inj (ht.symm.trans ht')
  have hlisted : r.Grown (fun _ => True) (r.enlist t.family params).2 :=
    grown_enlist fun _ _ => trivial
  refine Contract.meets_build (Contract.meets_instanceFields (refused_fills hrefuses) hlisted
    fun _ _ => trivial) ?_ ?_
  · intro fields r₁ _ _ hmade
    exact absurd hp (forall_mem_of_forall₂ hmade.flip (fun _ _ _ hnot => hnot.2) field hfield)
  · intro e r₁ _ hgrown
    exact Grown.withdraw (hlisted.trans hgrown) (Nat.le_refl _)

end Refused

/-! ## The two judgements -/

theorem wrongArity?_object (hobject : f.style = .object)
    (hlength : params.length = f.paramNames.length) : f.wrongArity? params.length = none := by
  refine wrongArity?_eq_none_iff.2 ⟨fun hmethod => ?_, fun _ => hlength⟩
  cases hobject.symm.trans hmethod

/-- Whatever calls were made, a generic object takes every list of parameters of the right
length, unless the construction has no end, or comes to a field that applies a type which is
no template.  A template with such a field of its own was accepted for nothing: the parameters
for which it has an instance already are the only ones it takes. -/
theorem specialize_accepted (hr : r.Reachable) (hentry : r.entry generic = .ok (t, f))
    (hgeneric : t.specialized = false) (hobject : f.style = .object)
    (hlength : params.length = f.paramNames.length) :
    ((∃ id r', specialize generic params r = .ok id r') ∨
      specialize generic params r = .fault .endless ∨
      ∃ e r', specialize generic params r = .error e r' ∧ r.Misapplies generic e) ∧
    ∀ h n e, r.AppliesTo generic h n → r.Refuses h n e → f.instance? params = none →
      ∀ id r', specialize generic params r ≠ .ok id r' := by
  have harity := wrongArity?_object hobject hlength
  constructor
  · have hmeets : (acceptance r generic).Meets r (specialize generic params) fun _ _ => True :=
      admits_specializeWithin hr (r.nestingBound params) (.refl r _) .refl hentry harity
        fun hspecialized => absurd (hgeneric.symm.trans hspecialized) Bool.false_ne_true
    cases hrun : specialize generic params r with
    | ok id r' => exact .inl ⟨id, r', rfl⟩
    | error e r' => exact .inr (.inr ⟨e, r', rfl, hmeets.error hrun⟩)
    | fault fault => exact .inr (.inl (congrArg Outcome.fault (hmeets.fault hrun)))
  · intro h n e happlies hrefuses hunlisted id r' hrun
    obtain ⟨depth, hdepth⟩ := r.exists_nestingBound params
    have hfails : (growth r fun _ => True).Meets r (build (specializeWithin depth) t f params) _ :=
      fails_build (p := (h, n)) hrefuses (entry_eq_ok_iff.1 hentry).1 happlies
    unfold specialize at hrun
    rw [hdepth, specializeWithin, bind_apply, Action.read, hentry] at hrun
    simp only [hgeneric, Bool.false_eq_true, if_false, harity, hunlisted] at hrun
    exact (hfails.ok hrun).2

/-- The generic object 13 has a field that applies the generic object 14, which has one that
applies the slice 12. -/
def nested : Registry :=
  Operation.build
    [.slice Builtin.int, .create "Outer" none ["T"], .create "Inner" none ["T"],
     .addField 13 "inner" (.apply 14 [.param "T"]), .addField 14 "slice" (.apply 12 [.param "T"])]

/-- Both objects are refused for the field of the second one, which the construction of the first
one comes to. -/
theorem specialize_accepted_nested :
    nested.Reachable ∧
      (∃ r', specialize 13 [Builtin.int] nested = .error (.specializationArity "Slice" 0 1) r' ∧
        nested.Misapplies 13 (.specializationArity "Slice" 0 1)) ∧
      ∀ id r', specialize 14 [Builtin.int] nested ≠ .ok id r' := by
  have hreachable : nested.Reachable := reachable_build _
  have hwf := hreachable.evolved.wellFormed
  have hgeneric : ∀ g : TypeId, g = 13 ∨ g = 14 → ∀ entry ∈ (nested.entry g).toOption,
      entry.1.specialized = false ∧ entry.2.style = .object ∧
        [Builtin.int].length = entry.2.paramNames.length ∧
        entry.2.instance? [Builtin.int] = none := by
    rintro g (rfl | rfl) <;> decide +kernel
  have hslice : ∀ entry ∈ (nested.entry 12).toOption, entry.1.specialized = true := by
    decide +kernel
  have happlies : ∀ t ∈ nested.types[14]?, t.specialized = false ∧
      ∃ field ∈ t.fields, (12, 1) ∈ applications field.ty := by
    decide +kernel
  obtain ⟨t₁, f₁, hentry₁⟩ := hwf.exists_entry (show 13 < nested.size by decide +kernel)
  obtain ⟨t₂, f₂, hentry₂⟩ := hwf.exists_entry (show 14 < nested.size by decide +kernel)
  obtain ⟨t₃, f₃, hentry₃⟩ := hwf.exists_entry (show 12 < nested.size by decide +kernel)
  obtain ⟨h₁, hstyle₁, hlength₁, -⟩ := hgeneric 13 (.inl rfl) (t₁, f₁) (by rw [hentry₁]; rfl)
  obtain ⟨h₂, hstyle₂, hlength₂, hnew⟩ := hgeneric 14 (.inr rfl) (t₂, f₂) (by rw [hentry₂]; rfl)
  have h₃ := hslice (t₃, f₃) (by rw [hentry₃]; rfl)
  have ht₂ := (entry_eq_ok_iff.1 hentry₂).1
  have hresult : (specialize 13 [Builtin.int] nested).result? =
      some (.error (.specializationArity "Slice" 0 1)) := by decide +kernel
  refine ⟨hreachable, ?_, ?_⟩
  · rcases (specialize_accepted hreachable hentry₁ h₁ hstyle₁ hlength₁).1 with
      ⟨id, r', hrun⟩ | hrun | ⟨e, r', hrun, hmisapplies⟩
    · rw [hrun] at hresult
      cases hresult
    · rw [hrun] at hresult
      cases hresult
    · rw [hrun] at hresult
      cases hresult
      exact ⟨r', hrun, hmisapplies⟩
  exact (specialize_accepted hreachable hentry₂ h₂ hstyle₂ hlength₂).2 12 1 _
    ⟨t₂, ht₂, happlies t₂ ht₂⟩ ⟨t₃, f₃, hentry₃, h₃, Nat.one_ne_zero, rfl⟩ hnew

/-- A generic object beside the slice 12. -/
def sliced : Registry :=
  Operation.build [.slice Builtin.int, .create "Foo" none ["T"]]

/-- A field that applies a slice is accepted, as its family takes one parameter, but no
instance can be built for it. -/
theorem specialize_refused_sliced :
    sliced.Reachable ∧
      ∃ r₁ r₂, addField 13 "f" (.apply 12 [.param "T"]) sliced = .ok () r₁ ∧
        specialize 13 [Builtin.int] r₁ = .error (.specializationArity "Slice" 0 1) r₂ := by
  have hreachable : sliced.Reachable := reachable_build _
  exact ⟨hreachable, _, _, rfl, rfl⟩

end TypeLayer.Registry
