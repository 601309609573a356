import TypeLayer.Proofs.Nominal.Reachable

/-!
# What specialization adds

A call that builds instances adds to the registry and changes nothing that was there:
`Grown` says so.  The types that are new are instances, the types of their fields are all
concrete, and the lists of the families only differ in the new types.

`Grown` also tells which types the new ones refer to.  They come from the parameters that
the call was given, from the types that the fields of templates name, from the lists of
families, and from the new types themselves; a set that holds all of these is `Closed`, and
no construction leads out of it (`stays_specializeWithin`).  The set of templates that a
construction can come to is kept apart, since what is not closed elsewhere may well be closed
for the templates in question.
-/

namespace TypeLayer

/-- The type is an instance that refers to types of the given set only. -/
structure Datatype.Made (good : TypeId → Prop) (t : Datatype) : Prop where
  specialized : t.specialized = true
  params : ∀ p ∈ t.params, good p
  fields : ∀ field ∈ t.fields, ∃ id, field.ty = .concrete id ∧ good id
  layout : t.layout = none

namespace Registry

open TypeLayer.Action

variable {α β : Type} {r r' r'' : Registry} {good : TypeId → Prop} {id generic : TypeId}
  {params : List TypeId}

mutual
/-- The applications in the type of a field, at any depth: what is applied, and to how
many arguments. -/
def applications : FieldTy → List (TypeId × Nat)
  | .concrete _ | .param _ => []
  | .apply generic args => (generic, args.length) :: applicationsAll args
def applicationsAll : List FieldTy → List (TypeId × Nat)
  | [] => []
  | ty :: rest => applications ty ++ applicationsAll rest
end

theorem applicationsAll_eq (tys : List FieldTy) :
    applicationsAll tys = tys.flatMap applications := by
  induction tys with
  | nil => rw [applicationsAll, List.flatMap_nil]
  | cons ty rest ih => rw [applicationsAll, List.flatMap_cons, ih]

theorem mem_applications_apply {p : TypeId × Nat} {args : List FieldTy} :
    p ∈ applications (.apply generic args) ↔
      p = (generic, args.length) ∨ ∃ ty ∈ args, p ∈ applications ty := by
  rw [applications, applicationsAll_eq, List.mem_cons, List.mem_flatMap]

/-! ## Growth -/

/-- The second registry is the first one with new instances, which refer to types of the
given set only. -/
structure Grown (r : Registry) (good : TypeId → Prop) (r' : Registry) : Prop where
  size_le : r.size ≤ r'.size
  families_size : r'.families.size = r.families.size
  names : r'.names = r.names
  kept : ∀ {id : TypeId}, id < r.size → r'.types[id]? = r.types[id]?
  made : ∀ {id : TypeId} {t : Datatype}, r.size ≤ id → r'.types[id]? = some t → t.Made good
  family : ∀ {k : FamilyId} {f' : Family}, r'.families[k]? = some f' →
    ∃ f, r.families[k]? = some f ∧ f.Becomes f' ∧ ∀ p ∈ f'.instances, p ∈ f.instances ∨ r.size ≤ p.2

theorem Grown.refl (r : Registry) (good : TypeId → Prop) : r.Grown good r where
  size_le := Nat.le_refl _
  families_size := rfl
  names := rfl
  kept _ := rfl
  made hid ht := absurd (lt_size ht) (Nat.not_lt_of_le hid)
  family hf := ⟨_, hf, .refl _, fun _ hp => .inl hp⟩

theorem Grown.trans (h : r.Grown good r') (h' : r'.Grown good r'') : r.Grown good r'' where
  size_le := Nat.le_trans h.size_le h'.size_le
  families_size := h'.families_size.trans h.families_size
  names := h'.names.trans h.names
  kept hid := (h'.kept (Nat.lt_of_lt_of_le hid h.size_le)).trans (h.kept hid)
  made {id t} hid ht := by
    by_cases hlt : id < r'.size
    · exact h.made hid ((h'.kept hlt).symm.trans ht)
    · exact h'.made (Nat.le_of_not_lt hlt) ht
  family hf'' := by
    obtain ⟨f', hf', hbecomes', hnew'⟩ := h'.family hf''
    obtain ⟨f, hf, hbecomes, hnew⟩ := h.family hf'
    refine ⟨f, hf, hbecomes.trans hbecomes', fun p hp => ?_⟩
    rcases hnew' p hp with hp | hp
    · exact hnew p hp
    · exact .inr (Nat.le_trans h.size_le hp)

/-- A new type may change as long as it stays as an instance should be. -/
theorem Grown.modifyType {change : Datatype → Datatype} (h : r.Grown good r') (hid : r.size ≤ id)
    (hchange : ∀ t, t.Made good → (change t).Made good) :
    r.Grown good (r'.modifyType id change) where
  size_le := by simpa [Registry.modifyType, size] using h.size_le
  families_size := h.families_size
  names := h.names
  kept hlt := by
    rw [types_modifyType, if_neg (Nat.ne_of_gt (Nat.lt_of_lt_of_le hlt hid))]
    exact h.kept hlt
  made hid' ht' := by
    rcases type_of_modifyType ht' with ⟨-, ht⟩ | ⟨rfl, t, ht, rfl⟩
    · exact h.made hid' ht
    · exact hchange t (h.made hid' ht)
  family := h.family

theorem grown_enlist {k : FamilyId} (hparams : ∀ p ∈ params, good p) :
    r.Grown good (r.enlist k params).2 where
  size_le := by simp [enlist, size, modifyFamily]
  families_size := by simp [enlist, modifyFamily]
  names := rfl
  kept {id} hid := by
    show (r.types.push _)[id]? = r.types[id]?
    exact Array.getElem?_push.trans (if_neg (Nat.ne_of_lt hid))
  made hid ht := by
    replace ht := (Array.getElem?_push ▸ ht :)
    split at ht
    · cases ht
      exact ⟨rfl, hparams, List.forall_mem_nil _, rfl⟩
    · exact absurd (lt_size ht) (Nat.not_lt_of_le hid)
  family hf' := by
    rcases family_of_modifyFamily hf' with ⟨-, hf⟩ | ⟨rfl, f, hf, rfl⟩
    · exact ⟨_, hf, .refl _, fun _ hp => .inl hp⟩
    · refine ⟨f, hf, f.becomes_relisted _, fun p hp => ?_⟩
      rcases List.mem_append.1 hp with hp | hp
      · exact .inl hp
      · obtain rfl := List.mem_singleton.1 hp
        exact .inr (Nat.le_refl _)

theorem Grown.settle {fields : List (String × TypeId)} (h : r.Grown good r') (hid : r.size ≤ id)
    (hfields : ∀ field ∈ fields, good field.2) : r.Grown good (r'.settle id fields) := by
  refine h.modifyType hid fun t ht =>
    ⟨ht.specialized, ht.params, fun field hfield => ?_, ht.layout⟩
  obtain ⟨made, hmade, rfl⟩ := List.mem_map.1 hfield
  exact ⟨made.2, rfl, hfields made hmade⟩

theorem Grown.withdraw {k : FamilyId} (h : r.Grown good r') (hid : r.size ≤ id) :
    r.Grown good (r'.withdraw k id) := by
  refine Grown.modifyType ?_ hid fun t ht => ⟨ht.specialized, ht.params, ht.fields, ht.layout⟩
  refine ⟨h.size_le, ?_, h.names, h.kept, h.made, fun hf' => ?_⟩
  · simpa [modifyFamily] using h.families_size
  rcases family_of_modifyFamily hf' with ⟨-, hf⟩ | ⟨rfl, f, hf, rfl⟩
  · exact h.family hf
  · obtain ⟨f₀, hf₀, hbecomes, hnew⟩ := h.family hf
    refine ⟨f₀, hf₀, hbecomes.trans (f.becomes_relisted _), fun p hp => ?_⟩
    exact hnew p (List.mem_filter.1 hp).1

/-! ## Closed sets -/

/-- Construction from the templates in `within` does not lead out of `good`: new types are in
it, and so are those that a lookup can return and those that a field names; and what a field
applies is in `within` again. -/
structure Closed (r : Registry) (within good : TypeId → Prop) : Prop where
  new : ∀ {id : TypeId}, r.size ≤ id → good id
  self : ∀ {g : TypeId} {t : Datatype}, within g → r.types[g]? = some t → t.specialized = true →
    good g
  listed : ∀ {g : TypeId} {t : Datatype} {f : Family}, within g → r.entry g = .ok (t, f) →
    t.specialized = false → ∀ p ∈ f.instances, good p.2
  named : ∀ {g : TypeId} {t : Datatype}, within g → r.types[g]? = some t → t.specialized = false →
    ∀ field ∈ t.fields, ∀ id ∈ namedTypes field.ty, good id
  applied : ∀ {g : TypeId} {t : Datatype}, within g → r.types[g]? = some t →
    t.specialized = false → ∀ field ∈ t.fields, ∀ p ∈ applications field.ty, within p.1

variable {within : TypeId → Prop}

/-- A template that is there after some growth was there before. -/
theorem Grown.template (h : r.Grown good r') {g : TypeId} {t : Datatype}
    (ht : r'.types[g]? = some t) (hgeneric : t.specialized = false) : r.types[g]? = some t := by
  by_cases hlt : g < r.size
  · exact (h.kept hlt).symm.trans ht
  · have hspecialized := (h.made (Nat.le_of_not_lt hlt) ht).specialized
    rw [hgeneric] at hspecialized
    cases hspecialized

theorem Grown.closed {good' : TypeId → Prop} (h : r.Grown good' r') (hr : r.Closed within good) :
    r'.Closed within good where
  new hid := hr.new (Nat.le_trans h.size_le hid)
  self {g t} hg ht hspecialized := by
    by_cases hlt : g < r.size
    · exact hr.self hg ((h.kept hlt).symm.trans ht) hspecialized
    · exact hr.new (Nat.le_of_not_lt hlt)
  listed hg hentry hgeneric p hp := by
    obtain ⟨ht, hf'⟩ := entry_eq_ok_iff.1 hentry
    obtain ⟨f, hf, -, hnew⟩ := h.family hf'
    rcases hnew p hp with hp | hp
    · exact hr.listed hg (entry_eq_ok_iff.2 ⟨h.template ht hgeneric, hf⟩) hgeneric p hp
    · exact hr.new hp
  named hg ht hgeneric := hr.named hg (h.template ht hgeneric) hgeneric
  applied hg ht hgeneric := hr.applied hg (h.template ht hgeneric) hgeneric

/-- A type that was there is there with its family. -/
theorem Grown.entry (h : r.Grown good r') {t : Datatype} {f : Family}
    (hentry : r.entry id = .ok (t, f)) : ∃ f', r'.entry id = .ok (t, f') ∧ f.Becomes f' := by
  obtain ⟨ht, hf⟩ := entry_eq_ok_iff.1 hentry
  have hlt := (Array.getElem?_eq_some_iff.1 hf).1
  have hf' := Array.getElem?_eq_getElem (h.families_size ▸ hlt)
  obtain ⟨f₀, hf₀, hbecomes, -⟩ := h.family hf'
  obtain rfl := Option.some.inj (hf.symm.trans hf₀)
  exact ⟨_, entry_eq_ok_iff.2 ⟨(h.kept (lt_size ht)).trans ht, hf'⟩, hbecomes⟩

/-! ## Calls that grow a registry -/

/-- Calls that only make the registry grow. -/
def growth (r : Registry) (good : TypeId → Prop) : Contract where
  relies r' := r.Grown good r'
  moves r' r'' := r'.Grown good r''
  refuses r' _ r'' := r'.Grown good r''
  faults _ := True
  refl {r'} _ := .refl r' good
  trans := Grown.trans
  relies_of_moves := Grown.trans
  refuses_of_moves := Grown.trans

/-- The type of a field does not lead out of the sets. -/
def Inside (within good : TypeId → Prop) (ty : FieldTy) : Prop :=
  (∀ id ∈ namedTypes ty, good id) ∧ ∀ p ∈ applications ty, within p.1

section Specialization

variable {apply : TypeId → List TypeId → Register TypeId} {names : List String}

/-- A way to get instances does not lead out of a closed set. -/
def Stays (apply : TypeId → List TypeId → Register TypeId) (r : Registry)
    (within good : TypeId → Prop) : Prop :=
  ∀ {r' : Registry} {generic : TypeId} {params : List TypeId}, r.Grown good r' → within generic →
    (∀ p ∈ params, good p) → (growth r good).Meets r' (apply generic params) fun id _ => good id

theorem Stays.fills (h : Stays apply r within good) (hparams : ∀ p ∈ params, good p) :
    (growth r good).Fills apply names params (fun ty _ => Inside within good ty)
      fun _ id _ => good id where
  fits _ hty := hty
  kept _ hid := hid
  concrete _ hty := hty.1 _ List.mem_cons_self
  param _ _ _ hid := hparams _ (List.mem_of_getElem? hid)
  unknown {r' _} _ _ _ := .refl r' good
  missing _ _ _ := trivial
  args hty _ hmem := ⟨fun id hid => hty.1 id (mem_namedTypes_apply hmem hid),
    fun p hp => hty.2 p (mem_applications_apply.2 (.inr ⟨_, hmem, hp⟩))⟩
  apply hgrown hty hids :=
    h hgrown (hty.2 _ (mem_applications_apply.2 (.inl rfl)))
      (forall_mem_of_forall₂ hids fun _ _ _ hid => hid)

theorem meets_growth_build (happly : Stays apply r within good) {template : Datatype}
    {family : Family} (hr : r.Closed within good) (hgrown : r.Grown good r')
    (hwithin : within generic) (htemplate : r.types[generic]? = some template)
    (hgeneric : template.specialized = false) (hparams : ∀ p ∈ params, good p) :
    (growth r good).Meets r' (build apply template family params) fun id _ => good id := by
  have hlisted : r'.Grown good (r'.enlist template.family params).2 := grown_enlist hparams
  refine Contract.meets_build (Contract.meets_instanceFields (happly.fills hparams)
    (hgrown.trans hlisted) fun field hfield => ?_) ?_ ?_
  · exact ⟨hr.named hwithin htemplate hgeneric field hfield,
      hr.applied hwithin htemplate hgeneric field hfield⟩
  · intro fields r₁ _ hgrown₁ hfields
    exact ⟨Grown.settle (hlisted.trans hgrown₁) (Nat.le_refl _)
      (forall_mem_of_forall₂ hfields fun _ _ _ h => h.2), hr.new hgrown.size_le⟩
  · intro e r₁ _ hgrown₁
    exact Grown.withdraw (hlisted.trans hgrown₁) (Nat.le_refl _)

end Specialization

/-- Specialization does not lead out of a closed set. -/
theorem stays_specializeWithin (hr : r.Closed within good) (depth : Nat) :
    Stays (specializeWithin depth) r within good := by
  induction depth with
  | zero =>
    intro r' generic params _ _ _
    exact Contract.meets_specializeWithin_zero trivial
  | succ depth ih =>
    intro r' generic params hgrown hwithin hparams
    have hr' := hgrown.closed hr
    refine Contract.meets_specializeWithin_succ hgrown (fun _ _ => trivial) ?_
      (fun _ _ _ _ _ => .refl r' good) (fun _ _ _ _ _ _ => .refl r' good) ?_ ?_
    · intro t f hentry hspecialized _
      exact hr'.self hwithin (entry_eq_ok_iff.1 hentry).1 hspecialized
    · intro t f id hentry hgeneric _ hlisted
      exact hr'.listed hwithin hentry hgeneric _ (mem_instances hlisted)
    · intro t f hentry hgeneric _ _
      exact meets_growth_build ih hr hgrown hwithin
        (hgrown.template (entry_eq_ok_iff.1 hentry).1 hgeneric) hgeneric hparams

theorem stays_specialize (hr : r.Closed within good) : Stays specialize r within good :=
  fun hgrown hwithin hparams => stays_specializeWithin hr _ hgrown hwithin hparams

/-- The answer to a request does not lead out of a closed set, if the types in scope and
the declared types are in it. -/
theorem growth_answers {scope : Assoc String TypeId} (hr : r.Closed within good)
    (hscope : ∀ name id, scope.get? name = some id → good id) (htuple : within Builtin.tuple)
    (hmethod : within Builtin.method) (hnamed : ∀ name id, r.lookup name = some id → within id) :
    (growth r good).AnswersAlike scope within fun id _ => good id where
  kept _ hid := hid
  refuses {r' _} _ := .refl r' good
  scope _ hname := hscope _ _ hname
  tuple := htuple
  method := hmethod
  named {r' name id} hgrown hid := by
    rw [lookup, hgrown.names] at hid
    exact hnamed name id hid
  specialize := stays_specialize hr

theorem growth_state {x : Register α} {V : α → Registry → Prop} (h : (growth r good).Meets r x V)
    (hrun : (x r).state? = some r') : r.Grown good r' :=
  h.state (fun _ h => h) (fun _ _ h => h) hrun

/-- The set of all types is closed. -/
theorem closed_true (r : Registry) : r.Closed (fun _ => True) fun _ => True := by
  constructor <;> intros <;> trivial

theorem grown_specialize (h : (specialize generic params r).state? = some r') :
    r.Grown (fun _ => True) r' :=
  growth_state (stays_specialize r.closed_true (.refl r _) trivial fun _ _ => trivial) h

theorem grown_denote {e : TypeExpr} {scope : Assoc String TypeId}
    (h : (denote e scope r).state? = some r') : r.Grown (fun _ => True) r' := by
  refine growth_state (Contract.meets_denote (growth_answers r.closed_true ?_ ?_ ?_ ?_)
    (.refl r _) e) h
  · exact fun _ _ _ => trivial
  · trivial
  · trivial
  · exact fun _ _ _ => trivial

end Registry

end TypeLayer
