import TypeLayer.Proofs.Nominal.Memory
import TypeLayer.Proofs.Nominal.Withdrawal

/-!
# Why a type has no layout

Lowering walks over the members that are stored in place: from an object to its fields, from a
tuple to its items, and nowhere else.  `walk` lists the types that it comes by.  From one member to
the next the types get older, so that the walk ends, and whatever is proved along it is proved by
`Evolved.placed_induction`.

`defect?` says what is wrong with a type itself.  `Judged` compares a call with a list of types: it
returns if there is no defect in the list, and else is refused for the first one.  A type is judged
by itself first, and then by one member after the other (`judging_lowers`), and so lowering is
judged by its walk (`judged_plainWithin`).

Among members in place, none has been withdrawn: for that a type must have fields, and only objects
have (`Reachable.fieldless`).
-/

namespace TypeLayer

def FieldTy.isConcrete : FieldTy → Bool
  | .concrete _ => true
  | .param _ | .apply _ _ => false

namespace Registry

open TypeLayer.Action TypeLayer.Outcome

variable {α β : Type} {r r' : Registry} {id x : TypeId} {t : Datatype} {f : Family}

/-! ## Only objects are withdrawn -/

/-- What is no object has no fields, and so nothing for which it could be withdrawn. -/
def Fieldless (r : Registry) : Prop :=
  ∀ (id : TypeId) (t : Datatype) (f : Family), r.entry id = .ok (t, f) → f.style ≠ .object →
    t.fields = [] ∧ t.progress ≠ .failed

theorem Fieldless.modifyType {change : Datatype → Datatype} (hr : r.Fieldless)
    (hfamily : ∀ t, (change t).family = t.family)
    (hchange : ∀ {t : Datatype} {f : Family}, r.entry id = .ok (t, f) → f.style ≠ .object →
      (change t).fields = [] ∧ (change t).progress ≠ .failed) :
    (r.modifyType id change).Fieldless := by
  intro x t' f hentry' hstyle
  obtain ⟨ht', hf⟩ := entry_eq_ok_iff.1 hentry'
  rcases type_of_modifyType ht' with ⟨-, ht⟩ | ⟨rfl, t, ht, rfl⟩
  · exact hr x _ _ (entry_eq_ok_iff.2 ⟨ht, hf⟩) hstyle
  · rw [hfamily] at hf
    exact hchange (entry_eq_ok_iff.2 ⟨ht, hf⟩) hstyle

theorem entry_of_modifyFamily {k : FamilyId} {change : Family → Family}
    (h : (r.modifyFamily k change).entry id = .ok (t, f))
    (hchange : ∀ f, (change f).style = f.style) :
    ∃ f₀, r.entry id = .ok (t, f₀) ∧ f.style = f₀.style := by
  obtain ⟨ht, hf⟩ := entry_eq_ok_iff.1 h
  rcases family_of_modifyFamily hf with ⟨-, hf⟩ | ⟨-, f₀, hf₀, rfl⟩
  · exact ⟨f, entry_eq_ok_iff.2 ⟨ht, hf⟩, rfl⟩
  · exact ⟨f₀, entry_eq_ok_iff.2 ⟨ht, hf₀⟩, hchange f₀⟩

/-- A new type has no fields yet. -/
theorem Fieldless.enlist (hr : r.Fieldless) (k : FamilyId) (params : List TypeId) :
    (r.enlist k params).2.Fieldless := by
  intro x t' f' hentry' hstyle
  obtain ⟨ht', hf'⟩ := entry_eq_ok_iff.1 hentry'
  replace ht' := (Array.getElem?_push ▸ ht' :)
  split at ht'
  · cases ht'
    exact ⟨rfl, by simp⟩
  · have hrelisted : (r.modifyFamily k fun f =>
        { f with instances := f.instances ++ [(params, r.size)] }).entry x = .ok (t', f') :=
      entry_eq_ok_iff.2 ⟨ht', hf'⟩
    obtain ⟨f, hentry, hf⟩ := entry_of_modifyFamily hrelisted fun _ => rfl
    exact hr x t' f hentry (hf ▸ hstyle)

/-- Only an object may be withdrawn. -/
theorem Fieldless.withdraw (hr : r.Fieldless) (k : FamilyId)
    (hobject : ∀ {t : Datatype} {f : Family}, r.entry id = .ok (t, f) → f.style = .object) :
    (r.withdraw k id).Fieldless := by
  refine Fieldless.modifyType ?_ (fun _ => rfl) fun hentry hstyle => ?_
  · intro x t f hentry hstyle
    obtain ⟨f₀, hentry₀, hf⟩ := entry_of_modifyFamily hentry fun _ => rfl
    exact hr x t f₀ hentry₀ (hf ▸ hstyle)
  · obtain ⟨f₀, hentry₀, hf⟩ := entry_of_modifyFamily hentry fun _ => rfl
    exact absurd (hf.trans (hobject hentry₀)) hstyle

theorem Fieldless.declare (hr : r.Fieldless) (hwf : r.WellFormed) (d : Declaration) :
    (r.declare d).Fieldless := by
  intro x t' f' hentry' hstyle
  obtain ⟨ht', hf'⟩ := entry_eq_ok_iff.1 hentry'
  replace ht' := (Array.getElem?_push ▸ ht' :)
  split at ht'
  · cases ht'
    exact ⟨rfl, by simp⟩
  · replace hf' := (Array.getElem?_push ▸ hf' :)
    rw [if_neg (Nat.ne_of_lt (hwf.family_known ht'))] at hf'
    exact hr x _ _ (entry_eq_ok_iff.2 ⟨ht', hf'⟩) hstyle

/-- Calls that make the registry grow and withdraw nothing but objects. -/
def fieldlessness : Contract where
  relies r := r.Fieldless
  moves r r' := r.Grown (fun _ => True) r' ∧ r'.Fieldless
  refuses r _ r' := r.Grown (fun _ => True) r' ∧ r'.Fieldless
  faults _ := True
  refl {r} hr := ⟨.refl r _, hr⟩
  trans h h' := ⟨h.1.trans h'.1, h'.2⟩
  relies_of_moves _ h := h.2
  refuses_of_moves h h' := ⟨h.1.trans h'.1, h'.2⟩

/-- An instance of a template with fields is an object, which may be withdrawn. -/
theorem meets_fieldlessness_build {apply : TypeId → List TypeId → Register TypeId}
    (happly : ∀ {r : Registry} (generic : TypeId) (params : List TypeId), r.Fieldless →
      fieldlessness.Meets r (apply generic params) fun _ _ => True)
    (hr : r.Fieldless) (hentry : r.entry id = .ok (t, f)) (params : List TypeId) :
    fieldlessness.Meets r (build apply t f params) fun _ _ => True := by
  have hlisted : r.Grown (fun _ => True) (r.enlist t.family params).2 :=
    grown_enlist fun _ _ => trivial
  have hr₁ := hr.enlist t.family params
  by_cases hobject : f.style = .object
  · have hfills : fieldlessness.Fills apply f.paramNames params (fun _ _ => True)
        fun _ _ _ => True :=
      { fits _ _ := trivial
        kept _ _ := trivial
        concrete _ _ := trivial
        param _ _ _ _ := trivial
        unknown {r _} hr _ _ := ⟨.refl r _, hr⟩
        missing _ _ _ := trivial
        args _ _ _ := trivial
        apply hr _ _ := happly _ _ hr }
    -- The new type belongs to the family of its template.
    have hnew : ∀ {r' : Registry} {t' : Datatype} {f' : Family},
        (r.enlist t.family params).2.Grown (fun _ => True) r' → r'.entry r.size = .ok (t', f') →
          f'.style = .object := by
      intro r' t' f' hgrown hentry'
      obtain ⟨ht', hf'⟩ := entry_eq_ok_iff.1 hentry'
      obtain rfl := Option.some.inj (ht'.symm.trans hgrown.type_enlisted)
      obtain ⟨f₀, hf₀, hbecomes, -⟩ := (hlisted.trans hgrown).family hf'
      obtain rfl := Option.some.inj ((entry_eq_ok_iff.1 hentry).2.symm.trans hf₀)
      exact hbecomes.style.trans hobject
    refine Contract.meets_build (Contract.meets_instanceFields hfills hr₁ fun _ _ => trivial)
      ?_ ?_
    · intro fields r' _ hmoves _
      refine ⟨⟨(hlisted.trans hmoves.1).settle (Nat.le_refl _) fun _ _ => trivial, ?_⟩, trivial⟩
      exact hmoves.2.modifyType (fun _ => rfl)
        fun hentry' hstyle => absurd (hnew hmoves.1 hentry') hstyle
    · intro e r' _ hrefused
      refine ⟨(hlisted.trans hrefused.1).withdraw (Nat.le_refl _), ?_⟩
      exact hrefused.2.withdraw t.family (hnew hrefused.1)
  · have hbuild : build apply t f params r =
        .ok r.size ((r.enlist t.family params).2.settle r.size []) := by
      unfold build
      rw [(hr id t f hentry hobject).1]
      rfl
    unfold Contract.Meets
    rw [hbuild]
    refine ⟨⟨hlisted.settle (Nat.le_refl _) (List.forall_mem_nil _), ?_⟩, trivial⟩
    exact hr₁.modifyType (fun _ => rfl) fun _ _ => ⟨rfl, by simp⟩

theorem meets_fieldlessness_specializeWithin (depth : Nat) (hr : r.Fieldless) (generic : TypeId)
    (params : List TypeId) :
    fieldlessness.Meets r (specializeWithin depth generic params) fun _ _ => True := by
  induction depth generalizing r generic params with
  | zero => exact Contract.meets_specializeWithin_zero trivial
  | succ depth ih =>
    have hrefused : ∀ e, fieldlessness.refuses r e r := fun _ => ⟨.refl r _, hr⟩
    exact Contract.meets_specializeWithin_succ hr (fun _ _ => trivial) (fun _ _ _ _ _ => trivial)
      (fun _ _ _ _ _ => hrefused _) (fun _ _ _ _ _ _ => hrefused _) (fun _ _ _ _ _ _ _ => trivial)
      fun _ _ hentry _ _ _ =>
        meets_fieldlessness_build (fun generic params hr => ih hr generic params) hr hentry params

theorem fieldlessness_answers (scope : Assoc String TypeId) :
    fieldlessness.AnswersAlike scope (fun _ => True) fun _ _ => True where
  kept _ _ := trivial
  refuses {r _} hr := ⟨.refl r _, hr⟩
  scope _ _ := trivial
  tuple := trivial
  method := trivial
  named _ _ := trivial
  specialize hr _ _ := meets_fieldlessness_specializeWithin _ hr _ _

theorem Operation.fieldless {op : Operation} (hwf : r.WellFormed) (hr : r.Fieldless)
    (h : op.after r = some r') : r'.Fieldless := by
  have hdeclare : ∀ {d : Declaration}, (declareNew d r).state? = some r' → r'.Fieldless := by
    intro d h
    rcases declareNew_cases h with rfl | rfl
    · exact hr.declare hwf d
    · exact hr
  have hmeets : ∀ {x : Register TypeId}, fieldlessness.Meets r x (fun _ _ => True) →
      (x r).state? = some r' → r'.Fieldless := fun hx h =>
    hx.state (fun _ h => h.2) (fun _ _ h => h.2) h
  have hspecialize : ∀ {generic : TypeId} {params : List TypeId},
      (Registry.specialize generic params r).state? = some r' → r'.Fieldless :=
    fun h => hmeets (x := Registry.specialize _ _)
      (meets_fieldlessness_specializeWithin _ hr _ _) h
  cases op with
  | create | createInteger | createFloat => exact hdeclare h
  | addField id name ty =>
    rcases addField_cases h with ⟨t, f, hentry, hobject, -, rfl⟩ | rfl
    · refine hr.modifyType (fun _ => rfl) fun hentry' hstyle => ?_
      obtain ⟨-, rfl⟩ := eq_of_entry hentry hentry'
      exact absurd hobject hstyle
    · exact hr
  | specialize | tuple | union | method | slice => exact hspecialize h
  | denote e scope => exact hmeets (Contract.meets_denote (fieldlessness_answers scope) hr e) h
  | fields id =>
    exact (keeps_query (P := Fieldless) (·.fields id)).state hr h
  | layout id =>
    intro x t' f hentry' hstyle
    obtain ⟨t, hentry, heq⟩ := entry_of_unlaid (unlaid_layout h) hentry'
    rw [heq]
    exact hr x t f hentry hstyle

theorem Reachable.fieldless (hr : r.Reachable) : r.Fieldless := by
  induction hr with
  | refl =>
    intro id t f hentry _
    have hall : ∀ t ∈ initial.types, t.fields = [] ∧ t.progress ≠ .failed := by decide
    exact hall t (Array.mem_of_getElem? (entry_eq_ok_iff.1 hentry).1)
  | tail hreach hop ih =>
    obtain ⟨op, -, hafter⟩ := hop
    exact op.fieldless (Reachable.evolved hreach).wellFormed ih hafter

/-- What is no object is complete from the start. -/
theorem Reachable.progress_of_inPlace (hr : r.Reachable) (hentry : r.entry id = .ok (t, f))
    (hplaced : InPlace f) : t.progress = .ready := by
  cases hprogress : t.progress with
  | building =>
    exact absurd hprogress (hr.evolved.progress_ne_building (entry_eq_ok_iff.1 hentry).1)
  | ready => rfl
  | failed => exact absurd hprogress (hr.fieldless id t f hentry hplaced).2

/-! ## The walk over members in place -/

/-- The members of a type that lowering asks for. -/
def members (t : Datatype) (f : Family) : List TypeId :=
  match f.style with
  | .object => ((concreteFields? t.fields).getD []).map Prod.snd
  | .tuple => t.params
  | .integer | .floating | .method | .union | .slice => []

/-- Whether a member of this type is stored in place. -/
def isPlaced (r : Registry) (id : TypeId) : Bool :=
  match r.family id with
  | .ok f => f.style ≠ .object
  | .error _ => false

/-- The members of a type that are stored in place, in order. -/
def placed (r : Registry) (t : Datatype) (f : Family) : List TypeId :=
  (members t f).filter r.isPlaced

/-- The types that are met on the way from a type over members in place: the type itself, and then
all that is met from one member after the other; with a bound on the nesting of members. -/
def walkWithin (r : Registry) : Nat → TypeId → List TypeId
  | 0, _ => []
  | depth + 1, id =>
    match r.entry id with
    | .ok (t, f) => id :: (r.placed t f).flatMap (r.walkWithin depth)
    | .error _ => []

/-- The same without a bound: members in place nest at most as deep as there are types. -/
def walk (r : Registry) (id : TypeId) : List TypeId :=
  r.walkWithin (r.size + 1) id

theorem isPlaced_iff : r.isPlaced x = true ↔ ∃ t f, r.entry x = .ok (t, f) ∧ InPlace f := by
  unfold isPlaced InPlace
  cases hfamily : r.family x with
  | ok f =>
    obtain ⟨t, hentry⟩ := family_eq_ok_iff.1 hfamily
    simp [hentry]
  | error fault =>
    simp only [Bool.false_eq_true, false_iff]
    rintro ⟨t, f, hentry, -⟩
    rw [family_eq_ok_iff.2 ⟨t, hentry⟩] at hfamily
    cases hfamily

/-- From a member in place the walk goes on to older types only. -/
theorem Evolved.mem_placed (hr : initial.Evolved r) (hentry : r.entry id = .ok (t, f))
    (hx : x ∈ r.placed t f) :
    x < r.size ∧ (InPlace f → x < id) ∧ ∃ u g, r.entry x = .ok (u, g) ∧ InPlace g := by
  obtain ⟨hmember, hplaced⟩ := List.mem_filter.1 hx
  obtain ⟨u, g, hentryx, hg⟩ := isPlaced_iff.1 hplaced
  refine ⟨lt_size (entry_eq_ok_iff.1 hentryx).1, fun hf => ?_, u, g, hentryx, hg⟩
  unfold members at hmember
  cases hstyle : f.style with
  | object => exact absurd hstyle hf
  | tuple =>
    rw [hstyle] at hmember
    exact hr.wellFormed.params_older (entry_eq_ok_iff.1 hentry).1 x hmember
  | integer | floating | method | union | slice =>
    rw [hstyle] at hmember
    cases hmember

/-- To prove something of a type, prove it from the same for the members that the type has in place.
Among these the members are older, so that the proof is by induction on their numbers, and one step
more for an object. -/
theorem Evolved.placed_induction {P : TypeId → Prop} (hr : initial.Evolved r)
    (h : ∀ id t f, r.entry id = .ok (t, f) → (∀ x ∈ r.placed t f, P x) → P id)
    (hid : id < r.size) : P id := by
  have hplaced : ∀ x u g, r.entry x = .ok (u, g) → InPlace g → P x := by
    intro x
    induction x using Nat.strongRecOn with
    | ind x ih =>
      intro u g hentry hg
      refine h x u g hentry fun y hy => ?_
      obtain ⟨-, holder, v, k, hentryy, hk⟩ := hr.mem_placed hentry hy
      exact ih y (holder hg) v k hentryy hk
  obtain ⟨t, f, hentry⟩ := hr.wellFormed.exists_entry hid
  refine h id t f hentry fun x hx => ?_
  obtain ⟨-, -, u, g, hentryx, hg⟩ := hr.mem_placed hentry hx
  exact hplaced x u g hentryx hg

/-- The bound is beyond all that is met on the way from the type. -/
def Beyond (r : Registry) (depth : Nat) (id : TypeId) : Prop :=
  id < depth ∧ (r.isPlaced id = true ∨ r.size < depth)

theorem Evolved.beyond_of_mem_placed {depth : Nat} (hr : initial.Evolved r)
    (hentry : r.entry id = .ok (t, f)) (h : r.Beyond (depth + 1) id) (hx : x ∈ r.placed t f) :
    r.Beyond depth x := by
  obtain ⟨hlt, holder, u, g, hentryx, hg⟩ := hr.mem_placed hentry hx
  refine ⟨?_, .inl (isPlaced_iff.2 ⟨u, g, hentryx, hg⟩)⟩
  rcases h with ⟨hid, hplaced | hsize⟩
  · obtain ⟨t', f', hentry', hf⟩ := isPlaced_iff.1 hplaced
    obtain ⟨-, rfl⟩ := eq_of_entry hentry hentry'
    exact Nat.lt_of_lt_of_le (holder hf) (Nat.le_of_lt_succ hid)
  · exact Nat.lt_of_lt_of_le hlt (Nat.le_of_lt_succ hsize)

theorem walkWithin_succ (hentry : r.entry id = .ok (t, f)) (depth : Nat) :
    r.walkWithin (depth + 1) id = id :: (r.placed t f).flatMap (r.walkWithin depth) := by
  rw [walkWithin, hentry]

/-- All bounds that are far enough give the same walk. -/
theorem Evolved.walkWithin_eq (hr : initial.Evolved r) (hid : id < r.size) :
    ∀ depth depth', r.Beyond depth id → r.Beyond depth' id →
      r.walkWithin depth id = r.walkWithin depth' id := by
  refine hr.placed_induction (P := fun id => ∀ depth depth', r.Beyond depth id →
    r.Beyond depth' id → r.walkWithin depth id = r.walkWithin depth' id) ?_ hid
  intro id t f hentry ih depth depth' h h'
  obtain ⟨depth, rfl⟩ := Nat.exists_eq_add_one_of_ne_zero (Nat.ne_zero_of_lt h.1)
  obtain ⟨depth', rfl⟩ := Nat.exists_eq_add_one_of_ne_zero (Nat.ne_zero_of_lt h'.1)
  rw [walkWithin_succ hentry, walkWithin_succ hentry]
  congr 1
  refine List.flatMap_congr fun x hx => ?_
  exact ih x hx depth depth' (hr.beyond_of_mem_placed hentry h hx)
    (hr.beyond_of_mem_placed hentry h' hx)

/-- The walk is depth-first, from left to right. -/
theorem Evolved.walk_eq (hr : initial.Evolved r) (hentry : r.entry id = .ok (t, f)) :
    r.walk id = id :: (r.placed t f).flatMap r.walk := by
  have hid := lt_size (entry_eq_ok_iff.1 hentry).1
  have hbeyond : r.Beyond (r.size + 1) id :=
    ⟨Nat.lt_succ_of_lt hid, .inr (Nat.lt_succ_self _)⟩
  rw [walk, walkWithin_succ hentry]
  congr 1
  refine List.flatMap_congr fun x hx => ?_
  have hlt := (hr.mem_placed hentry hx).1
  exact hr.walkWithin_eq hlt _ _ (hr.beyond_of_mem_placed hentry hbeyond hx)
    ⟨Nat.lt_succ_of_lt hlt, .inr (Nat.lt_succ_self _)⟩

/-- Behind its first type, a walk meets only types that are stored in place. -/
theorem Evolved.isPlaced_of_mem_walk (hr : initial.Evolved r) (hid : id < r.size) :
    ∀ x ∈ (r.walk id).tail, r.isPlaced x = true := by
  refine hr.placed_induction (P := fun id => ∀ x ∈ (r.walk id).tail, r.isPlaced x = true) ?_ hid
  intro id t f hentry ih x hx
  rw [hr.walk_eq hentry, List.tail_cons] at hx
  obtain ⟨y, hy, hxy⟩ := List.mem_flatMap.1 hx
  obtain ⟨-, -, u, g, hentryy, hg⟩ := hr.mem_placed hentry hy
  have htail := ih y hy
  rw [hr.walk_eq hentryy] at hxy htail
  rcases List.mem_cons.1 hxy with rfl | hxy
  · exact isPlaced_iff.2 ⟨u, g, hentryy, hg⟩
  · exact htail x hxy

/-! ## Defects -/

/-- Why the type has no layout, apart from its members: it is a template or was withdrawn, it is an
object with a field that is not concrete, or it is a float of a width that there is not. -/
def ownDefect? (t : Datatype) (f : Family) : Option DatatypeError :=
  if t.specialized = false ∨ t.progress = .failed then some (.unspecializedLowering f.name)
  else
    match f.style with
    | .object =>
      if t.fields.all (·.ty.isConcrete) then none else some (.unspecializedFields f.name)
    | .floating =>
      if f.bits = 32 ∨ f.bits = 64 then none else some (.invalidFloatWidth f.name f.bits)
    | .integer | .union | .tuple | .method | .slice => none

def defect? (r : Registry) (id : TypeId) : Option DatatypeError :=
  match r.entry id with
  | .ok (t, f) => ownDefect? t f
  | .error _ => none

theorem defect?_eq (hentry : r.entry id = .ok (t, f)) : r.defect? id = ownDefect? t f := by
  rw [defect?, hentry]

/-- Between calls a type can be used or is refused. -/
theorem Evolved.usable_cases (hr : initial.Evolved r) (ht : r.types[id]? = some t) :
    usable t = .ok true ∧ t.specialized = true ∧ t.progress = .ready ∨
      usable t = .ok false ∧ (t.specialized = false ∨ t.progress = .failed) := by
  unfold usable
  cases hspecialized : t.specialized with
  | false => simp
  | true =>
    cases hprogress : t.progress with
    | building => exact absurd hprogress (hr.progress_ne_building ht)
    | ready => simp
    | failed => simp

theorem concreteFields?_eq_none {fields : List Field} (h : fields.all (·.ty.isConcrete) = false) :
    concreteFields? fields = none := by
  cases hmade : concreteFields? fields with
  | none => rfl
  | some made =>
    rw [concreteFields?_eq_some_iff.1 hmade] at h
    simp [FieldTy.isConcrete] at h

theorem exists_concreteFields_of_all {fields : List Field}
    (h : fields.all (·.ty.isConcrete) = true) : ∃ made, concreteFields? fields = some made := by
  refine exists_concreteFields fun field hfield => ?_
  have hty := List.all_eq_true.1 h field hfield
  cases hfieldty : field.ty with
  | concrete id => exact ⟨id, rfl⟩
  | param | apply =>
    rw [hfieldty] at hty
    cases hty

/-! ## Lowering is refused for the first defect -/

/-- Calls leave the registry as it is, and are refused only for the first defect in the list. -/
def judging (r : Registry) (walk : List TypeId) : Contract where
  relies s := s = r
  moves _ s := s = r
  refuses _ e s := s = r ∧ walk.findSome? r.defect? = some e
  faults _ := False
  refl h := h
  trans _ h := h
  relies_of_moves _ h := h
  refuses_of_moves _ h := h

/-- The call leaves the registry as it is. It returns if nothing that is met has a defect, and is
refused for the first defect that is met. -/
def Judged (r : Registry) (walk : List TypeId) (x : Register α) : Prop :=
  (judging r walk).Meets r x fun _ _ => walk.findSome? r.defect? = none

theorem map_snd_numbered (params : List TypeId) : (numbered params).map Prod.snd = params := by
  rw [numbered, List.map_map]
  exact List.zipIdx_map_fst 0 params

theorem HasMembers.map_snd {ms : List (String × TypeId)} (h : r.HasMembers id t f ms)
    (hr : initial.Evolved r) (hentry : r.entry id = .ok (t, f)) :
    ms.map Prod.snd = members t f := by
  unfold HasMembers at h
  unfold members
  cases hstyle : f.style with
  | object =>
    rw [hstyle] at h
    rcases fields_cases hr hentry with ⟨made, hmade, hconcrete⟩ | ⟨e, he⟩
    · rw [hconcrete, Except.ok.inj (h.symm.trans hmade)]
      rfl
    · cases h.symm.trans he
  | tuple =>
    rw [hstyle] at h
    rw [h]
    exact map_snd_numbered t.params
  | integer | floating | method | union | slice =>
    rw [hstyle] at h
    rw [h]
    rfl

/-- A member in place is one of those that the walk goes on to. -/
theorem HasMembers.mem_placed {ms : List (String × TypeId)} {m : String × TypeId}
    (h : r.HasMembers id t f ms) (hr : initial.Evolved r) (hentry : r.entry id = .ok (t, f))
    (hm : m ∈ ms) (hplaced : r.isPlaced m.2 = true) : m.2 ∈ r.placed t f :=
  List.mem_filter.2 ⟨h.map_snd hr hentry ▸ List.mem_map_of_mem hm, hplaced⟩

/-- A type that has its members, and the width of a float, has no defect of its own. -/
theorem HasMembers.ownDefect? {ms : List (String × TypeId)} (h : r.HasMembers id t f ms)
    (hr : initial.Evolved r) (hentry : r.entry id = .ok (t, f))
    (hspecialized : t.specialized = true) (hready : t.progress = .ready)
    (hwidth : f.style = .floating → f.bits = 32 ∨ f.bits = 64) :
    Registry.ownDefect? t f = none := by
  rw [Registry.ownDefect?, if_neg (by simp [hspecialized, hready])]
  cases hstyle : f.style with
  | object =>
    rw [HasMembers, hstyle] at h
    dsimp only
    cases hall : t.fields.all (·.ty.isConcrete) with
    | true => rfl
    | false =>
      rcases fields_cases hr hentry with ⟨made, -, hconcrete⟩ | ⟨e, he⟩
      · cases (concreteFields?_eq_none hall).symm.trans hconcrete
      · cases h.symm.trans he
  | floating => exact if_pos (hwidth hstyle)
  | integer | union | tuple | method | slice => rfl

/-- An object that is refused its fields has one whose type is not concrete. -/
theorem ownDefect?_of_fields {e : DatatypeError} (hr : initial.Evolved r)
    (hentry : r.entry id = .ok (t, f)) (hspecialized : t.specialized = true)
    (hready : t.progress = .ready) (hstyle : f.style = .object)
    (he : r.fields id = Query.fail e) : ownDefect? t f = some e := by
  have hfields := fields_eq_of_usable hr hentry hspecialized fun hwithdrawn => by
    obtain ⟨t', ht', hfailed⟩ := hwithdrawn
    obtain rfl := Option.some.inj ((entry_eq_ok_iff.1 hentry).1.symm.trans ht')
    cases hready.symm.trans hfailed
  cases hmade : concreteFields? t.fields with
  | some made =>
    rw [hmade] at hfields
    cases hfields.symm.trans he
  | none =>
    rw [hmade] at hfields
    cases hfields.symm.trans he
    have hall : ¬ t.fields.all (·.ty.isConcrete) = true := by
      intro hall
      obtain ⟨made, hmade'⟩ := exists_concreteFields_of_all hall
      cases hmade.symm.trans hmade'
    rw [ownDefect?, if_neg (by simp [hspecialized, hready]), hstyle]
    exact if_neg hall

/-- What is met from members one after the other. -/
def walkAll (r : Registry) (ms : List (String × TypeId)) : List TypeId :=
  ((ms.map Prod.snd).filter r.isPlaced).flatMap r.walk

theorem walkAll_append (ms ms' : List (String × TypeId)) :
    r.walkAll (ms ++ ms') = r.walkAll ms ++ r.walkAll ms' := by
  rw [walkAll, List.map_append, List.filter_append, List.flatMap_append, ← walkAll, ← walkAll]

theorem walkAll_singleton (m : String × TypeId) :
    r.walkAll [m] = if r.isPlaced m.2 then r.walk m.2 else [] := by
  rw [walkAll, List.map_singleton, List.filter_singleton]
  cases r.isPlaced m.2 with
  | true => exact List.flatMap_singleton r.walk m.2
  | false => rfl

/-- The walk goes over the members that a type has. -/
theorem HasMembers.walk_eq {ms : List (String × TypeId)} (h : r.HasMembers id t f ms)
    (hr : initial.Evolved r) (hentry : r.entry id = .ok (t, f)) :
    r.walk id = id :: r.walkAll ms := by
  rw [hr.walk_eq hentry, placed, walkAll, h.map_snd hr hentry]

section Members

variable {layoutOf : TypeId → Register Layout}

/-- A member in place is judged by its walk, and with it the type, as long as there was no defect
before. The slot of an object is a reference, for which nothing is asked. -/
theorem judged_slotOf {m : String × TypeId} {before : List TypeId} (after : List TypeId)
    (hr : r.WellFormed) (hm : m.2 < r.size)
    (h : r.isPlaced m.2 = true → Judged r (r.walk m.2) (layoutOf m.2))
    (hbefore : before.findSome? r.defect? = none) :
    (judging r (before ++ (r.walkAll [m] ++ after))).Meets r (slotOf layoutOf m.1 m.2)
      fun _ _ => (before ++ r.walkAll [m]).findSome? r.defect? = none := by
  obtain ⟨t, f, hentry⟩ := hr.exists_entry hm
  have hfamily : r.family m.2 = .ok f := family_eq_ok_iff.2 ⟨t, hentry⟩
  rw [walkAll_singleton]
  refine Contract.meets_slotOf rfl (fun fault hfault => ?_) (fun g hg hobject => ?_)
    fun g hg hplaced => ?_
  · cases hfamily.symm.trans hfault
  · have hreference : r.isPlaced m.2 = false := by simp [isPlaced, hg, hobject]
    rw [hreference, if_neg Bool.false_ne_true, List.append_nil]
    exact hbefore
  · have hplaced : r.isPlaced m.2 = true := by simp [isPlaced, hg, hplaced]
    rw [if_pos hplaced, List.findSome?_append, hbefore, Option.none_or]
    refine (h hplaced).under (fun _ hs => hs) (fun e s hrefused => ⟨hrefused.1, ?_⟩)
      fun _ hfault => hfault
    rw [List.findSome?_append, hbefore, Option.none_or, List.findSome?_append, hrefused.2]
    rfl

/-- A type with a defect of its own is refused for it, whatever its members are. -/
theorem judging_refuses {e : DatatypeError} (hr : initial.Evolved r)
    (hentry : r.entry id = .ok (t, f)) (he : ownDefect? t f = some e) :
    (judging r (r.walk id)).refuses r e r := by
  refine ⟨rfl, ?_⟩
  rw [hr.walk_eq hentry, List.findSome?_cons, defect?_eq hentry, he]

/-- The slot of a member is judged with the type, when the members before it have no defect. -/
theorem HasMembers.judged_slotOf {before after : List (String × TypeId)} {m : String × TypeId}
    (hmembers : r.HasMembers id t f (before ++ m :: after)) (hr : initial.Evolved r)
    (hentry : r.entry id = .ok (t, f)) (hspecialized : t.specialized = true)
    (hready : t.progress = .ready)
    (h : ∀ x ∈ r.placed t f, Judged r (r.walk x) (layoutOf x))
    (hbefore : (r.walkAll before).findSome? r.defect? = none) :
    (judging r (r.walk id)).Meets r (slotOf layoutOf m.1 m.2)
      fun _ _ => (r.walkAll (before ++ [m])).findSome? r.defect? = none := by
  have hm : m ∈ before ++ m :: after := List.mem_append_cons_self
  -- What has members is no float, and so no width is wrong.
  have hown : r.defect? id = none := by
    rw [defect?_eq hentry]
    refine hmembers.ownDefect? hr hentry hspecialized hready fun hstyle => ?_
    rcases hmembers.mem_cases hm with ⟨hobject, -⟩ | ⟨htuple, -⟩
    · cases hobject.symm.trans hstyle
    · cases htuple.symm.trans hstyle
  have hdone : (id :: r.walkAll before).findSome? r.defect? = none := by
    rw [List.findSome?_cons, hown]
    exact hbefore
  rw [hmembers.walk_eq hr hentry, List.append_cons, walkAll_append, walkAll_append,
    List.append_assoc, ← List.cons_append]
  refine (Registry.judged_slotOf (r.walkAll after) hr.wellFormed (hmembers.lt_size hr hentry hm)
    (fun hplaced => h m.2 (hmembers.mem_placed hr hentry hm hplaced)) hdone).mono
    fun _ _ _ hnone => ?_
  rw [List.cons_append, List.findSome?_cons, hown] at hnone
  exact hnone

/-- The type is judged by the defects of its own first, and then by its members in place. -/
theorem judging_lowers (hr : initial.Evolved r) (hentry : r.entry id = .ok (t, f))
    (hspecialized : t.specialized = true) (hready : t.progress = .ready)
    (h : ∀ x ∈ r.placed t f, Judged r (r.walk x) (layoutOf x)) :
    (judging r (r.walk id)).Lowers layoutOf r id t f (fun _ _ => True)
      fun before _ => (r.walkAll before).findSome? r.defect? = none := by
  have hid := lt_size (entry_eq_ok_iff.1 hentry).1
  constructor
  case relies => rfl
  case start => rfl
  case member =>
    rintro r' before after m hmembers rfl hbefore
    exact (hmembers.judged_slotOf hr hentry hspecialized hready h hbefore).mono
      fun _ _ _ hnone => ⟨trivial, hnone⟩
  case refused =>
    exact fun hstyle he => judging_refuses hr hentry
      (ownDefect?_of_fields hr hentry hspecialized hready hstyle he)
  case unanswered => exact fun _ hfault => fields_ne_fault hr hid _ hfault
  case width =>
    intro hstyle hwidth
    refine judging_refuses hr hentry ?_
    rw [ownDefect?, if_neg (by simp [hspecialized, hready]), hstyle]
    exact if_neg hwidth
  case missing => exact fun hstyle => hr.slice_params hentry hspecialized hstyle
  case unnamed =>
    rintro r' fault rfl hfault
    obtain ⟨name, hname⟩ := exists_display hr hid
    cases hname.symm.trans hfault

theorem judged_lower (hr : initial.Evolved r) (hentry : r.entry id = .ok (t, f))
    (hspecialized : t.specialized = true) (hready : t.progress = .ready)
    (h : ∀ x ∈ r.placed t f, Judged r (r.walk x) (layoutOf x)) :
    Judged r (r.walk id) (lower layoutOf id t f) := by
  refine (Contract.meets_lower (judging_lowers hr hentry hspecialized hready h)).mono ?_
  rintro l r' - ⟨ms, hmembers, hlowered, hdone⟩
  rw [hmembers.walk_eq hr hentry, List.findSome?_cons, defect?_eq hentry,
    hmembers.ownDefect? hr hentry hspecialized hready hlowered.width]
  exact hdone

end Members

/-- The induction is along the walk. -/
theorem judged_plainWithin (hr : initial.Evolved r) (hid : id < r.size) :
    ∀ depth, r.Beyond depth id → Judged r (r.walk id) (plainWithin depth id) := by
  refine hr.placed_induction (P := fun id => ∀ depth, r.Beyond depth id →
    Judged r (r.walk id) (plainWithin depth id)) ?_ hid
  intro id t f hentry ih depth hbeyond
  obtain ⟨depth, rfl⟩ := Nat.exists_eq_add_one_of_ne_zero (Nat.ne_zero_of_lt hbeyond.1)
  rcases hr.usable_cases (entry_eq_ok_iff.1 hentry).1 with ⟨husable, hspecialized, hready⟩ |
    ⟨husable, hunusable⟩
  · refine Contract.Meets.congr ?_ (plainWithin_usable hentry husable)
    refine judged_lower hr hentry hspecialized hready fun x hx => ?_
    exact ih x hx depth (hr.beyond_of_mem_placed hentry hbeyond hx)
  · refine Contract.Meets.congr (Contract.meets_fail ⟨rfl, ?_⟩)
      (plainWithin_unusable hentry husable)
    rw [hr.walk_eq hentry, List.findSome?_cons, defect?_eq hentry, ownDefect?, if_pos hunusable]

/-- Whatever calls were made, working out a layout comes to an end, also if the types of fields go
round in circles. It is refused exactly if there is a defect on the walk over members in place, and
then with the error of the first one. The walk is depth-first, from left to right, and behind the
type itself it meets only types that are no objects and were not withdrawn, so that these are
refused as templates or for their width only. -/
theorem layout_refused_iff (hr : r.Reachable) (hentry : r.entry id = .ok (t, f))
    (hnone : t.layout = none) :
    (layout id r).Returns ∧
    (∀ e, (∃ r', layout id r = .error e r') ↔ (r.walk id).findSome? r.defect? = some e) ∧
    (∀ x u g, r.entry x = .ok (u, g) → r.walk x = x :: (r.placed u g).flatMap r.walk) ∧
    ∀ x ∈ (r.walk id).tail, ∃ u g, r.entry x = .ok (u, g) ∧ g.style ≠ .object ∧
      u.progress = .ready := by
  have hevolved := hr.evolved
  have hid := lt_size (entry_eq_ok_iff.1 hentry).1
  refine ⟨returns_layout hevolved hid, fun e => ?_, fun x u g hx => hevolved.walk_eq hx,
    fun x hx => ?_⟩
  · have hjudged := judged_plainWithin hevolved hid (r.size + 1)
      ⟨Nat.lt_succ_of_lt hid, .inr (Nat.lt_succ_self _)⟩
    have hplain := hr.layout_plain hentry (.inr hnone) (Nat.lt_succ_self r.size)
    rw [← result?_eq_error_iff, hplain]
    cases hrun : plainWithin (r.size + 1) id r with
    | ok l s =>
      rw [(hjudged.ok hrun).2]
      simp [result?]
    | error e' s =>
      rw [(hjudged.error hrun).2]
      simp [result?]
    | fault fault => exact (hjudged.fault hrun).elim
  · obtain ⟨u, g, hx, hplaced⟩ := isPlaced_iff.1 (hevolved.isPlaced_of_mem_walk hid x hx)
    exact ⟨u, g, hx, hplaced, hr.progress_of_inPlace hx hplaced⟩

/-- An object that refers to itself, and has a tuple in place in which are a float of 16 bits and,
in another tuple, the template of slices. -/
def flawed : Registry :=
  Operation.build
    [.create "Node" none [], .createFloat "Half" 16, .tuple [Builtin.slice],
     .tuple [Builtin.int, 13, 14], .addField 12 "next" (.concrete 12),
     .addField 12 "pair" (.concrete 15)]

/-- The object is refused for the float, which is met before the template; without the float, it is
the template that is refused. -/
theorem layout_refused_iff_flawed :
    flawed.Reachable ∧ flawed.walk 12 = [12, 15, Builtin.int, 13, 14, Builtin.slice] ∧
      (∃ r', layout 12 flawed = .error (.invalidFloatWidth "Half" 16) r') ∧
      ∃ r', layout 14 flawed = .error (.unspecializedLowering "Slice") r' := by
  have hr : flawed.Reachable := reachable_build _
  have hnone : ∀ t ∈ flawed.types, t.layout = none := by decide +kernel
  have hunlaid : ∀ id < flawed.size, ∃ t f, flawed.entry id = .ok (t, f) ∧ t.layout = none := by
    intro id hid
    obtain ⟨t, f, hentry⟩ := hr.evolved.wellFormed.exists_entry hid
    exact ⟨t, f, hentry, hnone t (Array.mem_of_getElem? (entry_eq_ok_iff.1 hentry).1)⟩
  obtain ⟨t, f, hentry, hlayout⟩ := hunlaid 12 (by decide +kernel)
  obtain ⟨t', f', hentry', hlayout'⟩ := hunlaid 14 (by decide +kernel)
  refine ⟨hr, by decide +kernel, ?_, ?_⟩
  · exact ((layout_refused_iff hr hentry hlayout).2.1 _).2 (by decide +kernel)
  · exact ((layout_refused_iff hr hentry' hlayout').2.1 _).2 (by decide +kernel)

end Registry

end TypeLayer
