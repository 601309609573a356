import TypeLayer.Nominal.Written
import TypeLayer.Proofs.Nominal.Subtyping

/-!
# The order of the types

The types of a registry lie in the order in which they were made, and what the walks
over them follow leads back in that order: the parameters of a type and the chain of its
supertypes.  The types of fields may come later, or lead back to their owner, but no walk
follows them further than one step: a field that holds an object is a reference, and any
other layout in place goes on through parameters only.

So the walks end: the written forms and the image of a type by induction on its number,
its layout by the same induction for everything but objects (`places_layoutWithin`), and
for objects one step beyond it (`returns_layout`).
-/

namespace TypeLayer.Registry

open TypeLayer.Action TypeLayer.Outcome

variable {α β : Type} {r r' : Registry} {id : TypeId} {t : Datatype} {f : Family} {depth : Nat}

/-! ## Written forms -/

/-- What holds of all types within a bound holds of the parameters of the next one. -/
theorem WellFormed.forall_params {P : TypeId → Prop} (hr : r.WellFormed)
    (ht : r.types[id]? = some t) (hdepth : id < depth + 1)
    (h : ∀ p, p < r.size → p < depth → P p) : ∀ p ∈ t.params, P p := by
  intro p hp
  have hlt := hr.params_older ht p hp
  exact h p (Nat.lt_trans hlt (lt_size ht)) (Nat.lt_of_lt_of_le hlt (Nat.le_of_lt_succ hdepth))

/-- The shown form of a type, for those of its parameters. -/
def shownOf (t : Datatype) (f : Family) (texts : List String) : String :=
  if t.specialized then
    match f.style with
    | .integer | .floating => f.name
    | .method =>
      "Fn" ++ Text.braced ((if (Application.list texts.tail).isEmpty then " : "
        else Application.list texts.tail ++ " : ") ++ texts.headD "")
    | .object | .union | .tuple | .slice => Application.plain f.name texts
  else Application.plain f.name f.paramNames

theorem shownOf_becomes {t' : Datatype} {f' : Family} (ht : t.Becomes t') (hf : f.Becomes f')
    (texts : List String) : shownOf t' f' texts = shownOf t f texts := by
  unfold shownOf
  rw [ht.specialized, hf.style, hf.name, hf.paramNames]

theorem displayWithin_succ_eq_ok {texts : List String} (hentry : r.entry id = .ok (t, f))
    (hmethod : t.specialized = true → f.style = .method → t.params ≠ [])
    (htexts : List.Forall₂ (fun p text => r.displayWithin depth p = .ok text) t.params texts) :
    r.displayWithin (depth + 1) id = .ok (shownOf t f texts) := by
  rw [displayWithin, hentry]
  unfold shownOf
  simp only [bind, Except.bind]
  by_cases hspecialized : t.specialized = true
  · rw [if_pos hspecialized, if_pos hspecialized]
    cases hstyle : f.style with
    | integer | floating => rfl
    | method =>
      cases ht : t.params with
      | nil => exact absurd ht (hmethod hspecialized hstyle)
      | cons result args =>
        rw [ht] at htexts
        cases htexts with
        | cons hresult hargs =>
          dsimp only
          rw [mapM_eq_ok hargs, hresult]
          rfl
    | object | union | tuple | slice =>
      dsimp only
      rw [mapM_eq_ok htexts]
      rfl
  · rw [if_neg hspecialized, if_neg hspecialized]
    rfl

/-- The types of the style are those of the built-in family. -/
theorem Evolved.method_params_of_style (hr : initial.Evolved r) (hentry : r.entry id = .ok (t, f))
    (hspecialized : t.specialized = true) (hstyle : f.style = .method) : t.params ≠ [] :=
  hr.method_params hentry hspecialized
    (hr.wellFormed.reserved (entry_eq_ok_iff.1 hentry).2 "Fn" (by rw [hstyle]; rfl))

/-- The shown form is the same for all bounds that suffice, also when the registry has
grown. -/
theorem exists_displayWithin (hr : initial.Evolved r) (hid : id < r.size) :
    ∃ text, ∀ (r' : Registry) (depth : Nat), r.Extends r' → id < depth →
      r'.displayWithin depth id = .ok text := by
  induction id using Nat.strongRecOn with
  | ind id ih =>
    obtain ⟨t, f, hentry⟩ := hr.wellFormed.exists_entry hid
    have holder := hr.wellFormed.params_older (entry_eq_ok_iff.1 hentry).1
    obtain ⟨texts, htexts⟩ : ∃ texts, List.Forall₂ (fun p text => p < id ∧
        ∀ (r' : Registry) (depth : Nat), r.Extends r' → p < depth →
          r'.displayWithin depth p = .ok text) t.params texts := by
      refine exists_forall₂ fun p hp => ?_
      obtain ⟨text, htext⟩ := ih p (holder p hp) (Nat.lt_trans (holder p hp) hid)
      exact ⟨text, holder p hp, htext⟩
    refine ⟨shownOf t f texts, fun r' depth hextends hdepth => ?_⟩
    obtain ⟨t', f', hentry', hbecomes, hbecomes'⟩ := hextends.entry hentry
    obtain ⟨depth, rfl⟩ := Nat.exists_eq_add_one_of_ne_zero (Nat.ne_zero_of_lt hdepth)
    rw [← shownOf_becomes hbecomes hbecomes']
    refine displayWithin_succ_eq_ok hentry' ?_ ?_
    · rw [hbecomes.specialized, hbecomes.params, hbecomes'.style]
      exact hr.method_params_of_style hentry
    · rw [hbecomes.params]
      refine htexts.imp fun p text hp => ?_
      exact hp.2 r' depth hextends (Nat.lt_of_lt_of_le hp.1 (Nat.le_of_lt_succ hdepth))

theorem exists_display (hr : initial.Evolved r) (hid : id < r.size) :
    ∃ text, r.display id = .ok text := by
  obtain ⟨text, htext⟩ := exists_displayWithin hr hid
  exact ⟨text, htext r _ (.refl r) (Nat.lt_succ_of_lt hid)⟩

/-- The shown form of a type is made of the shown forms of its parameters. -/
theorem display_eq_ok {texts : List String} (hr : initial.Evolved r)
    (hentry : r.entry id = .ok (t, f))
    (htexts : List.Forall₂ (fun p text => r.display p = .ok text) t.params texts) :
    r.display id = .ok (shownOf t f texts) := by
  have ht := (entry_eq_ok_iff.1 hentry).1
  refine displayWithin_succ_eq_ok hentry (hr.method_params_of_style hentry) ?_
  -- The bound for the parameters is one less than that of `display`.
  refine ((List.forall₂_and_left _ _).2 ⟨hr.wellFormed.params_older ht, htexts⟩).imp ?_
  intro p text hp
  have hlt : p < r.size := Nat.lt_trans hp.1 (lt_size ht)
  obtain ⟨shown, hshown⟩ := exists_displayWithin hr hlt
  have heq : r.display p = .ok shown := hshown r _ (.refl r) (Nat.lt_succ_of_lt hlt)
  rw [hshown r _ (.refl r) hlt, ← heq]
  exact hp.2

/-- A type keeps its shown form as the registry grows. -/
theorem Extends.display_eq (hextends : r.Extends r') (hr : initial.Evolved r) (hid : id < r.size) :
    r'.display id = r.display id := by
  obtain ⟨text, htext⟩ := exists_displayWithin hr hid
  rw [display, display, htext r' _ hextends (Nat.lt_succ_of_lt (hextends.lt_size hid)),
    htext r _ (.refl r) (Nat.lt_succ_of_lt hid)]

/-- What follows the stem of a mangled name, for the mangled names of the parameters. -/
def mangledSuffix (names : List String) : String :=
  if names.isEmpty then ""
  else "$" ++ counted (String.join (names.map fun name => "_" ++ counted name))

theorem mangledWithin_succ_eq_ok {names : List String} (hentry : r.entry id = .ok (t, f))
    (hnames : List.Forall₂ (fun p name => r.mangledWithin depth p = .ok name) t.params names) :
    r.mangledWithin (depth + 1) id =
      .ok ((mangledNumber? f).getD (mangledStem f ++ mangledSuffix names)) := by
  rw [mangledWithin, hentry]
  simp only [bind, Except.bind, mapM_eq_ok hnames]
  cases mangledNumber? f with
  | some name => rfl
  | none =>
    cases ht : t.params with
    | nil =>
      rw [ht, List.forall₂_nil_left_iff] at hnames
      rw [hnames]
      exact congrArg Except.ok String.append_empty.symm
    | cons p rest =>
      rw [ht] at hnames
      cases hnames
      exact congrArg Except.ok String.append_assoc

/-- The mangled form is the same for all bounds that suffice. -/
theorem exists_mangledWithin (hr : r.WellFormed) (hid : id < r.size) :
    ∃ text, ∀ depth, id < depth → r.mangledWithin depth id = .ok text := by
  induction id using Nat.strongRecOn with
  | ind id ih =>
    obtain ⟨t, f, hentry⟩ := hr.exists_entry hid
    have holder := hr.params_older (entry_eq_ok_iff.1 hentry).1
    obtain ⟨names, hnames⟩ : ∃ names, List.Forall₂ (fun p name => p < id ∧
        ∀ depth, p < depth → r.mangledWithin depth p = .ok name) t.params names := by
      refine exists_forall₂ fun p hp => ?_
      obtain ⟨name, hname⟩ := ih p (holder p hp) (Nat.lt_trans (holder p hp) hid)
      exact ⟨name, holder p hp, hname⟩
    refine ⟨(mangledNumber? f).getD (mangledStem f ++ mangledSuffix names), fun depth hdepth => ?_⟩
    cases depth with
    | zero => exact absurd hdepth (Nat.not_lt_zero _)
    | succ depth =>
      refine mangledWithin_succ_eq_ok hentry (hnames.imp fun p name hp => ?_)
      exact hp.2 depth (Nat.lt_of_lt_of_le hp.1 (Nat.le_of_lt_succ hdepth))

theorem exists_mangled (hr : r.WellFormed) (hid : id < r.size) :
    ∃ text, r.mangled id = .ok text := by
  obtain ⟨text, htext⟩ := exists_mangledWithin hr hid
  exact ⟨text, htext _ (Nat.lt_succ_of_lt hid)⟩

/-! ## Fields -/

theorem Evolved.exists_usable (hr : initial.Evolved r) (ht : r.types[id]? = some t) :
    ∃ answer, usable t = .ok answer := by
  unfold usable
  split
  · cases hprogress : t.progress with
    | building => exact absurd ⟨t, ht, hprogress⟩ (hr.not_building id)
    | ready | failed => exact ⟨_, rfl⟩
  · exact ⟨_, rfl⟩

theorem mem_concreteFields? {fields : List Field} {made : List (String × TypeId)}
    (h : concreteFields? fields = some made) {m : String × TypeId} (hm : m ∈ made) :
    ⟨m.1, .concrete m.2⟩ ∈ fields := by
  induction fields generalizing made with
  | nil =>
    obtain rfl := Option.some.inj h
    exact absurd hm List.not_mem_nil
  | cons field rest ih =>
    obtain ⟨name, ty⟩ := field
    cases ty with
    | concrete id =>
      rw [concreteFields?] at h
      obtain ⟨made', hmade', rfl⟩ := Option.map_eq_some_iff.1 h
      rcases List.mem_cons.1 hm with rfl | hm
      · exact List.mem_cons_self
      · exact List.mem_cons_of_mem _ (ih hmade' hm)
    | param | apply => cases h

theorem WellFormed.lt_size_of_made (hr : r.WellFormed) (ht : r.types[id]? = some t)
    {made : List (String × TypeId)} (hmade : concreteFields? t.fields = some made)
    {m : String × TypeId} (hm : m ∈ made) : m.2 < r.size :=
  hr.fields_known ht _ (mem_concreteFields? hmade hm) m.2 (by simp [namedTypes])

/-- The fields of a type are its own, unless they are refused. -/
theorem fields_cases (hr : initial.Evolved r) (hentry : r.entry id = .ok (t, f)) :
    (∃ made, r.fields id = .ok made ∧ concreteFields? t.fields = some made) ∨
      ∃ e, r.fields id = Query.fail e := by
  obtain ⟨answer, husable⟩ := hr.exists_usable (entry_eq_ok_iff.1 hentry).1
  unfold fields
  rw [hentry]
  simp only [Query.ofExcept, Except.mapError, bind, Except.bind, husable]
  cases answer with
  | false => exact .inr ⟨_, rfl⟩
  | true =>
    cases hmade : concreteFields? t.fields with
    | none => exact .inr ⟨_, rfl⟩
    | some made => exact .inl ⟨made, rfl, rfl⟩

/-! ## Layouts -/

theorem fields_ne_fault (hr : initial.Evolved r) (hid : id < r.size) (fault : Fault) :
    r.fields id ≠ .error (.fault fault) := by
  intro h
  obtain ⟨t, f, hentry⟩ := hr.wellFormed.exists_entry hid
  rcases fields_cases hr hentry with ⟨made, hmade, -⟩ | ⟨e, he⟩
  · cases h.symm.trans hmade
  · cases h.symm.trans he

/-- The members of a type are types of the registry. -/
theorem HasMembers.lt_size {ms : List (String × TypeId)} {m : String × TypeId}
    (h : r.HasMembers id t f ms) (hr : initial.Evolved r) (hentry : r.entry id = .ok (t, f))
    (hm : m ∈ ms) : m.2 < r.size := by
  have ht := (entry_eq_ok_iff.1 hentry).1
  rcases h.mem_cases hm with ⟨-, hmade⟩ | ⟨-, hp⟩
  · rcases fields_cases hr hentry with ⟨made, hmade', hconcrete⟩ | ⟨e, he⟩
    · obtain rfl := Except.ok.inj (hmade.symm.trans hmade')
      exact hr.wellFormed.lt_size_of_made ht hconcrete hm
    · cases hmade.symm.trans he
  · exact Nat.lt_trans (hr.wellFormed.params_older ht _ hp) (Registry.lt_size ht)

/-- Calls move a registry by changes, as in `evolution`, and are not at fault. -/
def returning : Contract where
  relies r := initial.Evolved r
  moves := Evolved
  refuses r _ r' := r.Evolved r'
  faults _ := False
  refl h := h.wellFormed.evolved
  trans := Evolved.trans
  relies_of_moves := Evolved.trans
  refuses_of_moves := Evolved.trans

/-- The way to get layouts comes back for all types within a bound that are stored in
place. -/
def Places (layoutOf : TypeId → Register Layout) (bound : Nat) : Prop :=
  ∀ (r : Registry) (id : TypeId) (t : Datatype) (f : Family), initial.Evolved r →
    r.entry id = .ok (t, f) → f.style ≠ .object → id < bound →
      returning.Meets r (layoutOf id) fun _ _ => True

theorem returns_slotOf {layoutOf : TypeId → Register Layout} {bound : Nat} {name : String}
    (hplaces : Places layoutOf bound) (hr : initial.Evolved r) (hid : id < r.size)
    (hbound : id < bound) : returning.Meets r (slotOf layoutOf name id) fun _ _ => True := by
  obtain ⟨t, f, hentry⟩ := hr.wellFormed.exists_entry hid
  have hfamily : r.family id = .ok f := by rw [family, hentry]; rfl
  refine Contract.meets_slotOf hr (fun fault hfault => ?_) (fun _ _ _ => trivial)
    fun f' hf' hstyle => ?_
  · cases hfamily.symm.trans hfault
  · obtain rfl := Except.ok.inj (hfamily.symm.trans hf')
    exact hplaces r id t f hr hentry hstyle hbound

/-- A type can be lowered if its members can that are stored in place: the parameters of
a tuple, and the fields of an object, which may be any types of the registry. -/
theorem Places.lowers {layoutOf : TypeId → Register Layout} {bound : Nat}
    (hplaces : Places layoutOf bound) (hr : initial.Evolved r) (hentry : r.entry id = .ok (t, f))
    (hspecialized : t.specialized = true) (hparams : ∀ p ∈ t.params, p < bound)
    (hfields : f.style = .object → r.size ≤ bound) :
    returning.Lowers layoutOf r id t f (fun _ _ => True) fun _ _ => True where
  relies := hr
  start := trivial
  member {r' before after m} hmembers hevolved _ := by
    have hlt := hmembers.lt_size hr hentry List.mem_append_cons_self
    have hbound : m.2 < bound := by
      rcases hmembers.mem_cases List.mem_append_cons_self with ⟨hstyle, -⟩ | ⟨-, hp⟩
      · exact Nat.lt_of_lt_of_le hlt (hfields hstyle)
      · exact hparams _ hp
    exact (returns_slotOf hplaces (hr.trans hevolved) (hevolved.extends.lt_size hlt) hbound).mono
      fun _ _ _ _ => ⟨trivial, trivial⟩
  refused _ _ := hr.wellFormed.evolved
  unanswered _ hfault := fields_ne_fault hr (lt_size (entry_eq_ok_iff.1 hentry).1) _ hfault
  width _ _ := hr.wellFormed.evolved
  missing hstyle := hr.slice_params hentry hspecialized hstyle
  unnamed hevolved hfault := by
    obtain ⟨name, hname⟩ := exists_display (hr.trans hevolved)
      (hevolved.extends.lt_size (lt_size (entry_eq_ok_iff.1 hentry).1))
    cases hname.symm.trans hfault

theorem returns_layoutWithin_succ (hplaces : Places (layoutWithin depth) depth)
    (hr : initial.Evolved r) (hentry : r.entry id = .ok (t, f))
    (hparams : ∀ p ∈ t.params, p < depth) (hfields : f.style = .object → r.size ≤ depth) :
    returning.Meets r (layoutWithin (depth + 1) id) fun _ _ => True := by
  refine Contract.meets_layoutWithin_succ hr ?_ (fun _ _ _ _ _ => trivial) ?_
    (fun _ _ _ _ => hr.wellFormed.evolved) ?_
  · intro fault hfault
    cases hentry.symm.trans hfault
  · intro t' f' fault hentry' hfault
    obtain ⟨answer, husable⟩ := hr.exists_usable (entry_eq_ok_iff.1 hentry').1
    cases husable.symm.trans hfault
  · intro t' f' hentry' _ husable
    obtain ⟨rfl, rfl⟩ := eq_of_entry hentry hentry'
    have hspecialized : t.specialized = true := by
      by_contra hgeneric
      rw [usable, if_neg hgeneric] at husable
      cases husable
    refine (Contract.meets_lower (hplaces.lowers hr hentry hspecialized hparams hfields)).mono
      fun l r' hevolved _ => ⟨?_, trivial⟩
    exact hevolved.wellFormed.evolved.step .setLayout fun _ => building_modifyType fun _ => rfl

/-- Everything but objects has a layout within a bound beyond its number. -/
theorem places_layoutWithin (depth : Nat) : Places (layoutWithin depth) depth := by
  induction depth with
  | zero =>
    intro r id t f _ _ _ hid
    exact absurd hid (Nat.not_lt_zero _)
  | succ depth ih =>
    intro r id t f hr hentry hstyle hid
    have hparams := hr.wellFormed.forall_params (entry_eq_ok_iff.1 hentry).1 hid fun p _ hp => hp
    exact returns_layoutWithin_succ ih hr hentry hparams fun hobject => absurd hobject hstyle

theorem returns_layout (hr : initial.Evolved r) (hid : id < r.size) :
    (layout id r).Returns := by
  obtain ⟨t, f, hentry⟩ := hr.wellFormed.exists_entry hid
  have hparams := hr.wellFormed.forall_params (entry_eq_ok_iff.1 hentry).1 (Nat.lt_succ_of_lt hid)
    fun p hp _ => hp
  exact (returns_layoutWithin_succ (places_layoutWithin r.size) hr hentry hparams
    fun _ => Nat.le_refl _).returns fun _ hfault => hfault

/-! ## The order as a whole -/

theorem not_fault_of_tells {x : Ask Bool} {P E : Prop} (h : Tells x P E) (fault : Fault) :
    x ≠ .error (.fault fault) := by
  rintro rfl
  exact h

/-- Whatever calls were made, the types lie in order.  Parameters are older than the
type, and the supertype is older than the family, so that chains of supertypes end in
`Any` and have each family once; names lead to declared types, of which each name has
one; the numbers of parameters are as declared, and fields have distinct names.  It
follows that no walk over the types is at fault. -/
theorem types_wellFounded (hr : r.Reachable) :
    (∀ id < r.size, ∃ t f, r.entry id = .ok (t, f) ∧
      (∀ p ∈ t.params, p < id) ∧
      (id ≠ Builtin.any → f.supertype < f.template ∧ f.template ≤ id) ∧
      (∃ c, r.Chain id c ∧ c.getLast? = some Builtin.any ∧
        (c.map fun m => r.types[m]?.map Datatype.family).Nodup) ∧
      (t.specialized = true → (f.name = "Fn" → t.params ≠ []) ∧
        (f.variadic = false → t.params.length = f.paramNames.length)) ∧
      (t.fields.map Field.name).Nodup) ∧
    (∀ name id, r.lookup name = some id ↔
      ∃ (k : FamilyId) (f : Family), r.families[k]? = some f ∧ f.name = name ∧ f.template = id) ∧
    (∀ (k k' : FamilyId) (f f' : Family), r.families[k]? = some f → r.families[k']? = some f' →
      f.name = f'.name → k = k') ∧
    ∀ id < r.size, (∃ text, r.display id = .ok text) ∧ (∃ text, r.mangled id = .ok text) ∧
      (∃ u, r.image id = .ok u) ∧ (∀ fault, r.fields id ≠ .error (.fault fault)) ∧
      (layout id r).Returns ∧
      ∀ b < r.size, ∀ fault, r.subtype id b ≠ .error (.fault fault) := by
  have hr := hr.evolved
  have hwf := hr.wellFormed
  refine ⟨fun id hid => ?_, fun name id => hr.founded.lookup_eq_some_iff, ?_, fun id hid => ?_⟩
  · obtain ⟨t, f, hentry⟩ := hwf.exists_entry hid
    have ht := (entry_eq_ok_iff.1 hentry).1
    obtain ⟨c, hc⟩ := exists_chain hr hid
    refine ⟨t, f, hentry, hwf.params_older ht, fun hne => ?_, ⟨c, hc, hc.any_getLast?, hc.nodup hr⟩,
      fun hspecialized => ⟨?_, ?_⟩, hwf.fields_distinct ht⟩
    · obtain ⟨hlt, hle, -⟩ := hr.supertype hentry hne
      exact ⟨hlt, hle⟩
    · exact hr.method_params hentry hspecialized
    · exact hr.founded.length_params hentry hspecialized
  · intro k k' f f' hf hf' hname
    exact (hr.founded.eq_of_name hf hf' hname).1
  · refine ⟨exists_display hr hid, exists_mangled hwf hid, exists_image hwf hid,
      fields_ne_fault hr hid, returns_layout hr hid, fun b hb => ?_⟩
    exact not_fault_of_tells (tells_subtype hr hid hb)

/-- Of the types, 15 is an instance of `Odd` that was withdrawn; 16 and 17 are
`List{Odd{Int}}` and a method that returns it, and 18 is an object under 16 with 17 as a
field. -/
def orphaned : Registry :=
  Operation.build
    [.create "List" none ["T"], .addField 12 "next" (.apply 12 [.param "T"]),
     .slice Builtin.int, .create "Odd" none ["T"], .addField 14 "own" (.apply 14 [.param "T"]),
     .addField 14 "odd" (.apply 13 [.param "T"]), .specialize 14 [Builtin.int],
     .specialize 12 [15], .method 16 [13], .create "Deep" (some 16) [],
     .addField 18 "method" (.concrete 17)]

theorem types_wellFounded_orphaned :
    orphaned.Reachable ∧ 18 < orphaned.size ∧
      orphaned.types[15]?.map Datatype.progress = some .failed ∧
      (∃ c, orphaned.Chain 18 c ∧ c.getLast? = some Builtin.any ∧
        (c.map fun m => orphaned.types[m]?.map Datatype.family).Nodup) ∧
      (∃ text, orphaned.display 17 = .ok text) ∧ (layout 18 orphaned).Returns := by
  have hreachable : orphaned.Reachable := reachable_build _
  have h18 : 18 < orphaned.size := by decide +kernel
  obtain ⟨horder, -, -, hwalks⟩ := types_wellFounded hreachable
  obtain ⟨t, f, -, -, -, hchain, -⟩ := horder 18 h18
  refine ⟨hreachable, h18, by decide +kernel, hchain, ?_, (hwalks 18 h18).2.2.2.2.1⟩
  exact (hwalks 17 (Nat.lt_of_succ_lt h18)).1

end TypeLayer.Registry
