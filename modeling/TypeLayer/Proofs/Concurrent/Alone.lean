import TypeLayer.Proofs.Concurrent.Specializing

/-!
# A call by itself

A call whose steps are not interleaved with others comes to what `specialize` gives: it returns
the same type or passes on the same error, and leaves the same registry (`runs_specialize`).

The statements follow the recursion of `specialize`, and hold for all sites below: to work out
the type of a field, the call goes from beginning with it to passing on the type, with the
same sites as before.  Where it passes on an error instead, applications may be left pending at
the innermost site.  They do not matter, since that site is withdrawn next.
-/

namespace TypeLayer.Registry.Specializing

open TypeLayer.Action

variable {r r' : Registry} {g generic : TypeId} {ps params : List TypeId} {site : Site}
  {sites : List Site}

/-- The call, by itself, goes from one state to the other. -/
abbrev Runs : Call × Registry → Call × Registry → Prop :=
  Call.program.Runs

/-- The call comes to pass on an error, while the innermost site is the given one. -/
def Breaks (s : Call × Registry) (g : TypeId) (ps : List TypeId) (site : Site) (sites : List Site)
    (e : DatatypeError) (r : Registry) : Prop :=
  ∃ site', site'.id = site.id ∧ site'.family = site.family ∧
    Runs s (⟨g, ps, site' :: sites, .refuse e⟩, r)

theorem Breaks.head {s s' : Call × Registry} {e : DatatypeError}
    (h : Breaks s' g ps site sites e r) (hruns : Runs s s') : Breaks s g ps site sites e r := by
  obtain ⟨site', hid, hfamily, hbreaks⟩ := h
  exact ⟨site', hid, hfamily, hruns.trans hbreaks⟩

/-- The call comes to pass on how another one ended, with the given sites. -/
def Delivers (s : Call × Registry) (g : TypeId) (ps : List TypeId) (sites : List Site)
    (o : Outcome Registry DatatypeError TypeId) : Prop :=
  o.Meets (fun id r => Runs s (⟨g, ps, sites, .give id⟩, r))
    (fun e r => Runs s (⟨g, ps, sites, .refuse e⟩, r))

theorem Delivers.head {s s' : Call × Registry} {o : Outcome Registry DatatypeError TypeId}
    (h : Delivers s' g ps sites o) (hruns : Runs s s') : Delivers s g ps sites o :=
  h.mono (fun _ _ hgive => hruns.trans hgive) fun _ _ hrefuse => hruns.trans hrefuse

/-- A nested search comes to what the way to get instances gives. -/
def Performs (apply : TypeId → List TypeId → Register TypeId) : Prop :=
  ∀ (g : TypeId) (ps : List TypeId) (sites : List Site) (generic : TypeId) (params : List TypeId)
    (r : Registry), Delivers (⟨g, ps, sites, .seek generic params true⟩, r) g ps sites
      (apply generic params r)

/-! ## Fields -/

section Fields

variable {apply : TypeId → List TypeId → Register TypeId}

/-- The state in which a call begins with the type of a field. -/
def beginning (g : TypeId) (ps : List TypeId) (site : Site) (sites : List Site) (ty : FieldTy) :
    Call :=
  (⟨g, ps, site :: sites, .fill⟩ : Call).evaluate site sites ty

/-- The state in which a call works out the arguments of an application. -/
def applying (g : TypeId) (ps : List TypeId) (site : Site) (sites : List Site) (generic : TypeId)
    (done : List TypeId) (rest : List FieldTy) : Call :=
  ⟨g, ps, { site with pending := ⟨generic, done, rest⟩ :: site.pending } :: sites, .fill⟩

theorem runs_fieldTypes {tys : List FieldTy}
    (hfieldType : ∀ ty ∈ tys, ∀ (site : Site) (r : Registry),
      (fieldType apply site.names site.params ty r).Meets
        (fun id r' => Runs (beginning g ps site sites ty, r) (⟨g, ps, site :: sites, .give id⟩, r'))
        (Breaks (beginning g ps site sites ty, r) g ps site sites))
    (generic : TypeId) (done : List TypeId) (r : Registry) :
    (fieldTypes apply site.names site.params tys r).Meets
      (fun ids r' => Runs (applying g ps site sites generic done tys, r)
        (applying g ps site sites generic (done ++ ids) [], r'))
      (Breaks (applying g ps site sites generic done tys, r) g ps site sites) := by
  induction tys generalizing done r with
  | nil =>
    rw [fieldTypes, pure_apply]
    show Runs _ _
    rw [List.append_nil]
  | cons ty rest ih =>
    rw [List.forall_mem_cons] at hfieldType
    rw [fieldTypes]
    have hfirst := hfieldType.1
      { site with pending := ⟨generic, done, ty :: rest⟩ :: site.pending } r
    have hstart : Runs (applying g ps site sites generic done (ty :: rest), r) (beginning g ps
        { site with pending := ⟨generic, done, ty :: rest⟩ :: site.pending } sites ty, r) :=
      .single rfl
    refine meets_bind (hfirst.mono (fun _ _ h => h) fun e r' h => ?_) fun id r₁ hid => ?_
    · exact h.head hstart
    · have htaken : Runs (applying g ps site sites generic done (ty :: rest), r)
          (applying g ps site sites generic (done ++ [id]) rest, r₁) :=
        (hstart.trans hid).tail rfl
      have hrest := ih hfieldType.2 (done ++ [id]) r₁
      refine meets_bind (hrest.mono (fun _ _ h => h) fun e r' h => ?_) fun ids r₂ hids => ?_
      · exact h.head htaken
      · rw [List.append_assoc] at hids
        exact htaken.trans hids

theorem runs_fieldType (happly : Performs apply) (g : TypeId) (ps : List TypeId)
    (sites : List Site) (ty : FieldTy) (site : Site) (r : Registry) :
    (fieldType apply site.names site.params ty r).Meets
      (fun id r' => Runs (beginning g ps site sites ty, r) (⟨g, ps, site :: sites, .give id⟩, r'))
      (Breaks (beginning g ps site sites ty, r) g ps site sites) := by
  induction ty using FieldTy.induction_on generalizing site r with
  | concrete id =>
    rw [fieldType]
    exact .refl
  | param name =>
    unfold beginning
    rw [fieldType, Call.evaluate]
    cases site.names.idxOf? name with
    | none => exact ⟨site, rfl, rfl, .refl⟩
    | some i =>
      dsimp only
      cases site.params[i]? with
      | none => trivial
      | some id => exact .refl
  | apply generic args ih =>
    rw [fieldType]
    refine meets_bind (runs_fieldTypes ih generic [] r) fun ids r₁ hids => ?_
    have hseek : Runs (beginning g ps site sites (.apply generic args), r)
        (⟨g, ps, site :: sites, .seek generic ids true⟩, r₁) := hids.tail rfl
    refine ((happly g ps (site :: sites) generic ids r₁).head hseek).mono (fun _ _ h => h) ?_
    intro e r₂ hrefuse
    exact ⟨site, rfl, rfl, hrefuse⟩

/-- The state in which a call fills in the fields of an instance. -/
def filling (g : TypeId) (ps : List TypeId) (site : Site) (sites : List Site)
    (done : List (String × TypeId)) (rest : List Field) : Call :=
  ⟨g, ps, { site with done, rest, pending := [] } :: sites, .fill⟩

theorem runs_instanceFields (happly : Performs apply) (g : TypeId) (ps : List TypeId) (site : Site)
    (sites : List Site) (fields : List Field) (done : List (String × TypeId)) (r : Registry) :
    (instanceFields apply site.names site.params fields r).Meets
      (fun made r' => Runs (filling g ps site sites done fields, r)
        (filling g ps site sites (done ++ made) [], r'))
      (Breaks (filling g ps site sites done fields, r) g ps site sites) := by
  induction fields generalizing done r with
  | nil =>
    rw [instanceFields, pure_apply]
    show Runs _ _
    rw [List.append_nil]
  | cons field rest ih =>
    rw [instanceFields]
    have hfirst := runs_fieldType happly g ps sites field.ty
      { site with done, rest := field :: rest, pending := [] } r
    have hstart : Runs (filling g ps site sites done (field :: rest), r) (beginning g ps
        { site with done, rest := field :: rest, pending := [] } sites field.ty, r) :=
      .single rfl
    refine meets_bind (hfirst.mono (fun _ _ h => h) fun e r' h => ?_) fun id r₁ hid => ?_
    · exact h.head hstart
    · have htaken : Runs (filling g ps site sites done (field :: rest), r)
          (filling g ps site sites (done ++ [(field.name, id)]) rest, r₁) :=
        (hstart.trans hid).tail rfl
      have hrest := ih (done ++ [(field.name, id)]) r₁
      refine meets_bind (hrest.mono (fun _ _ h => h) fun e r' h => ?_) fun made r₂ hmade => ?_
      · exact h.head htaken
      · rw [List.append_assoc] at hmade
        exact htaken.trans hmade

end Fields

/-! ## Instances -/

variable {apply : TypeId → List TypeId → Register TypeId} {template : Datatype} {family : Family}

/-- The construction of a new instance, from the step that lists it to the one that settles or
withdraws it. -/
theorem runs_build (happly : Performs apply) (g : TypeId) (ps : List TypeId) (sites : List Site)
    (hentry : r.entry generic = .ok (template, family))
    (params : List TypeId) :
    Delivers (⟨g, ps, .new r.size template.family family.paramNames params :: sites, .copy generic⟩,
      (r.enlist template.family params).2) g ps sites (build apply template family params r) := by
  have hget : (r.enlist template.family params).2.get generic = .ok template := by
    have ht := (entry_eq_ok_iff.1 hentry).1
    refine get_eq_ok_iff.2 (Eq.trans ?_ ht)
    exact (Array.getElem?_push_lt (lt_size ht)).trans (Array.getElem?_eq_getElem (lt_size ht)).symm
  have hcopy : Runs
      (⟨g, ps, .new r.size template.family family.paramNames params :: sites, .copy generic⟩,
        (r.enlist template.family params).2)
      (filling g ps (.new r.size template.family family.paramNames params) sites [] template.fields,
        (r.enlist template.family params).2) := by
    refine .single ?_
    simp only [Call.program, Call.step, hget]
    rfl
  have hfields := runs_instanceFields happly g ps
    (.new r.size template.family family.paramNames params) sites template.fields []
    (r.enlist template.family params).2
  unfold Delivers build
  dsimp only
  cases hrun : instanceFields apply family.paramNames params template.fields
      (r.enlist template.family params).2 with
  | ok fields r₁ =>
    rw [Site.new, hrun] at hfields
    exact (hcopy.trans hfields).tail rfl
  | error e r₁ =>
    rw [Site.new, hrun] at hfields
    obtain ⟨site', hid, hfamily, hbreaks⟩ := hfields
    have hwithdraw := (hcopy.trans hbreaks).tail rfl
    rw [hid, hfamily] at hwithdraw
    exact hwithdraw
  | fault fault => trivial

/-- A search comes to what specialization gives. One that is not nested finds no instance that
is still under construction. -/
theorem runs_seek {depth : Nat} {nested : Bool} (happly : Performs (specializeWithin depth))
    (hready : nested = false → ∀ {t : Datatype} {f : Family} {id : TypeId},
      r.entry generic = .ok (t, f) → f.instance? params = some id →
        ∃ u, r.types[id]? = some u ∧ u.progress = .ready) :
    Delivers (⟨g, ps, sites, .seek generic params nested⟩, r) g ps sites
      (specializeWithin (depth + 1) generic params r) := by
  have hseek : Runs (⟨g, ps, sites, .seek generic params nested⟩, r)
      ((⟨g, ps, sites, .seek generic params nested⟩ : Call).seek generic params nested r) :=
    .single rfl
  unfold Call.seek at hseek
  rw [specializeWithin]
  refine meets_read_bind fun entry hentry => ?_
  obtain ⟨template, family⟩ := entry
  rw [hentry] at hseek
  dsimp only at hseek ⊢
  split
  · next hspecialized =>
    rw [if_pos hspecialized] at hseek
    split
    · next hempty =>
      rw [if_pos hempty] at hseek
      exact hseek
    · next hempty =>
      rw [if_neg hempty] at hseek
      exact hseek
  · next hgeneric =>
    rw [if_neg hgeneric] at hseek
    cases harity : family.wrongArity? params.length with
    | some expected =>
      rw [harity] at hseek
      exact hseek
    | none =>
      rw [harity] at hseek
      dsimp only at hseek ⊢
      cases hlisted : family.instance? params with
      | some id =>
        rw [hlisted] at hseek
        cases nested with
        | true => exact hseek
        | false =>
          obtain ⟨u, hu, hprogress⟩ := hready rfl hentry hlisted
          have hwait : (⟨g, ps, sites, .wait generic params id⟩ : Call).step r =
              some (⟨g, ps, sites, .give id⟩, r) := by
            simp only [Call.step, Call.wait, get_eq_ok_iff.2 hu, hprogress, Option.map_some]
            rfl
          exact hseek.tail hwait
      | none =>
        rw [hlisted] at hseek
        exact (runs_build happly g ps sites hentry params).head hseek

theorem performs_specializeWithin (depth : Nat) : Performs (specializeWithin depth) := by
  induction depth with
  | zero =>
    intro g ps sites generic params r
    trivial
  | succ depth ih =>
    intro g ps sites generic params r
    exact runs_seek ih fun h => by cases h

/-- A call by itself comes to what `specialize` gives, and leaves the same registry. -/
theorem runs_specialize (hr : initial.Evolved r) (generic : TypeId) (params : List TypeId) :
    Delivers (.begin generic params, r) generic params [] (specialize generic params r) := by
  obtain ⟨depth, hdepth⟩ := r.exists_nestingBound params
  unfold specialize
  rw [hdepth]
  refine runs_seek (performs_specializeWithin depth) fun _ t f id hentry hlisted => ?_
  obtain ⟨u, hu, -, -, -, hready⟩ :=
    hr.settled_of_mem (entry_eq_ok_iff.1 hentry).2 (mem_instances hlisted)
  exact ⟨u, hu, hready⟩

end TypeLayer.Registry.Specializing
