import TypeLayer.Proofs.Nominal.Image

/-!
# What requests denote

A request looks like a structural type: an application is a constructor applied to
its parameters, and a method is the curried function of its domains.  `Request.shape`
is that type, given a type for each parameter in scope.

The main result is that the type which answers a request has the shape of the
request as its image (`evolves_answer`).  It holds of all requests that do not ask
for `Tuple` or `Fn` by name: instances of these have images that do not show the
name.
-/

namespace TypeLayer

namespace Request

mutual
/-- The structural type that a request looks like. A parameter with arguments looks
like nothing. -/
def shape (s : String → Option Ty) : Request → Option Ty
  | .param name _ => s name
  | .appliedParam _ _ => none
  | .method result domains => do
    let codomain ← shape s result
    let domains ← shapeAll s domains
    return Ty.curried domains codomain
  | .application name _ params => do
    let params ← shapeAll s params
    return .con name params
def shapeAll (s : String → Option Ty) : List Request → Option (List Ty)
  | [] => some []
  | request :: rest => do
    let t ← shape s request
    let ts ← shapeAll s rest
    return t :: ts
end

mutual
/-- The names of the declared types that a request asks for. -/
def constructors : Request → List String
  | .param _ _ | .appliedParam _ _ => []
  | .method result domains => constructors result ++ constructorsAll domains
  | .application name _ params => name :: constructorsAll params
def constructorsAll : List Request → List String
  | [] => []
  | request :: rest => constructors request ++ constructorsAll rest
end

theorem eq_of_isUnit {q : Request} (h : q.isUnit = true) :
    ∃ span, q = .application tupleName span [] := by
  unfold isUnit at h
  split at h
  · next span => exact ⟨span, by rw [beq_iff_eq.1 h]⟩
  · cases h

theorem eq_of_isThunk {domains : List Request} (h : isThunk domains = true) :
    ∃ span, domains = [.application tupleName span []] := by
  unfold isThunk at h
  split at h
  · obtain ⟨span, rfl⟩ := eq_of_isUnit h
    exact ⟨span, rfl⟩
  · cases h

end Request

namespace Registry

variable {r r' : Registry} {id generic : TypeId} {params : List TypeId} {us : List Ty}
  {scope : Assoc String TypeId} {s : String → Option Ty}

/-- None of the names is that of a built-in type whose instances do not look like
applications. -/
def Plain (names : List String) : Prop :=
  ∀ name ∈ names, name ≠ "Tuple" ∧ name ≠ "Fn"

instance (names : List String) : Decidable (Plain names) :=
  inferInstanceAs (Decidable (∀ name ∈ names, name ≠ "Tuple" ∧ name ≠ "Fn"))

/-- The types of the scope have images as given. -/
def Shows (r : Registry) (scope : Assoc String TypeId) (s : String → Option Ty) : Prop :=
  ∀ name id, scope.get? name = some id → id < r.size ∧ ∃ u, s name = some u ∧ r.image id = .ok u

/-- The images of the types of a scope. -/
def imageIn (r : Registry) (scope : Assoc String TypeId) (name : String) : Option Ty := do
  let id ← scope.get? name
  (r.image id).toOption

theorem shows_imageIn (hr : r.WellFormed)
    (hscope : ∀ name id, scope.get? name = some id → id < r.size) :
    r.Shows scope (r.imageIn scope) := by
  intro name id hname
  obtain ⟨u, hu⟩ := exists_image hr (hscope name id hname)
  exact ⟨hscope name id hname, u, by simp [imageIn, hname, hu, Except.toOption], hu⟩

theorem Evolved.shows (h : r.Evolved r') (hr : r.WellFormed) (hscope : r.Shows scope s) :
    r'.Shows scope s := by
  intro name id hname
  obtain ⟨hid, u, hu, himage⟩ := hscope name id hname
  exact ⟨h.extends.lt_size hid, u, hu, (h.extends.image_eq hr hid).trans himage⟩

/-! ## Declared types -/

/-- The type is the declared one that a constructor stands for. -/
def Declares (r : Registry) (name : String) (id : TypeId) : Prop :=
  ∃ t f, r.entry id = .ok (t, f) ∧ t.params = [] ∧
    (name = tupleName ∧ f.style = .tuple ∨ name ≠ tupleName ∧ f.name = name)

theorem Extends.declares {name : String} (hextends : r.Extends r') (h : r.Declares name id) :
    r'.Declares name id := by
  obtain ⟨t, f, hentry, ht, hf⟩ := h
  obtain ⟨t', f', hentry', hbecomes, hbecomes'⟩ := hextends.entry hentry
  refine ⟨t', f', hentry', hbecomes.params.trans ht, ?_⟩
  rwa [hbecomes'.style, hbecomes'.name]

theorem initial_declares_tuple : initial.Declares tupleName Builtin.tuple :=
  ⟨_, _, rfl, rfl, .inl ⟨rfl, rfl⟩⟩

/-- An instance of a declared type looks like the constructor applied to the images
of its parameters. -/
theorem Declares.image_eq {name : String} (h : r.Declares name generic) (hr : r.WellFormed)
    (hname : name ≠ "Tuple" ∧ name ≠ "Fn") (hid : r.Specializes generic params id)
    (hparams : r.Images params us) : r.image id = .ok (.con name us) := by
  obtain ⟨t, f, hentry, ht, hf⟩ := h
  obtain ⟨htype, hfamily⟩ := entry_eq_ok_iff.1 hentry
  have hinstance := hid.isInstance htype ht
  rcases hf with ⟨rfl, hstyle⟩ | ⟨-, rfl⟩
  · exact hinstance.image_tuple hr hfamily hstyle hparams
  · refine hinstance.image_con hr hfamily ?_ ?_ hparams
    · intro hstyle
      exact hname.1 (hr.reserved hfamily "Tuple" (by rw [hstyle]; rfl))
    · intro hstyle
      exact hname.2 (hr.reserved hfamily "Fn" (by rw [hstyle]; rfl))

theorem image_method (hr : initial.Evolved r) {result : TypeId} {u : Ty}
    (hid : r.Specializes Builtin.method (result :: params) id) (hresult : r.image result = .ok u)
    (hparams : r.Images params us) : r.image id = .ok (Ty.curried us u) := by
  have hinitial : ∃ t f, initial.entry Builtin.method = .ok (t, f) ∧ t.params = [] ∧
      f.style = .method := ⟨_, _, rfl, rfl, rfl⟩
  obtain ⟨t, f, hentry, ht, hf⟩ := hinitial
  obtain ⟨t', f', hentry', hbecomes, hbecomes'⟩ := hr.extends.entry hentry
  obtain ⟨htype, hfamily⟩ := entry_eq_ok_iff.1 hentry'
  have hinstance := hid.isInstance htype (hbecomes.params.trans ht)
  exact hinstance.image_method hr.wellFormed hfamily (hbecomes'.style.trans hf) hresult hparams

/-! ## Answers -/

/-- The type is one of the registry, and looks like the request, if the request is
plain. -/
def Depicts (r : Registry) (s : String → Option Ty) (q : Request) (id : TypeId) : Prop :=
  id < r.size ∧ (Plain q.constructors → ∃ u, q.shape s = some u ∧ r.image id = .ok u)

theorem Evolved.depicts {q : Request} (h : r.Evolved r') (hr : r.WellFormed)
    (hid : r.Depicts s q id) : r'.Depicts s q id := by
  refine ⟨h.extends.lt_size hid.1, fun hplain => ?_⟩
  obtain ⟨u, hu, himage⟩ := hid.2 hplain
  exact ⟨u, hu, (h.extends.image_eq hr hid.1).trans himage⟩

theorem has_of_depicts {requests : List Request} {ids : List TypeId}
    (h : List.Forall₂ (r.Depicts s) requests ids) : r.Has ids := by
  induction h with
  | nil => exact r.has_nil
  | cons hid _ ih => exact has_cons.2 ⟨hid.1, ih⟩

theorem images_of_depicts {requests : List Request} {ids : List TypeId}
    (h : List.Forall₂ (r.Depicts s) requests ids)
    (hplain : Plain (Request.constructorsAll requests)) :
    ∃ us, Request.shapeAll s requests = some us ∧ r.Images ids us := by
  induction h with
  | nil => exact ⟨[], by rw [Request.shapeAll], .nil⟩
  | cons hid _ ih =>
    rw [Request.constructorsAll, Plain, List.forall_mem_append] at hplain
    obtain ⟨u, hu, himage⟩ := hid.2 hplain.1
    obtain ⟨us, hus, himages⟩ := ih hplain.2
    exact ⟨u :: us, by simp [Request.shapeAll, hu, hus], .cons himage himages⟩

/-- The arguments of a method have the shapes of its domains, except that a method
from the unit type has none; both make the same curried function. -/
theorem args_of_depicts {domains : List Request} {args : List TypeId}
    (h : Request.isThunk domains = true ∧ args = [] ∨
      Request.isThunk domains = false ∧ List.Forall₂ (r.Depicts s) domains args) :
    r.Has args ∧ (Plain (Request.constructorsAll domains) →
      ∃ ds us, Request.shapeAll s domains = some ds ∧ r.Images args us ∧
        ∀ codomain, Ty.curried ds codomain = Ty.curried us codomain) := by
  rcases h with ⟨hthunk, rfl⟩ | ⟨-, hargs⟩
  · obtain ⟨span, rfl⟩ := Request.eq_of_isThunk hthunk
    refine ⟨r.has_nil, fun _ => ?_⟩
    exact ⟨[Ty.unit], [], by simp [Request.shapeAll, Request.shape, Ty.unit, Ty.tuple], .nil,
      fun _ => rfl⟩
  · refine ⟨has_of_depicts hargs, fun hplain => ?_⟩
    obtain ⟨us, hus, himages⟩ := images_of_depicts hargs hplain
    exact ⟨us, us, hus, himages, fun _ => rfl⟩

/-- Calls move a registry by changes, as in `evolution`, and rely on how the types in scope
look. -/
def depiction (scope : Assoc String TypeId) (s : String → Option Ty) : Contract where
  relies r := initial.Evolved r ∧ r.Shows scope s
  moves := Evolved
  refuses r _ r' := r.Evolved r'
  faults _ := True
  refl h := h.1.wellFormed.evolved
  trans := Evolved.trans
  relies_of_moves h hevolved := ⟨h.1.trans hevolved, hevolved.shows h.1.wellFormed h.2⟩
  refuses_of_moves := Evolved.trans

theorem depiction_answers (scope : Assoc String TypeId) (s : String → Option Ty) :
    (depiction scope s).Answers scope (fun name id r => r.Declares name id)
      fun q id r => r.Depicts s q id where
  declared_kept hevolved := hevolved.extends.declares
  kept hr hevolved := hevolved.depicts hr.1.wellFormed
  refuses hr := hr.1.wellFormed.evolved
  scope {r name span id} hr hname := by
    obtain ⟨hlt, u, hu, himage⟩ := hr.2 name id hname
    exact ⟨hlt, fun _ => ⟨u, by rw [Request.shape, hu], himage⟩⟩
  tuple hr := hr.1.extends.declares initial_declares_tuple
  named {r name id} hr hname hid := by
    obtain ⟨t, f, hentry, hf, ht⟩ := hr.1.wellFormed.name hid
    exact ⟨t, f, hentry, ht, .inr ⟨hname, hf⟩⟩
  method {r result domains id args} hr hresult hargs := by
    obtain ⟨hhas, hargs⟩ := args_of_depicts hargs
    have hknown := has_cons.2 ⟨hresult.1, hhas⟩
    refine (evolves_specialize hr.1.wellFormed hknown).mono fun id r' hevolved hid => ?_
    refine ⟨hid.lt_size, fun hplain => ?_⟩
    rw [Request.constructors, Plain, List.forall_mem_append] at hplain
    obtain ⟨u, hu, himage⟩ := (hevolved.depicts hr.1.wellFormed hresult).2 hplain.1
    obtain ⟨ds, us, hds, himages, hcurried⟩ := hargs hplain.2
    refine ⟨Ty.curried ds u, by simp [Request.shape, hu, hds], ?_⟩
    rw [hcurried]
    exact image_method (hr.1.trans hevolved) hid himage
      (hevolved.extends.images hr.1.wellFormed hhas himages)
  application {r name span params generic ids} hr hgeneric hids := by
    refine (evolves_specialize hr.1.wellFormed (has_of_depicts hids)).mono
      fun id r' hevolved hid => ?_
    refine ⟨hid.lt_size, fun hplain => ?_⟩
    rw [Request.constructors, Plain, List.forall_mem_cons] at hplain
    obtain ⟨us, hus, himages⟩ :=
      images_of_depicts (hids.imp fun q id => hevolved.depicts hr.1.wellFormed) hplain.2
    refine ⟨.con name us, by simp [Request.shape, hus], ?_⟩
    have hdeclares := hevolved.extends.declares hgeneric
    exact hdeclares.image_eq hevolved.wellFormed hplain.1 hid himages

/-- The type that answers a request looks like the request. -/
theorem evolves_answer (hr : initial.Evolved r) (hscope : r.Shows scope s) (q : Request) :
    r.Evolves (answer scope q) fun id r' => r'.Depicts s q id :=
  Contract.meets_answer (depiction_answers scope s) ⟨hr, hscope⟩ q

end Registry

end TypeLayer
