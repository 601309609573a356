import Mathlib.Data.List.Forall2
import TypeLayer.Nominal.Image
import TypeLayer.Proofs.Nominal.Specialization

/-!
# Images of nominal types

The parameters of a type are older than the type, so that every type of a
well-formed registry has an image (`exists_image`), which is made of the images of
its parameters (`image_eq_ok`).  A type keeps its image as the registry grows
(`Extends.image_eq`).  The image of an instance is that of the family applied to
the images of its parameters; only tuples and methods look different.
-/

namespace TypeLayer.Registry

variable {r r' : Registry} {id generic : TypeId} {k : FamilyId} {params : List TypeId}
  {t : Datatype} {f : Family} {us : List Ty}

/-- The images of a list of types. -/
abbrev Images (r : Registry) (ids : List TypeId) (us : List Ty) : Prop :=
  List.Forall₂ (fun id u => r.image id = .ok u) ids us

theorem mapM_eq_ok {ε α β : Type} {g : α → Except ε β} {xs : List α} {ys : List β}
    (h : List.Forall₂ (fun x y => g x = .ok y) xs ys) : xs.mapM g = .ok ys := by
  induction h with
  | nil => rfl
  | cons hx _ ih => rw [List.mapM_cons, hx, ih]; rfl

theorem exists_forall₂ {α β : Type} {P : α → β → Prop} {xs : List α}
    (h : ∀ x ∈ xs, ∃ y, P x y) : ∃ ys, List.Forall₂ P xs ys := by
  induction xs with
  | nil => exact ⟨[], .nil⟩
  | cons x rest ih =>
    rw [List.forall_mem_cons] at h
    obtain ⟨y, hy⟩ := h.1
    obtain ⟨ys, hys⟩ := ih h.2
    exact ⟨y :: ys, .cons hy hys⟩

/-! ## Existence -/

theorem imageWithin_succ_eq_ok {depth : Nat} (hentry : r.entry id = .ok (t, f))
    (hparams : List.Forall₂ (fun p u => r.imageWithin depth p = .ok u) t.params us) :
    r.imageWithin (depth + 1) id = .ok (imageOf t f us) := by
  rw [imageWithin, hentry]
  show (do let params ← t.params.mapM (r.imageWithin depth); return imageOf t f params) = _
  rw [mapM_eq_ok hparams]
  rfl

theorem imageOf_becomes {t' : Datatype} {f' : Family} (ht : t.Becomes t') (hf : f.Becomes f')
    (us : List Ty) : imageOf t' f' us = imageOf t f us := by
  unfold imageOf
  rw [ht.specialized, hf.style, hf.name]

/-- A type has an image, which any bound beyond its number suffices to find, also
when the registry has grown. The induction is on the number of the type. -/
theorem exists_imageWithin (hr : r.WellFormed) (hid : id < r.size) :
    ∃ u, ∀ {r' : Registry} {depth : Nat}, r.Extends r' → id < depth →
      r'.imageWithin depth id = .ok u := by
  induction id using Nat.strongRecOn with
  | ind id ih =>
    obtain ⟨t, f, hentry⟩ := hr.exists_entry hid
    have hparams := hr.params_older (entry_eq_ok_iff.1 hentry).1
    obtain ⟨us, hus⟩ : ∃ us, List.Forall₂ (fun p u => p < id ∧ ∀ {r' : Registry} {depth : Nat},
        r.Extends r' → p < depth → r'.imageWithin depth p = .ok u) t.params us := by
      refine exists_forall₂ fun p hp => ?_
      obtain ⟨u, hu⟩ := ih p (hparams p hp) (Nat.lt_trans (hparams p hp) hid)
      exact ⟨u, hparams p hp, hu⟩
    refine ⟨imageOf t f us, fun {r' depth} hextends hdepth => ?_⟩
    obtain ⟨t', f', hentry', hbecomes, hbecomes'⟩ := hextends.entry hentry
    obtain ⟨depth, rfl⟩ := Nat.exists_eq_add_one_of_ne_zero (Nat.ne_zero_of_lt hdepth)
    rw [← imageOf_becomes hbecomes hbecomes']
    refine imageWithin_succ_eq_ok hentry' ?_
    rw [hbecomes.params]
    exact hus.imp fun p u hu => hu.2 hextends (Nat.lt_of_lt_of_le hu.1 (Nat.le_of_lt_succ hdepth))

theorem exists_image (hr : r.WellFormed) (hid : id < r.size) : ∃ u, r.image id = .ok u := by
  obtain ⟨u, hu⟩ := exists_imageWithin hr hid
  exact ⟨u, hu (.refl r) (Nat.lt_succ_of_lt hid)⟩

/-- A type keeps its image as the registry grows. -/
theorem Extends.image_eq (hextends : r.Extends r') (hr : r.WellFormed) (hid : id < r.size) :
    r'.image id = r.image id := by
  obtain ⟨u, hu⟩ := exists_imageWithin hr hid
  rw [image, image, hu hextends (Nat.lt_succ_of_lt (hextends.lt_size hid)),
    hu (.refl r) (Nat.lt_succ_of_lt hid)]

theorem Extends.images {ids : List TypeId} (hextends : r.Extends r') (hr : r.WellFormed)
    (hids : r.Has ids) (h : r.Images ids us) : r'.Images ids us := by
  induction h with
  | nil => exact .nil
  | cons hid _ ih =>
    rw [has_cons] at hids
    exact .cons ((hextends.image_eq hr hids.1).trans hid) (ih hids.2)

/-- The image of a type is made of the images of its parameters. -/
theorem image_eq_ok (hr : r.WellFormed) (hentry : r.entry id = .ok (t, f))
    (hparams : r.Images t.params us) : r.image id = .ok (imageOf t f us) := by
  have ht := (entry_eq_ok_iff.1 hentry).1
  have holder := hr.params_older ht
  refine imageWithin_succ_eq_ok hentry ?_
  -- The bound for the parameters is one less than that of `image`.
  generalize t.params = ids at hparams holder
  induction hparams with
  | nil => exact .nil
  | @cons p u ids us hp _ ih =>
    rw [List.forall_mem_cons] at holder
    have hlt : p < r.size := Nat.lt_trans holder.1 (lt_size ht)
    obtain ⟨v, hv⟩ := exists_imageWithin hr hlt
    rw [image, hv (.refl r) (Nat.lt_succ_of_lt hlt)] at hp
    exact .cons ((hv (.refl r) hlt).trans hp) (ih holder.2)

/-! ## Instances -/

/-- A declared type is specialized to an instance of its own family, whether it is
generic or not. -/
theorem Specializes.isInstance {g : Datatype} (h : r.Specializes generic params id)
    (hg : r.types[generic]? = some g) (hdeclared : g.params = []) :
    r.IsInstance g.family params id := by
  obtain ⟨g', hg', h⟩ := h
  obtain rfl := Option.some.inj (hg.symm.trans hg')
  rcases h with ⟨hspecialized, rfl, rfl⟩ | ⟨-, hinstance⟩
  · exact ⟨g, hg, rfl, hdeclared, hspecialized⟩
  · exact hinstance

theorem IsInstance.exists_image (h : r.IsInstance k params id) (hr : r.WellFormed)
    (hf : r.families[k]? = some f) (hparams : r.Images params us) :
    ∃ t, t.specialized = true ∧ r.image id = .ok (imageOf t f us) := by
  obtain ⟨t, ht, rfl, rfl, hspecialized⟩ := h
  exact ⟨t, hspecialized, image_eq_ok hr (entry_eq_ok_iff.2 ⟨ht, hf⟩) hparams⟩

theorem IsInstance.image_tuple (h : r.IsInstance k params id) (hr : r.WellFormed)
    (hf : r.families[k]? = some f) (hstyle : f.style = .tuple) (hparams : r.Images params us) :
    r.image id = .ok (Ty.tuple us) := by
  obtain ⟨t, hspecialized, himage⟩ := h.exists_image hr hf hparams
  rw [himage, imageOf.eq_def, hstyle, hspecialized]

theorem IsInstance.image_method {result : TypeId} {u : Ty}
    (h : r.IsInstance k (result :: params) id) (hr : r.WellFormed)
    (hf : r.families[k]? = some f) (hstyle : f.style = .method) (hresult : r.image result = .ok u)
    (hparams : r.Images params us) : r.image id = .ok (Ty.curried us u) := by
  obtain ⟨t, hspecialized, himage⟩ := h.exists_image hr hf (.cons hresult hparams)
  rw [himage, imageOf.eq_def, hstyle, hspecialized]

theorem IsInstance.image_con (h : r.IsInstance k params id) (hr : r.WellFormed)
    (hf : r.families[k]? = some f) (htuple : f.style ≠ .tuple) (hmethod : f.style ≠ .method)
    (hparams : r.Images params us) : r.image id = .ok (.con f.name us) := by
  obtain ⟨t, -, himage⟩ := h.exists_image hr hf hparams
  rw [himage, imageOf.eq_def]
  cases hstyle : f.style with
  | tuple => exact absurd hstyle htuple
  | method => exact absurd hstyle hmethod
  | integer | floating | object | union | slice => rfl

end TypeLayer.Registry
