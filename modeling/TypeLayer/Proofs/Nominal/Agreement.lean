import Mathlib.Logic.Function.Basic
import TypeLayer.Proofs.Nominal.Reachable
import TypeLayer.Proofs.Structural.Solution
import TypeLayer.Structural.OfExpr

/-!
# The structural and the nominal view of a type expression

A type expression stands for a structural type, with an unknown for each parameter,
and it denotes a nominal type, with a type from the scope for each parameter.  The
main result is that the two agree (`denote_image`): the image of the nominal type is
the structural type with the images of the scope in place of the unknowns.

Between the two stands `TypeExpr.shape`, the tree of the expression itself as a
type.  A request is flattened where the expression has a chain of arrows, and has
the same shape (`shape_ofExpr`); the conversion to a structural type keeps the
shape by construction (`exists_convert`).
-/

namespace TypeLayer

open TypeLayer.Action

variable {s : String → Option Ty}

namespace TypeExpr

mutual
/-- The structural type that an expression looks like. A parameter with arguments
looks like nothing. -/
def shape (s : String → Option Ty) : TypeExpr → Option Ty
  | { name, params, parameter, .. } =>
    if parameter then
      if params.isEmpty then s name else none
    else do
      let params ← shapeAll s params
      return .con name params
def shapeAll (s : String → Option Ty) : List TypeExpr → Option (List Ty)
  | [] => some []
  | e :: rest => do
    let t ← shape s e
    let ts ← shapeAll s rest
    return t :: ts
end

mutual
/-- The names of the constructors of an expression. -/
def constructors : TypeExpr → List String
  | { name, params, parameter, .. } =>
    if parameter then constructorsAll params else name :: constructorsAll params
def constructorsAll : List TypeExpr → List String
  | [] => []
  | e :: rest => constructors e ++ constructorsAll rest
end

end TypeExpr

/-! ## Requests -/

namespace Request

theorem ofExprAll_eq_map (es : List TypeExpr) : ofExprAll es = es.map ofExpr := by
  induction es with
  | nil => rfl
  | cons e rest ih => rw [ofExprAll, ih, List.map_cons]

theorem ofExpr_arrow (domain codomain : TypeExpr) (span : Span) :
    ofExpr ⟨arrowName, [domain, codomain], false, span⟩ =
      arrow (ofExpr domain) (ofExpr codomain) := by
  simp [ofExpr, ofExprAll]

/-- A constructor with arguments is an arrow, or it asks for the declared type of
its name. -/
theorem ofExpr_cases (name : String) (params : List TypeExpr) (span : Span) :
    (∃ domain codomain, name = arrowName ∧ params = [domain, codomain]) ∨
      ofExpr ⟨name, params, false, span⟩ = .application name span (params.map ofExpr) := by
  rw [ofExpr, if_neg Bool.false_ne_true, ofExprAll_eq_map]
  split
  · next hparams =>
    split
    · next hname =>
      have hlength : params.length = 2 := by simpa using congrArg List.length hparams
      obtain ⟨domain, codomain, rfl⟩ := List.length_eq_two.1 hlength
      exact .inl ⟨domain, codomain, hname, rfl⟩
    · exact .inr (by rw [hparams])
  · exact .inr rfl

/-- A method of an expression has a domain. -/
theorem ofExpr_ne_method_nil (e : TypeExpr) (result : Request) :
    ofExpr e ≠ .method result [] := by
  obtain ⟨name, params, parameter, span⟩ := e
  cases parameter with
  | true =>
    rw [ofExpr, if_pos rfl]
    split <;> nofun
  | false =>
    rcases ofExpr_cases name params span with ⟨domain, codomain, rfl, rfl⟩ | happlication
    · rw [ofExpr_arrow]
      cases ofExpr codomain <;> nofun
    · rw [happlication]
      nofun

/-- A domain that is put in front of a request is put in front of its shape. -/
theorem shape_arrow {domain codomain : Request} (h : ∀ result, codomain ≠ .method result []) :
    (arrow domain codomain).shape s = (do
      let domain ← domain.shape s
      let codomain ← codomain.shape s
      return Ty.arrow domain codomain) := by
  have hsingle : (Request.method codomain [domain]).shape s = (do
      let domain ← domain.shape s
      let codomain ← codomain.shape s
      return Ty.arrow domain codomain) := by
    cases hd : domain.shape s <;> cases hc : codomain.shape s <;>
      simp [shape, shapeAll, hd, hc, Ty.curried]
  cases codomain with
  | param | appliedParam | application => exact hsingle
  | method result domains =>
    cases domains with
    | nil => exact absurd rfl (h result)
    | cons first rest =>
      cases hd : domain.shape s <;> cases hc : result.shape s <;> cases hf : first.shape s <;>
        cases hr : shapeAll s rest <;>
        simp [arrow, shape, shapeAll, hd, hc, hf, hr, Ty.curried]

theorem shapeAll_map_ofExpr {es : List TypeExpr}
    (h : ∀ e ∈ es, (ofExpr e).shape s = e.shape s) :
    shapeAll s (es.map ofExpr) = TypeExpr.shapeAll s es := by
  induction es with
  | nil => rw [List.map_nil, shapeAll, TypeExpr.shapeAll]
  | cons e rest ih =>
    rw [List.forall_mem_cons] at h
    rw [List.map_cons, shapeAll, TypeExpr.shapeAll, h.1, ih h.2]

/-- The request of an expression has the shape of the expression. -/
theorem shape_ofExpr (e : TypeExpr) : (ofExpr e).shape s = e.shape s := by
  induction e using TypeExpr.induction_on with
  | node name params parameter span ih =>
    rw [TypeExpr.shape]
    cases parameter with
    | true =>
      rw [ofExpr, if_pos rfl, if_pos rfl]
      split
      · rw [shape]
      · rw [shape]
    | false =>
      rw [if_neg Bool.false_ne_true]
      rcases ofExpr_cases name params span with ⟨domain, codomain, rfl, rfl⟩ | happlication
      · rw [ofExpr_arrow, shape_arrow (ofExpr_ne_method_nil codomain), ih domain (by simp),
          ih codomain (by simp)]
        cases hd : domain.shape s <;> cases hc : codomain.shape s <;>
          simp [TypeExpr.shapeAll, hd, hc, Ty.arrow]
      · rw [happlication, shape, shapeAll_map_ofExpr ih]

theorem mem_constructors_arrow {name : String} {domain codomain : Request} :
    name ∈ (arrow domain codomain).constructors ↔
      name ∈ domain.constructors ∨ name ∈ codomain.constructors := by
  cases codomain <;>
    simp only [arrow, constructors, constructorsAll, List.mem_append, List.mem_cons,
      List.not_mem_nil] <;>
    tauto

theorem constructorsAll_map_ofExpr {es : List TypeExpr}
    (h : ∀ e ∈ es, (ofExpr e).constructors ⊆ e.constructors) :
    constructorsAll (es.map ofExpr) ⊆ TypeExpr.constructorsAll es := by
  induction es with
  | nil => exact List.nil_subset _
  | cons e rest ih =>
    rw [List.forall_mem_cons] at h
    rw [List.map_cons, constructorsAll, TypeExpr.constructorsAll]
    exact List.append_subset.2 ⟨List.Subset.trans h.1 (List.subset_append_left _ _),
      List.Subset.trans (ih h.2) (List.subset_append_right _ _)⟩

theorem constructors_ofExpr (e : TypeExpr) : (ofExpr e).constructors ⊆ e.constructors := by
  induction e using TypeExpr.induction_on with
  | node name params parameter span ih =>
    rw [TypeExpr.constructors]
    cases parameter with
    | true =>
      rw [ofExpr, if_pos rfl]
      split <;> exact List.nil_subset _
    | false =>
      rw [if_neg Bool.false_ne_true]
      rcases ofExpr_cases name params span with ⟨domain, codomain, rfl, rfl⟩ | happlication
      · rw [ofExpr_arrow]
        intro c hc
        rw [mem_constructors_arrow] at hc
        simp only [TypeExpr.constructorsAll, List.mem_cons, List.mem_append]
        rcases hc with hc | hc
        · exact .inr (.inl (ih domain (by simp) hc))
        · exact .inr (.inr (.inl (ih codomain (by simp) hc)))
      · rw [happlication, constructors]
        exact List.cons_subset_cons _ (constructorsAll_map_ofExpr ih)

end Request

/-! ## Conversions -/

namespace Conversion

variable {c c' c'' : Conversion}

/-- The assignment gives the unknowns of the parameters the types of the
parameters. -/
def Assigns (c : Conversion) (s : String → Option Ty) (σ : Assignment) : Prop :=
  ∀ name v, c.params.get? name = some v → s name = some (σ v)

/-- Some assignment does so, and the unknowns exist. -/
structure Assignable (c : Conversion) (s : String → Option Ty) : Prop where
  created : ∀ name v, c.params.get? name = some v → v < c.table.size
  exists_assigns : ∃ σ, c.Assigns s σ

theorem assignable_empty (T : Table) : Assignable ⟨T, ∅⟩ s := by
  refine ⟨fun name v hv => ?_, default, fun name v hv => ?_⟩
  · cases hv
  · cases hv

/-- What the types that a conversion returns have to do with the shapes of the
expressions: they have the unknowns of the parameters, and become the shapes when
these get the types of the parameters. -/
structure Converts (s : String → Option Ty) (c : Conversion) (ts us : List Ty)
    (c' : Conversion) : Prop where
  assignable : c'.Assignable s
  params : ∀ name v, c.params.get? name = some v → c'.params.get? name = some v
  occurrences : ∀ t ∈ ts, ∀ v ∈ t.occurrences, ∃ name, c'.params.get? name = some v
  subst : ∀ σ, c'.Assigns s σ → ts.map (Ty.subst σ) = us

theorem Converts.cons {t u : Ty} {ts us : List Ty} (h : Converts s c [t] [u] c')
    (h' : Converts s c' ts us c'') : Converts s c (t :: ts) (u :: us) c'' where
  assignable := h'.assignable
  params name v hv := h'.params name v (h.params name v hv)
  occurrences := by
    refine List.forall_mem_cons.2 ⟨fun v hv => ?_, h'.occurrences⟩
    obtain ⟨name, hname⟩ := h.occurrences t List.mem_cons_self v hv
    exact ⟨name, h'.params name v hname⟩
  subst σ hσ := by
    have hfirst := h.subst σ fun name v hv => hσ name v (h'.params name v hv)
    rw [List.map_cons, h'.subst σ hσ, List.head_eq_of_cons_eq hfirst]

theorem Converts.con {ts us : List Ty} (h : Converts s c ts us c') (name : String) :
    Converts s c [.con name ts] [.con name us] c' where
  assignable := h.assignable
  params := h.params
  occurrences := by
    refine List.forall_mem_singleton.2 fun v hv => ?_
    obtain ⟨t, ht, hv⟩ := Ty.mem_occurrences_con.1 hv
    exact h.occurrences t ht v hv
  subst σ hσ := by
    rw [List.map_singleton, Ty.subst_con, h.subst σ hσ]

theorem exists_param {name : String} {u : Ty} (hname : s name = some u) (hc : c.Assignable s) :
    ∃ t c', param name c = .ok t c' ∧ Converts s c [t] [u] c' := by
  -- The unknown of the parameter is all that the type has.
  have hvar : ∀ {c' : Conversion} {v : TyVar}, c'.params.get? name = some v →
      (∀ t ∈ [Ty.var v], ∀ w ∈ t.occurrences, ∃ name, c'.params.get? name = some w) ∧
        ∀ σ, c'.Assigns s σ → [Ty.var v].map (Ty.subst σ) = [u] := by
    intro c' v hv
    refine ⟨List.forall_mem_singleton.2 fun w hw => ⟨name, ?_⟩, fun σ hσ => ?_⟩
    · rw [Ty.mem_occurrences_var] at hw
      rw [hw, hv]
    · rw [List.map_singleton, Ty.subst_var, Option.some.inj ((hσ name v hv).symm.trans hname)]
  unfold param
  split
  · next v hv => exact ⟨.var v, c, rfl, hc, fun _ _ h => h, (hvar hv).1, (hvar hv).2⟩
  · next hnew =>
    obtain ⟨σ, hσ⟩ := hc.exists_assigns
    have hv := Assoc.get?_insert_self c.params name c.table.size
    refine ⟨.var c.table.size, ⟨c.table.fresh.2, c.params.insert name c.table.size⟩, rfl,
      ⟨fun name' v hv => ?_, Function.update σ c.table.size u, fun name' v hv => ?_⟩,
      fun _ _ => Assoc.get?_insert_of_unknown hnew, (hvar hv).1, (hvar hv).2⟩
    · rw [Table.size_fresh]
      rcases Assoc.get?_insert_cases hv with ⟨rfl, rfl⟩ | hv
      · exact Nat.lt_succ_self _
      · exact Nat.lt_succ_of_lt (hc.created name' v hv)
    · rcases Assoc.get?_insert_cases hv with ⟨rfl, rfl⟩ | hv
      · rw [Function.update_self, hname]
      · rw [Function.update_of_ne (Nat.ne_of_lt (hc.created name' v hv))]
        exact hσ name' v hv

theorem exists_convertAll {es : List TypeExpr} {us : List Ty}
    (hconvert : ∀ e ∈ es, ∀ {c : Conversion} {u : Ty}, e.shape s = some u → c.Assignable s →
      ∃ t c', convert e c = .ok t c' ∧ Converts s c [t] [u] c')
    (hshape : TypeExpr.shapeAll s es = some us) (hc : c.Assignable s) :
    ∃ ts c', convertAll es c = .ok ts c' ∧ Converts s c ts us c' := by
  induction es generalizing us c with
  | nil =>
    rw [TypeExpr.shapeAll] at hshape
    cases hshape
    exact ⟨[], c, by rw [convertAll]; rfl, hc, fun _ _ h => h, List.forall_mem_nil _,
      fun _ _ => rfl⟩
  | cons e rest ih =>
    rw [List.forall_mem_cons] at hconvert
    rw [TypeExpr.shapeAll] at hshape
    simp only [Option.bind_eq_bind, Option.bind_eq_some_iff, Option.pure_def,
      Option.some.injEq] at hshape
    obtain ⟨u, hu, us, hus, rfl⟩ := hshape
    obtain ⟨t, c₁, hrun, hfirst⟩ := hconvert.1 hu hc
    obtain ⟨ts, c₂, hruns, hrest⟩ := ih hconvert.2 hus hfirst.assignable
    refine ⟨t :: ts, c₂, ?_, hfirst.cons hrest⟩
    rw [convertAll, bind_apply, hrun]
    simp only [bind_apply, hruns, pure_apply]

/-- An expression with a shape is converted, and the result becomes the shape when
the parameters get their types. -/
theorem exists_convert (e : TypeExpr) {u : Ty} (hshape : e.shape s = some u)
    (hc : c.Assignable s) : ∃ t c', convert e c = .ok t c' ∧ Converts s c [t] [u] c' := by
  induction e using TypeExpr.induction_on generalizing u c with
  | node name params parameter span ih =>
    rw [TypeExpr.shape] at hshape
    rw [convert]
    cases parameter with
    | true =>
      simp only [if_true] at hshape ⊢
      split at hshape
      · next hempty =>
        rw [if_pos hempty]
        exact exists_param hshape hc
      · cases hshape
    | false =>
      rw [if_neg Bool.false_ne_true] at hshape ⊢
      simp only [Option.bind_eq_bind, Option.bind_eq_some_iff, Option.pure_def,
        Option.some.injEq] at hshape
      obtain ⟨us, hus, rfl⟩ := hshape
      obtain ⟨ts, c', hrun, hconverts⟩ := exists_convertAll ih hus hc
      refine ⟨.con name ts, c', ?_, hconverts.con name⟩
      rw [bind_apply, hrun]
      rfl

end Conversion

/-! ## Agreement -/

namespace Registry

variable {r r' : Registry} {scope : Assoc String TypeId} {e : TypeExpr} {id : TypeId}

theorem imageIn_eq_some {name : String} {u : Ty} (h : r.imageIn scope name = some u) :
    ∃ i, scope.get? name = some i ∧ r.image i = .ok u := by
  unfold imageIn at h
  obtain ⟨i, hi, himage⟩ := Option.bind_eq_some_iff.1 h
  refine ⟨i, hi, ?_⟩
  cases hu : r.image i with
  | error f =>
    rw [hu] at himage
    cases himage
  | ok v =>
    rw [hu] at himage
    exact congrArg Except.ok (Option.some.inj himage)

/-- If an expression denotes a nominal type, it also stands for a structural type,
and the image of the one is the other, with the images of the types in scope in place
of the unknowns of the parameters. -/
theorem denote_image (hr : r.Reachable)
    (hscope : ∀ name i, scope.get? name = some i → i < r.size) (he : Plain e.constructors)
    (h : denote e scope r = .ok id r') (T : Table) :
    ∃ t params T' σ, e.toTy T = .ok (t, params) T' ∧
      (∀ v ∈ t.occurrences, ∃ name, params.get? name = some v) ∧
      (∀ name v, params.get? name = some v → ∃ i, scope.get? name = some i ∧
        r.image i = .ok (σ v) ∧ r'.image i = .ok (σ v)) ∧
      r'.image id = .ok (t.subst σ) := by
  have hshows := shows_imageIn hr.evolved.wellFormed hscope
  have hanswer := evolves_answer hr.evolved hshows (Request.ofExpr e)
  unfold denote at h
  obtain ⟨hevolved, -, hlooks⟩ := hanswer.ok h
  obtain ⟨u, hu, himage⟩ := hlooks fun name hname => he name (Request.constructors_ofExpr e hname)
  rw [Request.shape_ofExpr] at hu
  obtain ⟨t, c, hrun, hconverts⟩ :=
    Conversion.exists_convert e hu (Conversion.assignable_empty T)
  obtain ⟨σ, hσ⟩ := hconverts.assignable.exists_assigns
  refine ⟨t, c.params, c.table, σ, by rw [TypeExpr.toTy, hrun], ?_, fun name v hv => ?_, ?_⟩
  · exact hconverts.occurrences t List.mem_cons_self
  · obtain ⟨i, hi, hu⟩ := imageIn_eq_some (hσ name v hv)
    have hlt := hscope name i hi
    exact ⟨i, hi, hu, (hevolved.extends.image_eq hr.evolved.wellFormed hlt).trans hu⟩
  · rw [himage, List.head_eq_of_cons_eq (hconverts.subst σ hσ)]

/-- A registry with a generic type `Pair`, and with the type of methods from `Bool`
to `Int`. -/
def withPair : Registry :=
  let paired := (create "Pair" none ["A", "B"] initial).state?.getD initial
  (method Builtin.int [Builtin.bool] paired).state?.getD initial

theorem reachable_withPair : withPair.Reachable := by
  refine .tail (.tail .refl ⟨.create "Pair" none ["A", "B"], by decide, rfl⟩)
    ⟨.method Builtin.int [Builtin.bool], by decide, ?_⟩
  decide +kernel

/-- The expression `() -> T -> Pair{() -> T, (Int, ())}` with a parameter `T`. -/
def pairExpr : TypeExpr :=
  let unit := TypeExpr.tuple [] default
  let param : TypeExpr := ⟨"T", [], true, default⟩
  let int := TypeExpr.apply "Int" [] default
  TypeExpr.arrow unit (TypeExpr.arrow param
    (TypeExpr.apply "Pair" [TypeExpr.arrow unit param, TypeExpr.tuple [int, unit] default] default))

theorem denote_image_pair :
    withPair.Reachable ∧ Plain pairExpr.constructors ∧
      ∃ r', denote pairExpr ⟨[("T", 13)]⟩ withPair = .ok 18 r' ∧
        ∃ t params T' σ, pairExpr.toTy Table.empty = .ok (t, params) T' ∧
          (∀ v ∈ t.occurrences, ∃ name, params.get? name = some v) ∧
          (∀ name v, params.get? name = some v →
            ∃ i, (⟨[("T", 13)]⟩ : Assoc String TypeId).get? name = some i ∧
              withPair.image i = .ok (σ v) ∧ r'.image i = .ok (σ v)) ∧
          r'.image 18 = .ok (t.subst σ) := by
  have hplain : Plain pairExpr.constructors := by decide
  have hscope : ∀ name i, (⟨[("T", 13)]⟩ : Assoc String TypeId).get? name = some i →
      i < withPair.size := by
    intro name i hname
    have hi := Assoc.mem_values_of_get? hname
    have hhas : withPair.Has [13] := by decide +kernel
    exact hhas i hi
  obtain ⟨r', hrun⟩ : ∃ r', denote pairExpr ⟨[("T", 13)]⟩ withPair = .ok 18 r' :=
    Outcome.exists_ok (by decide +kernel)
  exact ⟨reachable_withPair, hplain, r', hrun,
    denote_image reachable_withPair hscope hplain hrun Table.empty⟩

end Registry

end TypeLayer
