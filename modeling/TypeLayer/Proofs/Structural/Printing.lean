import TypeLayer.Proofs.Structural.Conversion
import TypeLayer.Proofs.TypeExpr.Printing

/-!
# Printed structural types

A structural type is printed like the type expression of the same shape, in which each
unknown is a parameter that is named after its number (`Ty.render_toExpr`).  So it is read
back as that expression.  The conversion of the expression then gives a new unknown to each
name, and since different unknowns have different names, it returns the type with its unknowns
renumbered (`Ty.toTy_of_render`).
-/

namespace TypeLayer

/-! ## Spans -/

namespace TypeExpr

variable {e : TypeExpr}

theorem bare_node (name : String) (params : List TypeExpr) (parameter : Bool) (span : Span) :
    bare ⟨name, params, parameter, span⟩ = ⟨name, params.map bare, parameter, default⟩ := by
  rw [bare, bareAll_eq_map]

theorem parameters_bare (e : TypeExpr) : e.bare.parameters = e.parameters := by
  induction e using TypeExpr.induction_on with
  | node name params parameter span ih =>
    have hparams : (params.map bare).flatMap parameters = params.flatMap parameters := by
      rw [List.flatMap_map]
      exact List.flatMap_congr ih
    cases parameter <;> simp [bare_node, parameters, parametersAll_eq_flatMap, hparams]

theorem under_bare (σ : String → Ty) (e : TypeExpr) : e.bare.under σ = e.under σ := by
  induction e using TypeExpr.induction_on with
  | node name params parameter span ih =>
    rw [bare_node]
    cases parameter with
    | true => simp
    | false =>
      simp only [under_constructor, List.map_map, Ty.con.injEq, true_and]
      exact List.map_congr_left ih

theorem unapplied_bare : e.bare.Unapplied ↔ e.Unapplied := by
  induction e using TypeExpr.induction_on with
  | node name params parameter span ih =>
    rw [bare_node]
    cases parameter with
    | true => simp
    | false =>
      simp only [unapplied_constructor_iff, List.forall_mem_map]
      exact forall₂_congr ih

end TypeExpr

namespace Ty

/-! ## The expression of a type -/

mutual
/-- The type expression of the same shape. -/
def toExpr : Ty → TypeExpr
  | .var v => ⟨varName v, [], true, default⟩
  | .con name args => ⟨name, toExprAll args, false, default⟩
def toExprAll : List Ty → List TypeExpr
  | [] => []
  | t :: rest => toExpr t :: toExprAll rest
end

variable {t u : Ty} {v w : TyVar}

theorem toExprAll_eq_map (ts : List Ty) : toExprAll ts = ts.map toExpr := by
  induction ts with
  | nil => rfl
  | cons t rest ih => rw [toExprAll, ih, List.map_cons]

@[simp] theorem toExpr_var (v : TyVar) : (var v).toExpr = ⟨varName v, [], true, default⟩ := by
  rw [toExpr]

@[simp] theorem toExpr_con (name : String) (args : List Ty) :
    (con name args).toExpr = ⟨name, args.map toExpr, false, default⟩ := by
  rw [toExpr, toExprAll_eq_map]

/-- A type is printed like its expression. -/
theorem render_toExpr (t : Ty) : t.toExpr.render = t.render := by
  induction t using Ty.induction_on with
  | var v => simp [TypeExpr.render, TypeExpr.renderAll, Application.plain, render]
  | con name args ih =>
    have hargs : TypeExpr.renderAll (args.map toExpr) = renderAll args := by
      rw [TypeExpr.renderAll_eq_map, renderAll_eq_map, List.map_map]
      exact List.map_congr_left ih
    rw [toExpr_con, TypeExpr.render, if_neg Bool.false_ne_true, render, hargs]

theorem bare_toExpr (t : Ty) : t.toExpr.bare = t.toExpr := by
  induction t using Ty.induction_on with
  | var v => simp [TypeExpr.bare_node]
  | con name args ih =>
    rw [toExpr_con, TypeExpr.bare_node, List.map_map]
    exact congrArg (TypeExpr.mk name · false default) (List.map_congr_left ih)

theorem unapplied_toExpr (t : Ty) : t.toExpr.Unapplied := by
  induction t using Ty.induction_on with
  | var v => simp
  | con name args ih => simpa using ih

theorem parameters_toExpr (t : Ty) : t.toExpr.parameters = t.occurrences.map varName := by
  induction t using Ty.induction_on with
  | var v => simp [occurrences]
  | con name args ih =>
    rw [toExpr_con, TypeExpr.parameters_constructor, occurrences, occurrencesAll_eq_flatMap,
      List.flatMap_map, List.map_flatMap]
    exact List.flatMap_congr ih

theorem under_toExpr (σ : String → Ty) (t : Ty) :
    t.toExpr.under σ = t.subst fun v => σ (varName v) := by
  induction t using Ty.induction_on with
  | var v => simp
  | con name args ih =>
    simp only [toExpr_con, TypeExpr.under_constructor, subst_con, List.map_map, con.injEq,
      true_and]
    exact List.map_congr_left ih

/-! ## Names of unknowns -/

theorem toList_varName (v : TyVar) : (varName v).toList = 't' :: v.repr.toList := by
  rw [varName, String.toList_append]
  rfl

theorem varName_inj (h : varName v = varName w) : v = w := by
  have hlist := congrArg String.toList h
  rw [toList_varName, toList_varName] at hlist
  exact repr_inj (List.cons.inj hlist).2

theorem isWord_varName (v : TyVar) : IsWord (varName v) := by
  refine ⟨'t', v.repr.toList, toList_varName v, by decide, fun d hd => ?_⟩
  simp [isWordPart, Char.isAlphanum, isDigit_of_mem_repr hd]

theorem not_startsUpper_varName (v : TyVar) : ¬ TypeExpr.StartsUpper (varName v) := by
  rw [TypeExpr.startsUpper_iff, toList_varName]
  show ¬ decide ('A' ≤ 't' ∧ 't' ≤ 'Z') = true
  decide

/-- Types with the same expression are the same. -/
theorem toExpr_inj (h : t.toExpr = u.toExpr) : t = u := by
  induction t using Ty.induction_on generalizing u with
  | var v =>
    cases u with
    | var w => exact congrArg var (varName_inj (congrArg TypeExpr.name h))
    | con name args => cases congrArg TypeExpr.parameter h
  | con name args ih =>
    cases u with
    | var w => cases congrArg TypeExpr.parameter h
    | con name' args' =>
      rw [toExpr_con, toExpr_con] at h
      obtain ⟨hname, hargs, -, -⟩ := TypeExpr.mk.inj h
      refine congr (congrArg con hname) ?_
      have hlength : args.length = args'.length := by simpa using congrArg List.length hargs
      refine List.ext_getElem hlength fun i hi hi' => ih _ (List.getElem_mem hi) ?_
      simpa [hi, hi'] using congrArg (fun l : List TypeExpr => l[i]?) hargs

/-! ## Reading what was printed -/

/-- The types whose printed form can be read. -/
inductive Printable : Ty → Prop
  | var (v : TyVar) : Printable (.var v)
  | arrow {domain codomain : Ty} : Printable domain → Printable codomain →
    Printable (.con arrowName [domain, codomain])
  | tuple {items : List Ty} : items.length ≠ 1 → (∀ t ∈ items, Printable t) →
    Printable (.con tupleName items)
  | constructor {name : String} {args : List Ty} : IsWord name → TypeExpr.StartsUpper name →
    (∀ t ∈ args, Printable t) → Printable (.con name args)

theorem Printable.toExpr (h : t.Printable) : t.toExpr.Printable := by
  induction h with
  | var v =>
    rw [toExpr_var]
    exact .parameter (isWord_varName v) (not_startsUpper_varName v) (List.forall_mem_nil _)
  | arrow _ _ ihd ihc =>
    rw [toExpr_con]
    exact .arrow ihd ihc
  | tuple hlength _ ih =>
    rw [toExpr_con]
    refine .tuple (by simpa using hlength) ?_
    simpa using ih
  | constructor hname hupper _ ih =>
    rw [toExpr_con]
    refine .constructor hname hupper ?_
    simpa using ih

/-- The printed form of a type is read as its expression. -/
theorem Printable.exists_parse (h : t.Printable) :
    ∃ e, TypeExpr.parse t.render = .ok e ∧ e.bare = t.toExpr := by
  obtain ⟨e, hparse, hbare⟩ := TypeExpr.exists_parse_render h.toExpr
  rw [render_toExpr] at hparse
  rw [bare_toExpr] at hbare
  exact ⟨e, hparse, hbare⟩

/-- New numbers for the unknowns of a type, in a table that grew from `T` to `T'`: different
unknowns have different ones. -/
structure Renumbers (t : Ty) (T T' : Table) (ρ : TyVar → TyVar) : Prop where
  inj : ∀ v ∈ t.occurrences, ∀ w ∈ t.occurrences, ρ v = ρ w → v = w
  new : ∀ v ∈ t.occurrences, T.size ≤ ρ v ∧ ρ v < T'.size

/-- An expression that reads like a type is converted to the type with new unknowns. -/
theorem exists_toTy {e : TypeExpr} (he : e.bare = t.toExpr) (T : Table) :
    ∃ ρ params T', e.toTy T = .ok (t.subst fun v => .var (ρ v), params) T' ∧
      t.Renumbers T T' ρ := by
  have hunapplied : e.Unapplied := TypeExpr.unapplied_bare.1 (he ▸ t.unapplied_toExpr)
  have hnumbered := e.numbered_converted T
  have hmet : ∀ v ∈ t.occurrences,
      ∃ w, (e.converted T).params.get? (varName v) = some w := by
    intro v hv
    rw [← Assoc.mem_keys_iff, TypeExpr.mem_keys_converted, ← TypeExpr.parameters_bare, he,
      parameters_toExpr]
    exact List.mem_map_of_mem hv
  refine ⟨fun v => (e.converted T).unknown (varName v), (e.converted T).params,
    (e.converted T).table, ?_, fun v hv w hw heq => ?_, fun v hv => ?_⟩
  · rw [TypeExpr.toTy_eq hunapplied, ← TypeExpr.under_bare, he, under_toExpr]
  · obtain ⟨x, hx⟩ := hmet v hv
    obtain ⟨y, hy⟩ := hmet w hw
    rw [Conversion.unknown_eq hx, Conversion.unknown_eq hy] at heq
    exact varName_inj (hnumbered.eq_of_get? hx (heq ▸ hy))
  · obtain ⟨x, hx⟩ := hmet v hv
    rw [Conversion.unknown_eq hx]
    exact ⟨(hnumbered.get?_eq_some_iff.1 hx).1, hnumbered.lt_size hx⟩

/-- Structural types survive printing and reading. The printed form is read, and from any table
the result is converted to the same type with new unknowns, one for each unknown of the type.
Types with the same printed form are equal. -/
theorem toTy_of_render (h : t.Printable) :
    ∃ e, TypeExpr.parse t.render = .ok e ∧
      (∀ T : Table, ∃ ρ params T', e.toTy T = .ok (t.subst fun v => .var (ρ v), params) T' ∧
        t.Renumbers T T' ρ) ∧
      ∀ u : Ty, u.Printable → u.render = t.render → u = t := by
  obtain ⟨e, hparse, hbare⟩ := h.exists_parse
  refine ⟨e, hparse, exists_toTy hbare, fun u hu hrender => ?_⟩
  have hexprs := TypeExpr.bare_eq_of_render_eq hu.toExpr h.toExpr
    (by rw [render_toExpr, render_toExpr, hrender])
  rw [bare_toExpr, bare_toExpr] at hexprs
  exact toExpr_inj hexprs

/-- A map from an unknown to functions that use the same unknown and another one. -/
theorem toTy_of_render_mapped :
    let pair : Ty := .con tupleName [.var 0, .con "Int" []]
    let t : Ty := .con "Map"
      [.var 7, .con arrowName [.con tupleName [], .con arrowName [.var 7, pair]]]
    t.Printable ∧ t.render = "Map" ++ Text.braced "t7, (() -> (t7 -> (t0, Int)))" ∧
      ∃ e, TypeExpr.parse t.render = .ok e ∧
        (∃ (ρ : TyVar → TyVar) (params : Assoc String TyVar) (T' : Table),
          e.toTy Table.empty.fresh.2 = .ok (t.subst fun v => .var (ρ v), params) T' ∧
            1 ≤ ρ 7 ∧ ρ 7 ≠ ρ 0) ∧
        ∀ u : Ty, u.Printable → u.render = t.render → u = t := by
  intro pair t
  have hint : Printable (.con "Int" []) :=
    .constructor (isWord_of_all rfl rfl rfl) (by decide) (List.forall_mem_nil _)
  have hpair : pair.Printable :=
    .tuple (by decide) (List.forall_mem_cons.2 ⟨.var 0, List.forall_mem_singleton.2 hint⟩)
  have hunit : Printable (.con tupleName []) := .tuple (by decide) (List.forall_mem_nil _)
  have ht : t.Printable := by
    refine .constructor (isWord_of_all rfl rfl rfl) (by decide)
      (List.forall_mem_cons.2 ⟨.var 7, List.forall_mem_singleton.2 ?_⟩)
    exact .arrow hunit (.arrow (.var 7) hpair)
  obtain ⟨e, hparse, hconvert, heq⟩ := toTy_of_render ht
  obtain ⟨ρ, params, T', hrun, hinj, hnew⟩ := hconvert Table.empty.fresh.2
  refine ⟨ht, by decide +kernel, e, hparse, ⟨ρ, params, T', hrun, ?_, fun h => ?_⟩, heq⟩
  · exact (hnew 7 (by decide)).1
  · cases hinj 7 (by decide) 0 (by decide) h

end Ty

end TypeLayer
