import Mathlib.Data.Set.Card
import TypeLayer.Proofs.Function.Locality

/-!
# New uses of types and schemes

Two calls put new unknowns in place of old ones.  `refresh` copies a type at once: it
resolves the type, and renames exactly those unknowns left in it that no known value
depends on (`refresh_renames`).

`instantiate` uses a scheme that was made before, in a table that may have changed since.
An unknown that the scheme does not quantify may have been bound meanwhile, and its binding
is followed.  If a quantified unknown is met on the way, it is replaced there as well, though
it is not the scheme that put it there.  `ComesTo` says that one unknown is met by following
the bindings from another.  The type that is returned is the type of the scheme with nothing
but the quantified unknowns renamed exactly if no other unknown of it comes to a quantified
one (`instantiate_agrees_iff`); `instantiate_captures` is a case in which one does.
-/

namespace TypeLayer

open TypeLayer.Action

namespace Table

variable {T T₀ : Table} {t : Ty} {known : Context} {s : Scheme} {v w : TyVar}

/-! ## Generalization -/

/-- The unknown occurs in the resolved type of a known value. -/
def Owns (T : Table) (known : Context) (v : TyVar) : Prop :=
  ∃ t ∈ known.values, ∃ u, T.resolve t = .ok u ∧ v ∈ u.occurrences

theorem mapM_resolve (hT : T.WellFormed) {ts : List Ty} (h : ∀ t ∈ ts, T.Covers t) :
    ts.mapM T.resolve = .ok (ts.map (Ty.subst T.solution)) := by
  induction ts with
  | nil => rfl
  | cons t ts ih =>
    obtain ⟨ht, hts⟩ := List.forall_mem_cons.1 h
    rw [List.mapM_cons, resolve_eq hT ht, ih hts]
    rfl

theorem covers_of_mapM_resolve {ts us : List Ty} (h : ts.mapM T.resolve = .ok us) :
    ∀ t ∈ ts, T.Covers t := by
  induction ts generalizing us with
  | nil => exact List.forall_mem_nil _
  | cons t ts ih =>
    rw [List.mapM_cons] at h
    cases ht : T.resolve t with
    | error f =>
      rw [ht] at h
      cases h
    | ok u =>
      cases hts : ts.mapM T.resolve with
      | error f =>
        rw [ht, hts] at h
        cases h
      | ok us' => exact List.forall_mem_cons.2 ⟨covers_of_resolve ht, ih hts⟩

theorem contextVars_eq (hT : T.WellFormed) (h : ∀ u ∈ known.values, T.Covers u) :
    T.contextVars known = .ok ((known.values.map (Ty.subst T.solution)).flatMap Ty.vars) := by
  rw [contextVars, mapM_resolve hT h]
  rfl

theorem mem_contextVars_iff (hT : T.WellFormed) (h : ∀ u ∈ known.values, T.Covers u) :
    v ∈ (known.values.map (Ty.subst T.solution)).flatMap Ty.vars ↔ T.Owns known v := by
  simp only [List.mem_flatMap, List.mem_map, Ty.vars, List.mem_eraseDups]
  constructor
  · rintro ⟨_, ⟨t, ht, rfl⟩, hv⟩
    exact ⟨t, ht, _, resolve_eq hT (h t ht), hv⟩
  · rintro ⟨t, ht, u, hu, hv⟩
    rw [resolve_eq hT (h t ht)] at hu
    exact ⟨_, ⟨t, ht, rfl⟩, Except.ok.inj hu ▸ hv⟩

/-- The scheme has the resolved type, and quantifies the unknowns left in it that no known value
depends on, each once. -/
structure Generalized (T : Table) (t : Ty) (known : Context) (s : Scheme) : Prop where
  resolved : T.resolve t = .ok s.ty
  covered : ∀ u ∈ known.values, T.Covers u
  nodup : s.vars.Nodup
  mem_vars : ∀ v, v ∈ s.vars ↔ v ∈ s.ty.occurrences ∧ ¬ T.Owns known v

theorem exists_generalize (hT : T.WellFormed) (ht : T.Covers t)
    (hknown : ∀ u ∈ known.values, T.Covers u) :
    ∃ s, T.generalize t known = .ok s ∧ T.Generalized t known s := by
  let bound := (known.values.map (Ty.subst T.solution)).flatMap Ty.vars
  let resolved := t.subst T.solution
  refine ⟨⟨resolved.vars.filter (· ∉ bound), resolved⟩, ?_, resolve_eq hT ht, hknown, ?_, ?_⟩
  · rw [generalize, resolve_eq hT ht, contextVars_eq hT hknown]
    rfl
  · exact (Scheme.canonical_vars resolved).nodup.filter _
  · intro v
    simp only [List.mem_filter, Ty.vars, List.mem_eraseDups, decide_eq_true_eq]
    exact and_congr_right fun _ => not_congr (mem_contextVars_iff hT hknown)

theorem generalize_spec (hT : T.WellFormed) (h : T.generalize t known = .ok s) :
    T.Generalized t known s := by
  have hcovers : T.Covers t ∧ ∀ u ∈ known.values, T.Covers u := by
    unfold generalize contextVars at h
    cases ht : T.resolve t with
    | error f =>
      rw [ht] at h
      cases h
    | ok u =>
      cases hknown : known.values.mapM T.resolve with
      | error f =>
        rw [ht, hknown] at h
        cases h
      | ok us => exact ⟨covers_of_resolve ht, covers_of_mapM_resolve hknown⟩
  obtain ⟨s', hs', hgeneralized⟩ := exists_generalize hT hcovers.1 hcovers.2
  rw [h] at hs'
  rw [Except.ok.inj hs']
  exact hgeneralized

theorem owns_grow (hT : T.WellFormed) (hknown : ∀ u ∈ known.values, T.Covers u) (n : Nat) :
    (T.grow n).Owns known v ↔ T.Owns known v := by
  constructor
  · rintro ⟨t, ht, u, hu, hv⟩
    rw [resolve_grow hT n (hknown t ht)] at hu
    exact ⟨t, ht, u, hu, hv⟩
  · rintro ⟨t, ht, u, hu, hv⟩
    rw [← resolve_grow hT n (hknown t ht)] at hu
    exact ⟨t, ht, u, hu, hv⟩

end Table

/-! ## The new unknowns -/

namespace Scheme

variable {s : Scheme} {v : TyVar}

/-- What a use of the scheme puts in place of an unknown: the quantified ones are given new
numbers from `n` on, in the order in which they are listed, and the others stay. -/
def renewed (s : Scheme) (n : Nat) (v : TyVar) : TyVar :=
  if v ∈ s.vars then n + s.vars.idxOf v else v

theorem renewed_of_mem (hv : v ∈ s.vars) (n : Nat) : s.renewed n v = n + s.vars.idxOf v :=
  if_pos hv

theorem renewed_of_not_mem (hv : v ∉ s.vars) (n : Nat) : s.renewed n v = v :=
  if_neg hv

theorem renewed_lt (hv : v ∈ s.vars) (n : Nat) : s.renewed n v < n + s.vars.length := by
  rw [renewed_of_mem hv]
  exact Nat.add_lt_add_left (List.idxOf_lt_length_iff.2 hv) n

end Scheme

namespace Table

variable {T T₀ : Table} {t : Ty} {known : Context} {s : Scheme} {v w : TyVar}

theorem renewal_eq (hs : s.vars.Nodup) (n : Nat) (v : TyVar) :
    renewal s n v = .var (s.renewed n v) := by
  by_cases hv : v ∈ s.vars
  · obtain ⟨i, hi, hget, hrenewal⟩ := exists_renewal hv n
    have hidx : s.vars.idxOf v = i := by
      obtain ⟨_, rfl⟩ := List.getElem?_eq_some_iff.1 hget
      exact hs.idxOf_getElem i hi
    rw [hrenewal, Scheme.renewed_of_mem hv, hidx]
  · rw [renewal_of_not_mem hv, Scheme.renewed_of_not_mem hv]

theorem replacement_renewed (hs : s.vars.Nodup) (hv : v ∈ s.vars) (n : Nat) :
    replacement? (s.vars.zipIdx n) v = some (s.renewed n v) := by
  have hkey : v ∈ (s.vars.zipIdx n).map Prod.fst := by
    rw [List.zipIdx_map_fst]
    exact hv
  obtain ⟨w, _, hw⟩ := exists_replacement hkey
  have hrenewal := renewal_eq hs n v
  rw [renewal, hw, Option.getD_some] at hrenewal
  rw [hw, Ty.var.inj hrenewal]

/-! ## Copies of a type -/

/-- The type `u` is the resolved type with the unknowns that no known value depends on renamed
one to one to new ones.  One unknown is created for each of them, and nothing else changes. -/
structure Refreshed (T : Table) (t : Ty) (known : Context) (r : Ty) (ρ : TyVar → TyVar) (u : Ty)
    (T' : Table) : Prop where
  resolved : T.resolve t = .ok r
  renamed : u = r.subst fun v => .var (ρ v)
  owned : ∀ v ∈ r.occurrences, T.Owns known v → ρ v = v
  new : ∀ v ∈ r.occurrences, ¬ T.Owns known v → T.size ≤ ρ v ∧ ρ v < T'.size
  injective : ∀ v ∈ r.occurrences, ∀ w ∈ r.occurrences, ¬ T.Owns known v → ¬ T.Owns known w →
    ρ v = ρ w → v = w
  size_eq : T'.size = T.size + {v | v ∈ r.occurrences ∧ ¬ T.Owns known v}.ncard
  kept : ∀ v < T.size, T'.classOf v = T.classOf v

theorem exists_refreshed (hT : T.WellFormed) (ht : T.Covers t)
    (hknown : ∀ u ∈ known.values, T.Covers u) :
    ∃ r ρ n u, refresh t known T = .ok u (T.grow n) ∧ T.Refreshed t known r ρ u (T.grow n) := by
  obtain ⟨s, hs, hspec⟩ := exists_generalize hT ht hknown
  have hold : ∀ {v r b}, T.classOf v = .ok (r, b) → (T.grow s.vars.length).classOf v = .ok (r, b) :=
    fun h => (classOf_grow hT).2 (.inl h)
  -- Only free unknowns are left in the resolved type, so that no binding is followed.
  have hfree : ∀ v ∈ s.ty.occurrences, T.classOf v = .ok (v, none) := by
    intro v hv
    have hresolved := hspec.resolved
    rw [resolve_eq hT ht] at hresolved
    rw [← Except.ok.inj hresolved] at hv
    obtain ⟨x, hx, hv⟩ := Ty.mem_occurrences_subst.1 hv
    exact free_of_mem_solution hT (ht x hx) hv
  have hrun : refresh t known T =
      .ok (s.ty.subst (renewal s T.size)) (T.grow s.vars.length) := by
    rw [refresh, bind_apply, Action.read, hs]
    exact instantiate_eq fun v hv _ => ⟨v, hold (hfree v hv)⟩
  have hquantified : ∀ {v}, v ∈ s.ty.occurrences → ¬ T.Owns known v → v ∈ s.vars :=
    fun hv hfree => (hspec.mem_vars _).2 ⟨hv, hfree⟩
  refine ⟨s.ty, s.renewed T.size, s.vars.length, _, hrun, hspec.resolved, ?_, ?_, ?_, ?_, ?_, ?_⟩
  · exact congrArg (Ty.subst · s.ty) (funext (renewal_eq hspec.nodup T.size))
  · intro v _ howned
    exact Scheme.renewed_of_not_mem (fun hmem => ((hspec.mem_vars v).1 hmem).2 howned) _
  · intro v hv hfree
    have hmem := hquantified hv hfree
    rw [size_grow]
    refine ⟨?_, Scheme.renewed_lt hmem _⟩
    rw [Scheme.renewed_of_mem hmem]
    exact Nat.le_add_right _ _
  · intro v hv w hw hvfree hwfree heq
    have hvmem := hquantified hv hvfree
    rw [Scheme.renewed_of_mem hvmem, Scheme.renewed_of_mem (hquantified hw hwfree)] at heq
    exact (List.idxOf_inj hvmem).1 (Nat.add_left_cancel heq)
  · have hset : {v | v ∈ s.ty.occurrences ∧ ¬ T.Owns known v} = (s.vars.toFinset : Set TyVar) := by
      ext v
      simp [hspec.mem_vars]
    rw [hset, Set.ncard_coe_finset, List.toFinset_card_of_nodup hspec.nodup, size_grow]
  · intro v hv
    obtain ⟨r, b, hclass⟩ := hT.created v hv
    rw [hclass, hold hclass]

/-- A copy of a type has exactly those unknowns renamed, to new ones and one to one, that no
known value depends on.  The table grows by one unknown for each, and is the same otherwise.  A
second copy is made with other unknowns.  The call is at fault only if a known value has a type
with unknowns that were never created. -/
theorem refresh_renames (hT : T.Reachable) (ht : T.Covers t) (known : Context) :
    ((∃ u ∈ known.values, ¬ T.Covers u) → ∃ f, refresh t known T = .fault f) ∧
    ((∀ u ∈ known.values, T.Covers u) → ∃ r ρ u T' ρ' u' T'',
      refresh t known T = .ok u T' ∧ T.Refreshed t known r ρ u T' ∧
      refresh t known T' = .ok u' T'' ∧ T'.Refreshed t known r ρ' u' T'' ∧
      ∀ v ∈ r.occurrences, ∀ w ∈ r.occurrences, ¬ T.Owns known v → ¬ T.Owns known w →
        ρ v ≠ ρ' w) := by
  have hwf := hT.wellFormed
  constructor
  · rintro ⟨u, hu, huncovered⟩
    rw [refresh, bind_apply, Action.read]
    cases hs : T.generalize t known with
    | error f => exact ⟨f, rfl⟩
    | ok s => exact absurd ((generalize_spec hwf hs).covered u hu) huncovered
  · intro hknown
    obtain ⟨r, ρ, n, u, hrun, hfirst⟩ := exists_refreshed hwf ht hknown
    have hevolved := evolved_grow hwf n
    have hle := hevolved.steps.size_le
    obtain ⟨r', ρ', n', u', hrun', hsecond⟩ := exists_refreshed hevolved.wellFormed (ht.mono hle)
      fun u hu => (hknown u hu).mono hle
    obtain rfl : r' = r := by
      have hresolved := hsecond.resolved
      rw [resolve_grow hwf n ht, hfirst.resolved] at hresolved
      exact (Except.ok.inj hresolved).symm
    refine ⟨r', ρ, u, _, ρ', u', _, hrun, hfirst, hrun', hsecond, fun v hv w hw hvfree hwfree => ?_⟩
    have hlt := (hfirst.new v hv hvfree).2
    have hge := (hsecond.new w hw ((not_congr (owns_grow hwf hknown n)).2 hwfree)).1
    exact Nat.ne_of_lt (Nat.lt_of_lt_of_le hlt hge)

/-- Known values depend on `t1` through the binding of `t0`, and on `t3` because it stands for
the same type as `t2`.  Only `t4` is renamed. -/
theorem refresh_renames_shared :
    ∃ (T : Table) (t : Ty) (known : Context), T.Reachable ∧ T.Covers t ∧
      (∀ u ∈ known.values, T.Covers u) ∧
      t = .arrow (.var 1) (.arrow (.var 2) (.arrow (.var 4) (.var 4))) ∧
      T.Owns known 1 ∧ T.Owns known 3 ∧ ∃ r ρ u T' ρ' u' T'',
        refresh t known T = .ok u T' ∧ T.Refreshed t known r ρ u T' ∧
        refresh t known T' = .ok u' T'' ∧ T'.Refreshed t known r ρ' u' T'' ∧
        ∀ v ∈ r.occurrences, ∀ w ∈ r.occurrences, ¬ T.Owns known v → ¬ T.Owns known w →
          ρ v ≠ ρ' w := by
  let t : Ty := .arrow (.var 1) (.arrow (.var 2) (.arrow (.var 4) (.var 4)))
  let known : Context := ((∅ : Context).insert 0 (.var 0)).insert 1 (.con "Pair" [.var 2, Ty.int])
  have hfresh : (empty.grow 5).Reachable := Reachable.grow .refl 5
  have hbound := hfresh.after (.unify (.var 0) (.con "List" [.var 1]) .builtin) rfl
  have hT := hbound.after (.unify (.var 2) (.var 3) .builtin) rfl
  exact ⟨_, t, known, hT, by decide +kernel, by decide +kernel, rfl,
    ⟨.var 0, by decide, .con "List" [.var 1], by decide +kernel, by decide⟩,
    ⟨.con "Pair" [.var 2, Ty.int], by decide, .con "Pair" [.var 3, Ty.int], by decide +kernel,
      by decide⟩,
    (refresh_renames hT (by decide +kernel) known).2 (by decide +kernel)⟩

/-! ## Bindings that lead from one unknown to others -/

/-- The first unknown is bound to a type in which the second one is written. -/
def Uses (T : Table) (v w : TyVar) : Prop :=
  ∃ r t, T.classOf v = .ok (r, some t) ∧ w ∈ t.occurrences

/-- The second unknown is met by following bindings from the first. -/
def ComesTo (T : Table) : TyVar → TyVar → Prop :=
  Relation.TransGen T.Uses

theorem not_comesTo_of_free {r : TyVar} (h : T.classOf v = .ok (r, none)) : ¬ T.ComesTo v w := by
  intro hvw
  obtain ⟨_, ⟨r', t, hclass, _⟩, _⟩ := Relation.TransGen.head'_iff.1 hvw
  rw [h] at hclass
  cases hclass

/-- From a bound unknown one comes to the unknowns of its binding, and to where these lead. -/
theorem comesTo_bound {r : TyVar} (h : T.classOf v = .ok (r, some t)) :
    T.ComesTo v w ↔ ∃ x ∈ t.occurrences, x = w ∨ T.ComesTo x w := by
  have huses : ∀ x, T.Uses v x ↔ x ∈ t.occurrences := by
    intro x
    constructor
    · rintro ⟨r', t', hclass, hx⟩
      rw [h] at hclass
      cases hclass
      exact hx
    · intro hx
      exact ⟨r, t, h, hx⟩
  refine Relation.TransGen.head'_iff.trans (exists_congr fun x => ?_)
  rw [huses, Relation.reflTransGen_iff_eq_or_transGen, eq_comm (a := w)]
  exact Iff.rfl

/-- Following bindings from the unknown, one meets none of the given ones. -/
def Avoids (T : Table) (v : TyVar) (vs : List TyVar) : Prop :=
  ∀ q ∈ vs, ¬ T.ComesTo v q

theorem avoids_of_free {r : TyVar} (h : T.classOf v = .ok (r, none)) (vs : List TyVar) :
    T.Avoids v vs :=
  fun _ _ => not_comesTo_of_free h

theorem avoids_bound {r : TyVar} (h : T.classOf v = .ok (r, some t)) {vs : List TyVar} :
    T.Avoids v vs ↔ ∀ x ∈ t.occurrences, x ∉ vs ∧ T.Avoids x vs := by
  constructor
  · intro hclear x hx
    refine ⟨fun hmem => ?_, fun q hq hxq => ?_⟩
    · exact hclear x hmem ((comesTo_bound h).2 ⟨x, hx, .inl rfl⟩)
    · exact hclear q hq ((comesTo_bound h).2 ⟨x, hx, .inr hxq⟩)
  · intro hclear q hq hvq
    obtain ⟨x, hx, hxq⟩ := (comesTo_bound h).1 hvq
    rcases hxq with rfl | hxq
    · exact (hclear x hx).1 hq
    · exact (hclear x hx).2 q hq hxq

/-! ## Later uses of a scheme -/

/-- The new unknown for a quantified one does not stand for the same type. -/
theorem solution_renewed_ne (hT : T.WellFormed) (hv : v ∈ s.vars) (hlt : v < T.size) :
    (T.grow s.vars.length).solution (s.renewed T.size v) ≠ (T.grow s.vars.length).solution v := by
  rw [Scheme.renewed_of_mem hv, solution_grow_new hT (List.idxOf_lt_length_iff.2 hv),
    solution_grow hT _ hlt]
  intro heq
  have hmem : T.size + s.vars.idxOf v ∈ (T.solution v).occurrences := by
    rw [← heq]
    exact Ty.mem_occurrences_var.2 rfl
  have hbelow := lt_size_of_classOf (free_of_mem_solution hT hlt hmem)
  exact Nat.not_lt.2 (Nat.le_add_right _ _) hbelow

/-- At one unknown, nothing is captured exactly if it is quantified itself or comes to no
quantified one. -/
theorem substituteWithin_agrees_iff (hT : T.WellFormed) (hs : s.vars.Nodup) {n : Nat} {u : Ty}
    (hv : v < T.size)
    (h : (T.grow s.vars.length).substituteWithin (s.vars.zipIdx T.size) n (.var v) = .ok u) :
    u.subst (T.grow s.vars.length).solution =
        (T.grow s.vars.length).solution (s.renewed T.size v) ↔
      (v ∉ s.vars → T.Avoids v s.vars) := by
  induction n using Nat.strongRecOn generalizing v u with
  | ind n ih =>
    rcases substituteWithin_cases h with
      ⟨w, hw, rfl⟩ | ⟨hnone, ⟨r, hclass⟩, rfl⟩ | ⟨hnone, r, t, m, hclass, rfl, hrun⟩
    · have hmem : v ∈ s.vars := by
        rw [← List.zipIdx_map_fst T.size s.vars]
        exact List.mem_map_of_mem (mem_of_replacement hw)
      rw [replacement_renewed hs hmem] at hw
      rw [Option.some.inj hw, Ty.subst_var]
      exact iff_of_true rfl fun hnot => absurd hmem hnot
    · rw [Scheme.renewed_of_not_mem (replacement_zipIdx_eq_none_iff.1 hnone), Ty.subst_var]
      rcases (classOf_grow hT).1 hclass with hfree | ⟨i, _, rfl, _⟩
      · exact iff_of_true rfl fun _ => avoids_of_free hfree _
      · exact absurd hv (Nat.not_lt.2 (Nat.le_add_right _ _))
    · have hkept := replacement_zipIdx_eq_none_iff.1 hnone
      have hbound : T.classOf v = .ok (r, some t) := by
        rcases (classOf_grow hT).1 hclass with hbound | ⟨_, _, _, _, hfree⟩
        · exact hbound
        · cases hfree
      obtain ⟨σ, hσ, rfl⟩ := substituteWithin_eq_ok_iff.1 hrun
      -- Inside the binding, a quantified unknown is replaced where it should have stayed.
      have heach : ∀ x ∈ t.occurrences, ((σ x).subst (T.grow s.vars.length).solution =
          (T.grow s.vars.length).solution x ↔ x ∉ s.vars ∧ T.Avoids x s.vars) := by
        intro x hx
        have hlt := hT.covered hbound x hx
        by_cases hkey : x ∈ s.vars
        · refine iff_of_false ?_ fun hclear => hclear.1 hkey
          have hreplaced := hσ x hx
          rw [substituteWithin_replaced (replacement_renewed hs hkey T.size)] at hreplaced
          rw [← Except.ok.inj hreplaced, Ty.subst_var]
          exact solution_renewed_ne hT hkey hlt
        · have hdeeper := ih m (Nat.lt_succ_self m) hlt (hσ x hx)
          rw [Scheme.renewed_of_not_mem hkey] at hdeeper
          exact hdeeper.trans ⟨fun hclear => ⟨hkey, hclear hkey⟩, fun hclear _ => hclear.2⟩
      rw [Scheme.renewed_of_not_mem hkept, solution_bound (evolved_grow hT _).wellFormed hclass,
        Ty.subst_subst, Ty.subst_eq_subst_iff]
      calc (∀ x ∈ t.occurrences, (σ x).subst (T.grow s.vars.length).solution =
            (T.grow s.vars.length).solution x)
          ↔ ∀ x ∈ t.occurrences, x ∉ s.vars ∧ T.Avoids x s.vars := forall₂_congr heach
        _ ↔ T.Avoids v s.vars := (avoids_bound hbound).symm
        _ ↔ (v ∉ s.vars → T.Avoids v s.vars) := ⟨fun hclear _ => hclear, fun hclear => hclear hkept⟩

theorem region_created (hT : T.WellFormed) : T.Region {v | v < T.size} where
  root := fun h => iff_of_true (root_lt_size_of_classOf h) (lt_size_of_classOf h)
  bound := fun h _ => hT.covered h

theorem agree_iff_solution (hT : T.WellFormed) {a b : Ty} (ha : T.Covers a) (hb : T.Covers b) :
    T.Agree a b ↔ a.subst T.solution = b.subst T.solution := by
  rw [agree_iff_resolve, resolve_eq hT ha, resolve_eq hT hb]
  constructor
  · rintro ⟨t, hat, hbt⟩
    rw [Except.ok.inj hat, Except.ok.inj hbt]
  · intro h
    exact ⟨_, rfl, by rw [h]⟩

theorem covers_renewed (hcovers : T.Covers s.ty) :
    (T.grow s.vars.length).Covers (s.ty.subst fun v => .var (s.renewed T.size v)) := by
  intro w hw
  obtain ⟨v, hv, hw⟩ := Ty.mem_occurrences_subst.1 hw
  rw [Ty.mem_occurrences_var.1 hw, size_grow]
  by_cases hmem : v ∈ s.vars
  · exact Scheme.renewed_lt hmem _
  · rw [Scheme.renewed_of_not_mem hmem]
    exact Nat.lt_add_right _ (hcovers v hv)

theorem covers_substitute (hT : T.WellFormed) (hcovers : T.Covers s.ty) {u : Ty}
    (h : (T.grow s.vars.length).substitute (s.vars.zipIdx T.size) s.ty = .ok u) :
    (T.grow s.vars.length).Covers u := by
  have hgrown := evolved_grow hT s.vars.length
  refine (region_created hgrown.wellFormed).over_substituteWithin (fun p hp => ?_)
    (fun v hv _ => hcovers.mono hgrown.steps.size_le v hv) h
  obtain ⟨hle, hget⟩ := List.mk_mem_zipIdx_iff_le_and_getElem?_sub.1 hp
  have hlt := (List.getElem?_eq_some_iff.1 hget).1
  show p.2 < (T.grow s.vars.length).size
  rw [size_grow]
  exact (Nat.sub_lt_iff_lt_add' hle).1 hlt

/-- A use of a scheme is the type of the scheme with its quantified unknowns renamed, and all
others as they stand, exactly if none of the others comes to a quantified one. -/
theorem exists_instantiate_iff (hT : T.WellFormed) (hs : s.vars.Nodup) (hcovers : T.Covers s.ty) :
    ∃ u, instantiate s T = .ok u (T.grow s.vars.length) ∧
      ((T.grow s.vars.length).Agree u (s.ty.subst fun v => .var (s.renewed T.size v)) ↔
        ∀ v ∈ s.loose, T.Avoids v s.vars) := by
  have hgrown := evolved_grow hT s.vars.length
  have hcovers' := hcovers.mono hgrown.steps.size_le
  -- Without quantified unknowns, the type of the scheme is returned without a look at bindings.
  by_cases hvars : s.vars = []
  · refine ⟨s.ty, by simp [instantiate, hvars, grow], iff_of_true ?_ ?_⟩
    · have hsame : s.ty.subst (fun v => .var (s.renewed T.size v)) = s.ty :=
        Ty.subst_eq_self fun v _ => by rw [Scheme.renewed_of_not_mem (by simp [hvars])]
      rw [hsame]
      exact agree_self hgrown.wellFormed hcovers'
    · intro v _ q hq
      rw [hvars] at hq
      cases hq
  · obtain ⟨u, hu⟩ := exists_substitute hgrown.wellFormed (s.vars.zipIdx T.size) hcovers'
    refine ⟨u, by simp [instantiate, hvars, bind_apply, freshFor_eq, Action.read, hu], ?_⟩
    rw [agree_iff_solution hgrown.wellFormed (covers_substitute hT hcovers hu)
      (covers_renewed hcovers)]
    obtain ⟨σ, hσ, rfl⟩ := substituteWithin_eq_ok_iff.1 hu
    rw [Ty.subst_subst, Ty.subst_subst, Ty.subst_eq_subst_iff]
    have heach : ∀ v ∈ s.ty.occurrences, _ := fun v hv =>
      substituteWithin_agrees_iff hT hs (hcovers v hv) (hσ v hv)
    constructor
    · intro hequal v hv
      obtain ⟨hv, hnot⟩ := Scheme.mem_loose.1 hv
      exact (heach v hv).1 (hequal v hv) hnot
    · intro hclear v hv
      exact (heach v hv).2 fun hnot => hclear v (Scheme.mem_loose.2 ⟨hv, hnot⟩)

/-- A scheme that was made in a reachable table is used in a later one.  What comes back is the
type of the scheme with its quantified unknowns renamed to new ones, and with all others as they
stand now, exactly if by now no bindings lead from one of the others to a quantified one. -/
theorem instantiate_agrees_iff (hT₀ : T₀.Reachable) (hs : T₀.generalize t known = .ok s)
    (hlater : T₀.Leads T) :
    ∃ u T', instantiate s T = .ok u T' ∧ T'.size = T.size + s.vars.length ∧
      (T'.Agree u (s.ty.subst fun v => .var (s.renewed T.size v)) ↔
        ∀ v ∈ s.loose, ∀ q ∈ s.vars, ¬ T.ComesTo v q) := by
  have hwf := hT₀.wellFormed
  have hspec := generalize_spec hwf hs
  have hevolved := Leads.evolved hlater hwf
  have hcovers : T₀.Covers s.ty :=
    (region_created hwf).over_resolve hwf (covers_of_resolve hspec.resolved) hspec.resolved
  obtain ⟨u, hrun, hagrees⟩ := exists_instantiate_iff hevolved.wellFormed hspec.nodup
    (hcovers.mono hevolved.steps.size_le)
  exact ⟨u, _, hrun, size_grow _ _, hagrees⟩

/-- Since the scheme was made, `t1` has been bound to `List t2`, and the quantified `t0` stands
for the same type as `t2`.  Yet `t2` is what the binding mentions, and it stays. -/
theorem instantiate_agrees_iff_joined :
    ∃ (T₀ T T' : Table) (known : Context) (s : Scheme) (u : Ty), T₀.Reachable ∧
      T₀.generalize (.arrow (.var 0) (.var 1)) known = .ok s ∧ T₀.Leads T ∧
      T.resolve (.var 1) = T.resolve (.con "List" [.var 0]) ∧ instantiate s T = .ok u T' ∧
      T'.Agree u (s.ty.subst fun v => .var (s.renewed T.size v)) := by
  let known : Context := (∅ : Context).insert 0 (.var 1)
  let s : Scheme := ⟨[0], .arrow (.var 0) (.var 1)⟩
  let T : Table := ⟨#[⟨2, 0, none⟩, ⟨1, 0, some (.con "List" [.var 2])⟩, ⟨2, 1, none⟩]⟩
  have hT₀ : (empty.grow 3).Reachable := Reachable.grow .refl 3
  have hs : (empty.grow 3).generalize (.arrow (.var 0) (.var 1)) known = .ok s := by
    decide +kernel
  have hlater : (empty.grow 3).Leads T :=
    (Relation.ReflTransGen.refl.tail ⟨.unify (.var 1) (.con "List" [.var 2]) .builtin, rfl⟩).tail
      ⟨.unify (.var 0) (.var 2) .builtin, by decide +kernel⟩
  obtain ⟨u, T', hrun, _, hagrees⟩ := instantiate_agrees_iff hT₀ hs hlater
  refine ⟨_, T, T', known, s, u, hT₀, hs, hlater, by decide +kernel, hrun, hagrees.2 ?_⟩
  intro v hv q hq hvq
  have hloose : s.loose = [1] := by decide
  obtain rfl : v = 1 := List.mem_singleton.1 (hloose ▸ hv)
  obtain rfl : q = 0 := List.mem_singleton.1 hq
  have hbound : T.classOf 1 = .ok (1, some (.con "List" [.var 2])) := rfl
  obtain ⟨x, hx, hx0⟩ := (comesTo_bound hbound).1 hvq
  obtain rfl : x = 2 := by simpa using hx
  rcases hx0 with hx0 | hx0
  · cases hx0
  · exact not_comesTo_of_free (r := 2) rfl hx0

/-- A known value has the type `t1`, and `forall t0. t0 -> t1` is made.  Then `t1` is bound to
`List t0`.  A use of the scheme renames `t0` in that binding too, and gives `t2 -> List t2` where
`t2 -> List t0` was to be expected. -/
theorem instantiate_captures :
    ∃ (T₀ T T' : Table) (known : Context) (s : Scheme) (u : Ty), T₀.Reachable ∧
      T₀.generalize (.arrow (.var 0) (.var 1)) known = .ok s ∧ T₀.Leads T ∧
      instantiate s T = .ok u T' ∧ T'.resolve u = .ok (.arrow (.var 2) (.con "List" [.var 2])) ∧
      T'.resolve (s.ty.subst fun v => .var (s.renewed T.size v)) =
        .ok (.arrow (.var 2) (.con "List" [.var 0])) ∧
      ¬ T'.Agree u (s.ty.subst fun v => .var (s.renewed T.size v)) := by
  let known : Context := (∅ : Context).insert 0 (.var 1)
  let s : Scheme := ⟨[0], .arrow (.var 0) (.var 1)⟩
  let T : Table := ⟨#[⟨0, 0, none⟩, ⟨1, 0, some (.con "List" [.var 0])⟩]⟩
  let u : Ty := .arrow (.var 2) (.con "List" [.var 2])
  have hT₀ : (empty.grow 2).Reachable := Reachable.grow .refl 2
  have hs : (empty.grow 2).generalize (.arrow (.var 0) (.var 1)) known = .ok s := by
    decide +kernel
  have hlater : (empty.grow 2).Leads T :=
    .single ⟨.unify (.var 1) (.con "List" [.var 0]) .builtin, rfl⟩
  have hrun : instantiate s T = .ok u (T.grow 1) :=
    Outcome.eq_ok (by decide +kernel) (by decide +kernel)
  exact ⟨_, T, _, known, s, u, hT₀, hs, hlater, hrun, by decide +kernel, by decide +kernel,
    by decide +kernel⟩

end Table

end TypeLayer
