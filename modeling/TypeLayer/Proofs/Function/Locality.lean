import Mathlib.Data.List.Induction
import TypeLayer.Proofs.Function.Principal
import TypeLayer.Proofs.Structural.Region

/-!
# Locality of typing

Typing a function changes the table only in the zone of its unknowns: the classes of
these, and the unknowns created on the way (`Deduction.local_invariant`).  A scheme is
used with new unknowns in place of those that it quantifies, so that only what it does
not quantify has to be in the zone (`Table.yields_instantiate_confined`).  Closed schemes
are used in any zone.  The scheme that is published is closed, since all unknowns of the
type are quantified (`Inference.inferFunc_eq_ok`).
-/

namespace TypeLayer

open TypeLayer.Action

/-! ## Generalization -/

/-- The scheme quantifies all unknowns of its type and no others, each once, in the
order of first occurrence. -/
structure Scheme.Canonical (s : Scheme) : Prop where
  closed : s.Closed
  occurs : ∀ v ∈ s.vars, v ∈ s.ty.occurrences
  nodup : s.vars.Nodup
  ordered : s.vars.Pairwise fun v w => s.ty.occurrences.idxOf v < s.ty.occurrences.idxOf w

theorem Ty.pairwise_eraseDups (vs : List TyVar) :
    vs.eraseDups.Pairwise fun v w => vs.idxOf v < vs.idxOf w := by
  induction vs using List.reverseRecOn with
  | nil => simp
  | append_singleton vs u ih =>
    have hlast : (List.removeAll [u] vs).eraseDups = if u ∈ vs then [] else [u] := by
      by_cases hu : u ∈ vs <;> simp [List.removeAll, List.eraseDups_cons, hu]
    rw [List.eraseDups_append, List.pairwise_append]
    refine ⟨ih.imp_of_mem fun {v w} hv hw hlt => ?_, ?_, fun v hv w hw => ?_⟩
    · rw [List.mem_eraseDups] at hv hw
      rw [List.idxOf_append_of_mem hv, List.idxOf_append_of_mem hw]
      exact hlt
    · rw [hlast]
      split
      · exact List.Pairwise.nil
      · exact List.pairwise_singleton _ _
    · rw [List.mem_eraseDups] at hv
      rw [hlast] at hw
      split at hw
      · cases hw
      · rename_i hu
        rw [List.mem_singleton] at hw
        rw [hw, List.idxOf_append_of_mem hv, List.idxOf_append_of_notMem hu]
        exact Nat.lt_of_lt_of_le (List.idxOf_lt_length_iff.2 hv) (Nat.le_add_right _ _)

theorem Scheme.canonical_vars (t : Ty) : Scheme.Canonical ⟨t.vars, t⟩ where
  closed := fun v hv => List.mem_eraseDups.2 hv
  occurs := fun v hv => List.mem_eraseDups.1 hv
  nodup := (Ty.pairwise_eraseDups t.occurrences).imp fun hlt heq => by simp [heq] at hlt
  ordered := Ty.pairwise_eraseDups t.occurrences

namespace Table

variable {T : Table}

/-- Where nothing is known, all unknowns of the resolved type are quantified. -/
theorem generalize_eq_ok {t : Ty} {s : Scheme} (h : T.generalize t ∅ = .ok s) :
    ∃ u, T.resolve t = .ok u ∧ s = ⟨u.vars, u⟩ := by
  unfold generalize at h
  cases hu : T.resolve t with
  | error e =>
    rw [hu] at h
    cases h
  | ok u =>
    rw [hu] at h
    refine ⟨u, rfl, ?_⟩
    have hnone : T.contextVars ∅ = .ok [] := rfl
    simp only [Bind.bind, Except.bind, hnone, pure, Except.pure, Except.ok.injEq] at h
    rw [← h]
    simp

theorem canonical_of_generalize {t : Ty} {s : Scheme} (h : T.generalize t ∅ = .ok s) :
    s.Canonical := by
  obtain ⟨u, _, rfl⟩ := generalize_eq_ok h
  exact Scheme.canonical_vars u

/-! ## Zones -/

/-- What typing functions with the given unknowns may touch: the unknowns that stand for
the same type as one of these, and the unknowns still to be created. -/
def zone (T : Table) (vs : List TyVar) : Set TyVar :=
  {v | T.size ≤ v ∨ ∃ u ∈ vs, T.SameClass u v}

variable {T' : Table} {vs ws : List TyVar} {R : Set TyVar}

theorem mem_zone_of_size_le {v : TyVar} (h : T.size ≤ v) : v ∈ T.zone vs :=
  Or.inl h

theorem Independent.mono (h : T.Independent ws) (hsub : vs ⊆ ws) : T.Independent vs :=
  ⟨fun v hv => h.free v (hsub hv), fun v hv w hw => h.apart v (hsub hv) w (hsub hw)⟩

theorem Independent.mem_zone (h : T.Independent vs) {u : TyVar} (hu : u ∈ vs) : u ∈ T.zone vs := by
  obtain ⟨r, hclass⟩ := h.free u hu
  exact Or.inr ⟨u, hu, r, none, hclass, hclass⟩

theorem Independent.region_zone (h : T.Independent vs) (hT : T.WellFormed) :
    T.Region (T.zone vs) := by
  constructor
  · intro v r b hclass
    have hnew : ¬ T.size ≤ v := Nat.not_le.2 (lt_size_of_classOf hclass)
    have hnew' : ¬ T.size ≤ r := Nat.not_le.2 (root_lt_size_of_classOf hclass)
    have hsame : T.classOf r = T.classOf v := (hT.rooted hclass).trans hclass.symm
    simp only [zone, Set.mem_ofPred_eq, hnew, hnew', false_or, SameClass, hsame]
  · intro v r t hclass hv
    -- The classes of a zone are free.
    rcases hv with hnew | ⟨u, hu, q, b, huq, hvq⟩
    · exact absurd (lt_size_of_classOf hclass) (Nat.not_lt.2 hnew)
    · obtain ⟨q', hfree⟩ := h.free u hu
      rw [huq] at hfree
      rw [hclass] at hvq
      cases hfree
      cases hvq

theorem Independent.not_mem_zone (h : T.Independent (vs ++ ws)) (hnodup : (vs ++ ws).Nodup)
    {w : TyVar} (hw : w ∈ ws) : w ∉ T.zone vs := by
  obtain ⟨r, hclass⟩ := h.free w (List.mem_append_right _ hw)
  rintro (hnew | ⟨u, hu, hsame⟩)
  · exact absurd (lt_size_of_classOf hclass) (Nat.not_lt.2 hnew)
  · have heq := h.apart u (List.mem_append_left _ hu) w (List.mem_append_right _ hw) hsame
    exact (List.nodup_append.1 hnodup).2.2 u hu w hw heq

/-- What is imposed on some unknowns leaves others independent. -/
theorem Confined.independent (h : T.Confined (T.zone vs) T') (hfree : T.Independent (vs ++ ws))
    (hnodup : (vs ++ ws).Nodup) : T'.Independent ws := by
  have houtside : ∀ {w}, w ∈ ws → w ∉ T.zone vs := fun hw => hfree.not_mem_zone hnodup hw
  constructor
  · intro w hw
    obtain ⟨r, hclass⟩ := hfree.free w (List.mem_append_right _ hw)
    exact ⟨r, (h.outside (houtside hw)).2 hclass⟩
  · intro v hv w hw hsame
    obtain ⟨r, b, hv', hw'⟩ := hsame
    refine hfree.apart v (List.mem_append_right _ hv) w (List.mem_append_right _ hw) ⟨r, b, ?_, ?_⟩
    · exact (h.outside (houtside hv)).1 hv'
    · exact (h.outside (houtside hw)).1 hw'

/-- A region of created unknowns is disjoint from the zone of unknowns outside it. -/
theorem Region.disjoint_zone (hR : T.Region R) (hcreated : ∀ v ∈ R, v < T.size)
    (hvs : ∀ u ∈ vs, u ∉ R) : ∀ v ∈ R, v ∉ T.zone vs := by
  intro v hv hzone
  rcases hzone with hnew | ⟨u, hu, hsame⟩
  · exact absurd (hcreated v hv) (Nat.not_lt.2 hnew)
  · exact hvs u hu ((hR.sameClass hsame).2 hv)

end Table

/-! ## Typing inside a set -/

/-- All unknowns of the function are in the set. -/
def Func.Within (f : Func) (Z : Set TyVar) : Prop :=
  ∀ u ∈ f.unknowns, u ∈ Z

/-- The unknowns of the scheme that it does not quantify. -/
def Scheme.loose (s : Scheme) : List TyVar :=
  s.ty.occurrences.filter fun v => v ∉ s.vars

theorem Scheme.mem_loose {s : Scheme} {v : TyVar} :
    v ∈ s.loose ↔ v ∈ s.ty.occurrences ∧ v ∉ s.vars := by
  simp [loose]

theorem Scheme.Closed.not_mem_loose {s : Scheme} (h : s.Closed) {v : TyVar} : v ∉ s.loose :=
  fun hv => (mem_loose.1 hv).2 (h v (mem_loose.1 hv).1)

theorem Scheme.loose_mono (t : Ty) : (Scheme.mono t).loose = t.occurrences := by
  simp [loose, mono]

/-- What the schemes do not quantify is in the set. -/
def Env.Within (env : Env) (Z : Set TyVar) : Prop :=
  ∀ name s, env.get? name = some s → ∀ u ∈ s.loose, u ∈ Z

section
variable {T₀ T : Table} {Z : Set TyVar} {f : Func} {env : Env}

theorem Func.Within.ret (h : f.Within Z) : f.ret.Over Z :=
  fun u hu => h u (List.mem_append_left _ hu)

theorem Func.Within.own (h : f.Within Z) {value : Value} (hvalue : value ∈ f.values) :
    value.ty.Over Z :=
  fun u hu => h u (List.mem_append_right _
    (List.mem_flatMap.2 ⟨value, Array.mem_toList_iff.2 hvalue, hu⟩))

theorem Func.Within.prototype (h : f.Within Z) : f.prototype.Over Z := by
  refine Ty.over_curried (fun t ht => ?_) h.ret
  obtain ⟨v, hv, rfl⟩ := List.mem_map.1 ht
  cases hvalue : f.values[v]? with
  | none =>
    rw [Func.typeOf, hvalue]
    exact Ty.over_nullary _
  | some value =>
    rw [Func.typeOf_eq hvalue]
    exact h.own (Array.mem_of_getElem? hvalue)

theorem Env.Within.insert (h : env.Within Z) {name : String} {s : Scheme}
    (hs : ∀ u ∈ s.loose, u ∈ Z) : Env.Within (env.insert name s) Z := by
  intro other s' hs'
  rw [Assoc.get?_insert] at hs'
  split at hs'
  · obtain rfl := Option.some.inj hs'
    exact hs
  · exact h other s' hs'

namespace Table

variable {pairs : List (TyVar × TyVar)} {v : TyVar}

/-- Replacing unknowns by unknowns of a region gives a type over the region, if all that
are not replaced are in the region. -/
theorem Region.over_substituteWithin (hZ : T.Region Z) (hpairs : ∀ p ∈ pairs, p.2 ∈ Z) {n : Nat}
    {t u : Ty} (ht : ∀ v ∈ t.occurrences, v ∉ pairs.map Prod.fst → v ∈ Z)
    (h : T.substituteWithin pairs n t = .ok u) : u.Over Z := by
  induction n using Nat.strongRecOn generalizing t u with
  | ind n ih =>
    obtain ⟨σ, hσ, rfl⟩ := substituteWithin_eq_ok_iff.1 h
    intro w hw
    obtain ⟨v, hv, hw⟩ := Ty.mem_occurrences_subst.1 hw
    have hkept : replacement? pairs v = none → v ∈ Z := fun hnone =>
      ht v hv (replacement_eq_none_iff.1 hnone)
    rcases substituteWithin_cases (hσ v hv) with
      ⟨w', hw', heq⟩ | ⟨hnone, _, heq⟩ | ⟨hnone, r, t', m, hclass, rfl, hrun⟩
    · rw [heq, Ty.mem_occurrences_var] at hw
      rw [hw]
      exact hpairs _ (mem_of_replacement hw')
    · rw [heq, Ty.mem_occurrences_var] at hw
      rw [hw]
      exact hkept hnone
    · exact ih m (Nat.lt_succ_self m) (fun x hx _ => hZ.bound hclass (hkept hnone) x hx) hrun w hw

/-- A scheme is used with new unknowns in place of those that it quantifies, and so inside
any set that holds these and the others. -/
theorem yields_instantiate_confined (hnew : ∀ v, T₀.size ≤ v → v ∈ Z) {s : Scheme}
    (hs : ∀ u ∈ s.loose, u ∈ Z) : Yields (T₀.Confined Z) (Ty.Over Z) (instantiate s) := by
  intro T hT
  unfold instantiate
  split
  · rename_i hvars
    rw [List.isEmpty_iff] at hvars
    refine ⟨hT, fun u hu => hs u (Scheme.mem_loose.2 ⟨hu, ?_⟩)⟩
    simp [hvars]
  · have hgrown := hT.grow hnew s.vars.length
    rw [bind_apply, freshFor_eq]
    refine meets_read fun u hu => ⟨hgrown, ?_⟩
    refine hgrown.region.over_substituteWithin (fun p hp => ?_) (fun v hv hkey => ?_) hu
    · obtain ⟨hle, _⟩ := List.mk_mem_zipIdx_iff_le_and_getElem?_sub.1 hp
      exact hnew _ (Nat.le_trans hT.size_le hle)
    · rw [List.zipIdx_map_fst] at hkey
      exact hs v (Scheme.mem_loose.2 ⟨hv, hkey⟩)

end Table

namespace Deduction

/-- The table has changed inside the set only, and the types found are over the set.
Values that refer to functions are known under the types they were given. -/
structure Local (T₀ : Table) (Z : Set TyVar) (f : Func) (d : Deduction) : Prop where
  confined : T₀.Confined Z d.table
  known : ∀ v t, d.known.get? v = some t → t.Over Z
  global : ∀ (v : ValueId) name own t, f.values[v]? = some ⟨.global name, own⟩ →
    d.known.get? v = some t → t = own

theorem Local.start (h : T₀.Confined Z T) : Local T₀ Z f ⟨T, ∅⟩ :=
  ⟨h, fun _ _ hv => (nomatch hv), fun _ _ _ _ _ hv => (nomatch hv)⟩

theorem Local.recorded {d : Deduction} (h : Local T₀ Z f d) {v : ValueId} {value : Value} {t : Ty}
    (hv : f.values[v]? = some value) (hglobal : ∀ name, value.kind = .global name → t = value.ty)
    (ht : t.Over Z) : Local T₀ Z f { d with known := d.known.insert v t } := by
  refine ⟨h.confined, fun w u hw => ?_, fun w name own u hown hw => ?_⟩
  · rw [Assoc.get?_insert] at hw
    split at hw
    · obtain rfl := Option.some.inj hw
      exact ht
    · exact h.known w u hw
  · rw [Assoc.get?_insert] at hw
    split at hw
    · rename_i heq
      subst heq
      obtain rfl := Option.some.inj hw
      obtain rfl := Option.some.inj (hv.symm.trans hown)
      exact hglobal name rfl
    · exact h.global w name own u hown hw

theorem local_invariant (hnew : ∀ v, T₀.size ≤ v → v ∈ Z) (hf : f.Within Z) (henv : env.Within Z) :
    Invariant (Local T₀ Z f) (Ty.Over Z) env f where
  unify := fun a b origin ha hb d hd => by
    unfold unify solve
    refine meets_zoom ((Table.keeps_unify_confined ha hb d.table hd.confined).mono ?_ ?_)
    · exact fun _ T h => { hd with confined := h }
    · exact fun _ T h => { hd with confined := h }
  instantiate := fun name s hs d hd => by
    unfold solve
    refine meets_zoom ((Table.yields_instantiate_confined hnew (henv name s hs) d.table
      hd.confined).mono ?_ ?_)
    · exact fun t T h => ⟨{ hd with confined := h.1 }, h.2⟩
    · exact fun _ T h => { hd with confined := h }
  known := fun d v t hd => hd.known v t
  record := fun v value t hv hglobal ht d hd => hd.recorded hv hglobal ht
  own := fun v value hv => hf.own (Array.mem_of_getElem? hv)
  ret := hf.ret
  bool := Ty.over_nullary _
  unit := Ty.over_nullary _
  curried := fun ts t => Ty.over_curried

/-- A value that refers to a function is typed by the type it was given. -/
theorem known_global (hT : T.WellFormed) {d : Deduction}
    (h : deduceAll env f ⟨T, ∅⟩ = .ok () d) {v : ValueId} {name : String} {own t : Ty}
    (hvalue : f.values[v]? = some ⟨.global name, own⟩) (hv : d.known.get? v = some t) :
    t = own := by
  have hinvariant : Invariant (Local T Set.univ f) (Ty.Over Set.univ) env f :=
    local_invariant (fun _ _ => trivial) (fun _ _ => trivial) fun _ _ _ _ _ => trivial
  have hregion : T.Region Set.univ := ⟨fun _ => Iff.rfl, fun _ _ _ _ => trivial⟩
  have hend := hinvariant.deduceEach (f.args ++ f.instrs) _ (.start (hregion.confined hT))
  unfold deduceAll at h
  rw [h] at hend
  exact hend.global v name own t hvalue hv

end Deduction

namespace Inference

/-- The table has changed inside the set only, and what the schemes do not quantify is in
the set. -/
structure Local (T₀ : Table) (Z : Set TyVar) (s : Inference) : Prop where
  confined : T₀.Confined Z s.table
  env : s.env.Within Z

variable {s s' : Inference} {scheme : Scheme}

/-- The environment that a function is typed in: it is known under its prototype. -/
def envFor (f : Func) (env : Env) : Env :=
  env.insert f.name (.mono f.prototype)

theorem inferFunc_apply (hf : f.signature = .ok f.prototype) (s : Inference) :
    inferFunc f s =
      (do
        let t ← Action.zoom Inference.table (fun table s => { s with table })
          (f.infer (envFor f s.env))
        let scheme ← Action.read fun s => s.table.generalize t ∅
        Action.modify fun s => { s with env := s.env.insert f.name scheme }
        return scheme : Action Inference TypeError Scheme) { s with env := envFor f s.env } := by
  simp only [inferFunc, hf]
  rfl

theorem signature_of_inferFunc (h : inferFunc f s = .ok scheme s') :
    f.signature = .ok f.prototype := by
  obtain ⟨own, _, hread, _⟩ := bind_eq_ok_iff.1 h
  have hown := (read_eq_ok_iff.1 hread).1
  rw [hown, Func.eq_prototype hown]

/-- A function is typed where it is known under its prototype, and then its type is
generalized. -/
theorem exists_infer (hf : f.signature = .ok f.prototype) (h : inferFunc f s = .ok scheme s') :
    ∃ t T', f.infer (envFor f s.env) s.table = .ok t T' ∧ T'.generalize t ∅ = .ok scheme ∧
      s' = ⟨T', (envFor f s.env).insert f.name scheme⟩ := by
  rw [inferFunc_apply hf] at h
  obtain ⟨t, s₁, hzoom, hrest⟩ := bind_eq_ok_iff.1 h
  obtain ⟨T', hinfer, rfl⟩ := zoom_eq_ok_iff.1 hzoom
  obtain ⟨scheme, s₂, hread, hpublish⟩ := bind_eq_ok_iff.1 hrest
  obtain ⟨hscheme, rfl⟩ := read_eq_ok_iff.1 hread
  cases hpublish
  exact ⟨t, T', hinfer, hscheme, rfl⟩

theorem inferFunc_eq_ok (hf : f.Scoped T) (h : inferFunc f s = .ok scheme s') :
    ∃ t T', f.infer (envFor f s.env) s.table = .ok t T' ∧ scheme.Canonical ∧
      s' = ⟨T', (envFor f s.env).insert f.name scheme⟩ := by
  obtain ⟨t, T', hinfer, hscheme, rfl⟩ := exists_infer (Func.signature_eq hf) h
  exact ⟨t, T', hinfer, Table.canonical_of_generalize hscheme, rfl⟩

theorem keeps_inferFunc_local (hnew : ∀ v, T₀.size ≤ v → v ∈ Z) (hscoped : f.Scoped T₀)
    (hf : f.Within Z) : Keeps (Local T₀ Z) (inferFunc f) := by
  intro s hs
  have henv : (envFor f s.env).Within Z :=
    hs.env.insert (Scheme.loose_mono f.prototype ▸ hf.prototype)
  have hinfer := (Deduction.local_invariant hnew hf henv).infer (.start hs.confined)
  rw [inferFunc_apply (Func.signature_eq hscoped)]
  refine meets_bind (Q := fun _ => Local T₀ Z) (meets_zoom (hinfer.mono ?_ ?_)) ?_
  · rintro _ T ⟨_, hd⟩
    exact ⟨hd.confined, henv⟩
  · rintro _ T ⟨_, hd⟩
    exact ⟨hd.confined, henv⟩
  · intro t s' hs'
    refine meets_read_bind fun scheme hscheme => ?_
    have hclosed := (Table.canonical_of_generalize hscheme).closed
    exact ⟨hs'.confined, hs'.env.insert fun u hu => absurd hu hclosed.not_mem_loose⟩

theorem closed_inferFunc (hf : f.Scoped T) (henv : s.env.Closed)
    (h : inferFunc f s = .ok scheme s') : s'.env.Closed := by
  obtain ⟨t, T', _, hscheme, rfl⟩ := inferFunc_eq_ok hf h
  intro name u hu
  simp only [envFor, Assoc.get?_insert] at hu
  split at hu
  · obtain rfl := Option.some.inj hu
    exact hscheme.closed
  · exact henv name u hu

theorem inferProgram_cons_eq_ok {fs : List Func} {schemes : List Scheme}
    (h : inferProgram (f :: fs) s = .ok schemes s') :
    ∃ scheme s₁ rest, inferFunc f s = .ok scheme s₁ ∧ inferProgram fs s₁ = .ok rest s' ∧
      schemes = scheme :: rest := by
  unfold inferProgram at h
  rw [List.mapM_cons] at h
  obtain ⟨scheme, s₁, hfirst, hrest⟩ := bind_eq_ok_iff.1 h
  obtain ⟨rest, s₂, hrest, hpure⟩ := bind_eq_ok_iff.1 hrest
  cases hpure
  exact ⟨scheme, s₁, rest, hfirst, hrest, rfl⟩

theorem inferProgram_append_eq_ok {fs gs : List Func} {schemes : List Scheme}
    (h : inferProgram (fs ++ gs) s = .ok schemes s') :
    ∃ before s₁ after, inferProgram fs s = .ok before s₁ ∧ inferProgram gs s₁ = .ok after s' ∧
      schemes = before ++ after := by
  unfold inferProgram at h
  rw [List.mapM_append] at h
  obtain ⟨before, s₁, hbefore, hrest⟩ := bind_eq_ok_iff.1 h
  obtain ⟨after, s₂, hafter, hpure⟩ := bind_eq_ok_iff.1 hrest
  cases hpure
  exact ⟨before, s₁, after, hbefore, hafter, rfl⟩

/-- Only canonical schemes are published, and closed schemes stay. -/
theorem inferProgram_published {fs : List Func} {schemes : List Scheme}
    (hfs : ∀ f ∈ fs, ∃ T, f.Scoped T) (henv : s.env.Closed)
    (h : inferProgram fs s = .ok schemes s') :
    s'.env.Closed ∧ ∀ scheme ∈ schemes, scheme.Canonical := by
  induction fs generalizing s schemes with
  | nil =>
    cases h
    exact ⟨henv, fun scheme hscheme => nomatch hscheme⟩
  | cons f fs ih =>
    obtain ⟨scheme, s₁, rest, hfirst, hrest, rfl⟩ := inferProgram_cons_eq_ok h
    obtain ⟨⟨T, hf⟩, hfs⟩ := List.forall_mem_cons.1 hfs
    obtain ⟨henv', hcanonical⟩ := ih hfs (closed_inferFunc hf henv hfirst) hrest
    obtain ⟨_, _, _, hscheme, _⟩ := inferFunc_eq_ok hf hfirst
    exact ⟨henv', List.forall_mem_cons.2 ⟨hscheme, hcanonical⟩⟩

end Inference

end

end TypeLayer
