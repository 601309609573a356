import TypeLayer.Proofs.Function.Program

/-!
# Generalization and the environment

When a function has been typed, all unknowns that are left in its type are quantified.
The environment is not consulted, and a scheme in it may use one of these unknowns
without quantifying it.  Such an unknown has been captured
(`Inference.inferProgram_captures`).

There is no capture without a link.  If typing a function captures an unknown that
another scheme uses, then this unknown comes from one that the other scheme used before,
and so did the function or a scheme that the function mentions
(`Inference.linked_of_captured`).  The argument is one of locality.  What does not depend
on a given unknown is a region (`Table.region_away`), and typing a function that has no
link to the unknown is confined to that region (`Inference.confined_away`).
-/

namespace TypeLayer

open TypeLayer.Action

namespace Table

variable {T : Table} {v x : TyVar} {vs : List TyVar}

/-- The unknown occurs in what one of the given ones is resolved to. -/
def Involves (T : Table) (vs : List TyVar) (x : TyVar) : Prop :=
  ∃ u ∈ vs, x ∈ (T.solution u).occurrences

instance : Decidable (T.Involves vs x) :=
  inferInstanceAs (Decidable (∃ u ∈ vs, x ∈ (T.solution u).occurrences))

/-! ## Unknowns that do not depend on a given one -/

/-- The unknowns that do not depend on a given one, and those still to be created. -/
def away (T : Table) (x : TyVar) : Set TyVar :=
  {v | T.size ≤ v ∨ x ∉ (T.solution v).occurrences}

theorem mem_away_of_size_le (h : T.size ≤ v) : v ∈ T.away x :=
  Or.inl h

theorem mem_away_of_not_involves (h : ¬ T.Involves vs x) (hv : v ∈ vs) : v ∈ T.away x :=
  Or.inr fun hx => h ⟨v, hv, hx⟩

theorem mem_away_iff (hv : v < T.size) : v ∈ T.away x ↔ x ∉ (T.solution v).occurrences := by
  have hold : ¬ T.size ≤ v := Nat.not_le.2 hv
  simp only [away, Set.mem_ofPred_eq, hold, false_or]

theorem not_mem_away_self (h : T.classOf x = .ok (x, none)) : x ∉ T.away x := by
  rw [mem_away_iff (lt_size_of_classOf h), solution_free h]
  simp

theorem region_away (hT : T.WellFormed) (x : TyVar) : T.Region (T.away x) := by
  constructor
  · intro v r b hclass
    have hsame : T.solution r = T.solution v :=
      (solves_solution hT).same ⟨r, b, hT.rooted hclass, hclass⟩
    rw [mem_away_iff (lt_size_of_classOf hclass), mem_away_iff (root_lt_size_of_classOf hclass),
      hsame]
  · intro v r t hclass hv w hw
    rw [mem_away_iff (lt_size_of_classOf hclass), solution_bound hT hclass] at hv
    rw [mem_away_iff (hT.covered hclass w hw)]
    exact fun hx => hv (Ty.mem_occurrences_subst.2 ⟨w, hw, hx⟩)

end Table

namespace Inference

variable {s s' s₁ s₂ : Inference} {f : Func} {scheme : Scheme} {x : TyVar}

/-- The scheme that is published quantifies all unknowns of the resolved type. -/
theorem inferFunc_scheme (hT : s.table.WellFormed) (h : inferFunc f s = .ok scheme s') :
    ∃ t, s'.table.resolve f.prototype = .ok t ∧ scheme = ⟨t.vars, t⟩ := by
  obtain ⟨t, T', hinfer, hgeneral, rfl⟩ := exists_infer (signature_of_inferFunc h) h
  have hevolved := (keeps_inferFunc f).state hT.evolved (by rw [h]; rfl)
  obtain ⟨d, _, rfl, own, hown, ht⟩ := Deduction.infer_eq_ok hinfer
  obtain ⟨u, hu, rfl⟩ := Table.generalize_eq_ok hgeneral
  obtain rfl := Func.eq_prototype hown
  obtain rfl := Table.resolve_resolve hevolved.wellFormed ht hu
  exact ⟨_, ht, rfl⟩

/-- Nothing else is published. -/
theorem env_inferFunc (h : inferFunc f s = .ok scheme s') (name : String) :
    s'.env.get? name = if name = f.name then some scheme else s.env.get? name := by
  obtain ⟨_, _, _, _, rfl⟩ := exists_infer (signature_of_inferFunc h) h
  simp only [envFor, Assoc.get?_insert, eq_comm (a := f.name)]
  split <;> rfl

/-- Before it is typed, the function has a link to the unknown: it has values, or a result,
that depend on it, or it mentions another function whose scheme uses it. -/
def Linked (s : Inference) (f : Func) (x : TyVar) : Prop :=
  s.table.Involves f.unknowns x ∨
    ∃ name used, f.Mentions name ∧ name ≠ f.name ∧ s.env.get? name = some used ∧
      s.table.Involves used.loose x

theorem within_away (hx : ¬ s.Linked f x) : f.Within (s.table.away x) :=
  fun _ hu => Table.mem_away_of_not_involves (not_or.1 hx).1 hu

/-- Typing a function leaves alone what depends on an unknown that it is not linked to. -/
theorem confined_away (hT : s.table.WellFormed) (hx : ¬ s.Linked f x)
    (h : inferFunc f s = .ok scheme s') : s.table.Confined (s.table.away x) s'.table := by
  classical
  have hwithin := within_away hx
  -- Schemes that are not mentioned may use the unknown, but they play no part.
  let env : Env := (envFor f s.env).filterKeys fun name => f.Mentions name
  have henv : env.Within (s.table.away x) := by
    intro name used hget u hu
    rw [Assoc.get?_filterKeys] at hget
    split at hget
    · rename_i hmentions
      rw [envFor, Assoc.get?_insert] at hget
      split at hget
      · obtain rfl := Option.some.inj hget
        rw [Scheme.loose_mono] at hu
        exact hwithin.prototype u hu
      · rename_i hname
        refine Table.mem_away_of_not_involves (fun hinvolves => hx (Or.inr ?_)) hu
        exact ⟨name, used, of_decide_eq_true hmentions, Ne.symm hname, hget, hinvolves⟩
    · cases hget
  have hcongr : f.infer (envFor f s.env) = f.infer env := by
    refine Deduction.infer_congr fun name hname => ?_
    rw [Assoc.get?_filterKeys, if_pos (decide_eq_true hname)]
  obtain ⟨t, T', hinfer, _, rfl⟩ := exists_infer (signature_of_inferFunc h) h
  have hend := (Deduction.local_invariant (fun v => Table.mem_away_of_size_le) hwithin henv).infer
    (.start ((Table.region_away hT x).confined hT))
  rw [← hcongr, hinfer] at hend
  obtain ⟨_, hd⟩ := hend
  exact hd.confined

/-- If typing a function quantifies an unknown that another one depends on, it comes from one
that the other depended on before and that the function was linked to, or that had not been
created. -/
theorem linked_of_captured (hT : s.table.WellFormed) (h : inferFunc f s = .ok scheme s')
    {u v : TyVar} (hv : v ∈ scheme.vars) (hvu : v ∈ (s'.table.solution u).occurrences) :
    ∃ x ∈ (s.table.solution u).occurrences, v ∈ (s'.table.solution x).occurrences ∧
      (s.table.size ≤ x ∨ s.Linked f x) := by
  by_cases hnew : s.table.size ≤ u
  · refine ⟨u, ?_, hvu, Or.inl hnew⟩
    rw [Table.solution_of_size_le hnew]
    exact Ty.mem_occurrences_var.2 rfl
  · have hold : u < s.table.size := Nat.not_le.1 hnew
    have hevolved := (keeps_inferFunc f).state hT.evolved (by rw [h]; rfl)
    rw [← hevolved.subst_solution hT hold] at hvu
    obtain ⟨x, hxu, hvx⟩ := Ty.mem_occurrences_subst.1 hvu
    refine ⟨x, hxu, hvx, Or.inr ?_⟩
    by_contra hlinked
    -- The unknown is not touched, so that it is the captured one.
    have hconfined := confined_away hT hlinked h
    have hfree := Table.free_of_mem_solution hT hold hxu
    have haway := Table.not_mem_away_self hfree
    rw [Table.solution_free ((hconfined.outside haway).2 hfree), Ty.mem_occurrences_var] at hvx
    subst hvx
    -- But the type of the function does not depend on it.
    obtain ⟨t, ht, rfl⟩ := inferFunc_scheme hT h
    have hover := hconfined.region.over_resolve hevolved.wellFormed
      (within_away hlinked).prototype ht
    exact haway (hover v (List.mem_eraseDups.1 hv))

/-- When a function of a program has been typed, its name stands for a scheme that
quantifies all unknowns left in its resolved type, and nothing else is published. An unknown
that is quantified so may occur in the resolved type of another scheme, quantified there or
not. But then it comes from one that occurred there before, and that the function was linked
to when its turn came, or that had not been created. -/
theorem inferProgram_generalizes {before : List Func} {earlier : List Scheme}
    (hs : s.table.Reachable) (hbefore : inferProgram before s = .ok earlier s₁)
    (hrun : inferFunc f s₁ = .ok scheme s₂) :
    (∃ t, s₂.table.resolve f.prototype = .ok t ∧ scheme = ⟨t.vars, t⟩) ∧
    s₂.env.get? f.name = some scheme ∧
    ∀ name other, name ≠ f.name → s₂.env.get? name = some other →
      s₁.env.get? name = some other ∧
      ∀ u ∈ other.ty.occurrences, ∀ v ∈ scheme.vars, v ∈ (s₂.table.solution u).occurrences →
        ∃ x ∈ (s₁.table.solution u).occurrences, v ∈ (s₂.table.solution x).occurrences ∧
          (s₁.table.size ≤ x ∨ s₁.Linked f x) := by
  have hevolved := (keeps_inferProgram before).state hs.wellFormed.evolved (by rw [hbefore]; rfl)
  have hT := hevolved.wellFormed
  have henv := env_inferFunc hrun
  refine ⟨inferFunc_scheme hT hrun, ?_, fun name other hname hother => ⟨?_, fun u _ v hv => ?_⟩⟩
  · rw [henv, if_pos rfl]
  · rwa [henv, if_neg hname] at hother
  · exact linked_of_captured hT hrun hv

/-- One function has been refused, and its name stands for its unknown type. Another one is
applied to what an inserted scheme gives. It captures the unknown of that scheme, which it is
linked to, and not the one that is left of the refused function. -/
theorem inferProgram_generalizes_leftover :
    ∃ (s s₁ s₂ : Inference) (env : Env) (refused identity f : Func) (published scheme : Scheme),
      s.table.Reachable ∧ (inferProgram [refused] ⟨s.table, env⟩).state? = some s ∧
      s.env.get? "given" = some (.mono (.var 0)) ∧
      s.env.get? "refused" = some (.mono (.arrow Ty.unit (.var 1))) ∧
      inferProgram [identity] s = .ok [published] s₁ ∧ inferFunc f s₁ = .ok scheme s₂ ∧
      scheme = ⟨[0], .arrow Ty.unit (.var 0)⟩ ∧ s₁.Linked f 0 ∧
      ∀ v ∈ scheme.vars, v ∉ (s₂.table.solution 1).occurrences := by
  let refused : Func :=
    { name := "refused"
      values := #[⟨.int 1, Ty.int⟩, ⟨.instr (.call 0 []), .var 2⟩]
      blocks := #[[1]], args := [], ret := .var 1 }
  let identity : Func :=
    { name := "id"
      values := #[⟨.arg 0, .var 4⟩, ⟨.instr (.ret 0), .var 5⟩]
      blocks := #[[1]], args := [0], ret := .var 3 }
  let f : Func :=
    { name := "applied"
      values := #[⟨.global "given", .var 7⟩, ⟨.global "id", .var 8⟩,
        ⟨.instr (.call 1 [0]), .var 9⟩, ⟨.instr (.ret 2), .var 10⟩]
      blocks := #[[2, 3]], args := [], ret := .var 6 }
  let env : Env := (∅ : Env).insert "given" (.mono (.var 0))
  let s : Inference :=
    ⟨Table.empty.grow 11, env.insert "refused" (.mono (.arrow Ty.unit (.var 1)))⟩
  let s₁ : Inference :=
    { table := ⟨#[⟨0, 0, none⟩, ⟨1, 0, none⟩, ⟨2, 0, none⟩, ⟨4, 0, none⟩, ⟨4, 1, none⟩,
        ⟨5, 0, none⟩, ⟨6, 0, none⟩, ⟨7, 0, none⟩, ⟨8, 0, none⟩, ⟨9, 0, none⟩, ⟨10, 0, none⟩]⟩
      env := s.env.insert "id" ⟨[4], .arrow (.var 4) (.var 4)⟩ }
  let s₂ : Inference :=
    { table := ⟨#[⟨0, 1, none⟩, ⟨1, 0, none⟩, ⟨2, 0, none⟩, ⟨4, 0, none⟩, ⟨4, 1, none⟩,
        ⟨5, 0, none⟩, ⟨0, 0, none⟩, ⟨0, 0, none⟩, ⟨8, 0, some (.arrow (.var 11) (.var 11))⟩,
        ⟨0, 0, none⟩, ⟨10, 0, none⟩, ⟨0, 0, none⟩]⟩
      env := s₁.env.insert "applied" ⟨[0], .arrow Ty.unit (.var 0)⟩ }
  have hfresh : Table.empty.fresh.2.Reachable := .tail .refl ⟨.fresh, rfl⟩
  have hrefused : (Table.empty.grow 3).Reachable :=
    hfresh.after (.build "refused" [.int 1, .instr (.call 0 [])]) rfl
  have hidentity : (Table.empty.grow 6).Reachable :=
    hrefused.after (.build "id" [.arg, .instr (.ret 0)]) rfl
  have hbuilt : (Table.empty.grow 11).Reachable :=
    hidentity.after (.build "applied" [.global "given", .global "id", .instr (.call 1 [0]),
      .instr (.ret 2)]) rfl
  have hleft : (inferProgram [refused] ⟨Table.empty.grow 11, env⟩).state? = some s := by
    decide +kernel
  have hs : s.table.Reachable :=
    hbuilt.after (.inferProgram env [refused]) (congrArg (Option.map Inference.table) hleft)
  have hbefore : inferProgram [identity] s = .ok [⟨[4], .arrow (.var 4) (.var 4)⟩] s₁ :=
    Outcome.eq_ok (by decide +kernel) (by decide +kernel)
  have hrun : inferFunc f s₁ = .ok ⟨[0], .arrow Ty.unit (.var 0)⟩ s₂ :=
    Outcome.eq_ok (by decide +kernel) (by decide +kernel)
  obtain ⟨_, _, hothers⟩ := inferProgram_generalizes hs hbefore hrun
  refine ⟨s, s₁, s₂, env, refused, identity, f, _, _, hs, hleft, rfl, rfl, hbefore, hrun, rfl, ?_,
    fun v hv hvu => ?_⟩
  · obtain ⟨x, hx, _, hlink⟩ := (hothers "given" _ (by decide) rfl).2 0 (by decide) 0 (by decide)
      (by decide +kernel)
    obtain rfl : x = 0 := Ty.mem_occurrences_var.1 hx
    exact hlink.resolve_left (by decide)
  · obtain ⟨x, hx, _, hlink⟩ := (hothers "refused" _ (by decide) rfl).2 1 (by decide) v hv hvu
    obtain rfl : x = 1 := Ty.mem_occurrences_var.1 hx
    rcases hlink with hnew | hown | ⟨name, used, ⟨w, own, _, hvalue⟩, _, hused, hinvolves⟩
    · exact absurd hnew (by decide)
    · exact absurd hown (by decide +kernel)
    · have hmem := Array.mem_of_getElem? hvalue
      have hname : name = "given" ∧ own = .var 7 ∨ name = "id" ∧ own = .var 8 := by
        simpa [f] using hmem
      rcases hname with ⟨rfl, _⟩ | ⟨rfl, _⟩
      · obtain rfl := Option.some.inj hused
        exact absurd hinvolves (by decide +kernel)
      · obtain rfl := Option.some.inj hused
        exact absurd hinvolves (by decide +kernel)

/-- A function returns another one as it is. The unknown that the scheme of the other uses
without quantifying it is captured. -/
theorem inferProgram_captures :
    ∃ (T : Table) (f : Func) (other scheme : Scheme) (s' : Inference), T.Reachable ∧
      inferProgram [f] ⟨T, (∅ : Env).insert "given" other⟩ = .ok [scheme] s' ∧
      "given" ≠ f.name ∧ s'.env.get? "given" = some other ∧
      ∃ v ∈ scheme.vars, ∃ t, s'.table.resolve other.ty = .ok t ∧ v ∈ t.occurrences ∧
        v ∉ other.vars := by
  let f : Func :=
    { name := "same"
      values := #[⟨.global "given", .var 2⟩, ⟨.instr (.ret 0), .var 3⟩]
      blocks := #[[1]], args := [], ret := .var 1 }
  let env : Env := (∅ : Env).insert "given" (.mono (.var 0))
  let reached : Inference :=
    { table := ⟨#[⟨0, 1, none⟩, ⟨0, 0, none⟩, ⟨0, 0, none⟩, ⟨3, 0, none⟩]⟩
      env := env.insert "same" ⟨[0], .arrow Ty.unit (.var 0)⟩ }
  have hfresh : Table.empty.fresh.2.Reachable := .tail .refl ⟨.fresh, rfl⟩
  have hT : (Table.empty.grow 4).Reachable :=
    hfresh.after (.build "same" [.global "given", .instr (.ret 0)]) rfl
  have hrun : inferProgram [f] ⟨Table.empty.grow 4, env⟩ =
      .ok [⟨[0], .arrow Ty.unit (.var 0)⟩] reached :=
    Outcome.eq_ok (by decide +kernel) (by decide +kernel)
  exact ⟨_, f, .mono (.var 0), _, reached, hT, hrun, by decide, rfl, 0, by decide, .var 0, rfl,
    by decide, by decide⟩

end Inference

end TypeLayer
