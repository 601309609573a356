import TypeLayer.Structural.Table

/-!
# Substitution

An assignment gives a type to every unknown, and `Ty.subst` puts these types in
place of the unknowns of a type.  This file has the laws of substitution, what
it does to the unknowns and to the size of a type, and the two walks over the
unknowns of a type (`Ty.fill` and `Ty.anyVar`) in terms of it.

The size of a type is Lean's own `sizeOf`.  It is what forbids a type to contain
itself: the type of an unknown is never larger than a type the unknown occurs
in, and smaller than an application it occurs in (`sizeOf_lt_subst_con`).
-/

namespace TypeLayer

/-- A type for every unknown. -/
abbrev Assignment := TyVar → Ty

namespace Ty

mutual
/-- Puts a type in place of each unknown. -/
def subst (s : Assignment) : Ty → Ty
  | .var v => s v
  | .con name args => .con name (substAll s args)
def substAll (s : Assignment) : List Ty → List Ty
  | [] => []
  | a :: rest => subst s a :: substAll s rest
end

theorem substAll_eq_map (s : Assignment) (ts : List Ty) : substAll s ts = ts.map (subst s) := by
  induction ts with
  | nil => rfl
  | cons t rest ih => simp [substAll, ih]

@[simp] theorem subst_var (s : Assignment) (v : TyVar) : (var v).subst s = s v := by
  rw [subst]

@[simp] theorem subst_con (s : Assignment) (name : String) (args : List Ty) :
    (con name args).subst s = .con name (args.map (subst s)) := by
  rw [subst, substAll_eq_map]

/-! ## Unknowns -/

@[simp] theorem mem_occurrences_var {v w : TyVar} : w ∈ (var v).occurrences ↔ w = v := by
  simp [occurrences]

@[simp] theorem mem_occurrences_con {name : String} {args : List Ty} {w : TyVar} :
    w ∈ (con name args).occurrences ↔ ∃ a ∈ args, w ∈ a.occurrences := by
  simp [occurrences, occurrencesAll_eq_flatMap]

theorem mem_occurrences_subst {s : Assignment} {t : Ty} {w : TyVar} :
    w ∈ (t.subst s).occurrences ↔ ∃ v ∈ t.occurrences, w ∈ (s v).occurrences := by
  induction t using Ty.induction_on with
  | var v => simp
  | con name args ih =>
    simp only [subst_con, mem_occurrences_con, List.mem_map]
    constructor
    · intro hmem
      rcases hmem with ⟨_, ⟨a, ha, rfl⟩, hw⟩
      obtain ⟨v, hv, hwv⟩ := (ih a ha).1 hw
      exact ⟨v, ⟨a, ha, hv⟩, hwv⟩
    · intro hmem
      rcases hmem with ⟨v, ⟨a, ha, hv⟩, hwv⟩
      exact ⟨a.subst s, ⟨a, ha, rfl⟩, (ih a ha).2 ⟨v, hv, hwv⟩⟩

/-! ## Laws -/

/-- Only what is assigned to the unknowns of a type counts. -/
theorem subst_congr {s s' : Assignment} {t : Ty} (h : ∀ v ∈ t.occurrences, s v = s' v) :
    t.subst s = t.subst s' := by
  induction t using Ty.induction_on with
  | var v => simpa using h
  | con name args ih =>
    simp only [subst_con, con.injEq, true_and]
    refine List.map_congr_left fun a ha => ih a ha fun v hv => ?_
    exact h v (mem_occurrences_con.2 ⟨a, ha, hv⟩)

/-- Two assignments make the same of a type exactly if they agree on its unknowns. -/
theorem subst_eq_subst_iff {s s' : Assignment} {t : Ty} :
    t.subst s = t.subst s' ↔ ∀ v ∈ t.occurrences, s v = s' v := by
  refine ⟨fun h => ?_, subst_congr⟩
  induction t using Ty.induction_on with
  | var v => simpa using h
  | con name args ih =>
    simp only [subst_con, con.injEq, true_and] at h
    intro v hv
    obtain ⟨a, ha, hv⟩ := mem_occurrences_con.1 hv
    exact ih a ha (List.map_inj_left.1 h a ha) v hv

@[simp] theorem subst_subst (s s' : Assignment) (t : Ty) :
    (t.subst s).subst s' = t.subst fun v => (s v).subst s' := by
  induction t using Ty.induction_on with
  | var v => simp
  | con name args ih =>
    simp only [subst_con, List.map_map, con.injEq, true_and]
    exact List.map_congr_left ih

@[simp] theorem subst_id (t : Ty) : t.subst var = t := by
  induction t using Ty.induction_on with
  | var v => simp
  | con name args ih =>
    simp only [subst_con, con.injEq, true_and]
    exact (List.map_congr_left ih).trans (List.map_id' args)

/-- What is assigned to unknowns that do not occur in a type leaves it alone. -/
theorem subst_eq_self {s : Assignment} {t : Ty} (h : ∀ v ∈ t.occurrences, s v = .var v) :
    t.subst s = t :=
  (subst_congr h).trans (subst_id t)

@[simp] theorem subst_arrow (s : Assignment) (a b : Ty) :
    (arrow a b).subst s = arrow (a.subst s) (b.subst s) := by
  simp [arrow]

@[simp] theorem subst_foldr_arrow (s : Assignment) (ts : List Ty) (t : Ty) :
    (ts.foldr arrow t).subst s = (ts.map (subst s)).foldr arrow (t.subst s) := by
  induction ts with
  | nil => rfl
  | cons u ts ih => simp [ih]

@[simp] theorem subst_curried (s : Assignment) (ts : List Ty) (t : Ty) :
    (curried ts t).subst s = curried (ts.map (subst s)) (t.subst s) := by
  cases ts with
  | nil => simp [curried, unit, tuple]
  | cons u ts => simp [curried]

@[simp] theorem mem_occurrences_foldr_arrow {ts : List Ty} {t : Ty} {w : TyVar} :
    w ∈ (ts.foldr arrow t).occurrences ↔
      (∃ u ∈ ts, w ∈ u.occurrences) ∨ w ∈ t.occurrences := by
  induction ts with
  | nil => simp
  | cons u ts ih => simp [arrow, ih, or_assoc]

@[simp] theorem mem_occurrences_curried {ts : List Ty} {t : Ty} {w : TyVar} :
    w ∈ (curried ts t).occurrences ↔ (∃ u ∈ ts, w ∈ u.occurrences) ∨ w ∈ t.occurrences := by
  cases ts with
  | nil => simp [curried, arrow, unit, tuple]
  | cons u ts => simp [curried, arrow, or_assoc]

/-! ## Sizes -/

theorem sizeOf_lt_con {name : String} {args : List Ty} {a : Ty} (ha : a ∈ args) :
    sizeOf a < sizeOf (con name args) := by
  have hlt : sizeOf a < sizeOf args := List.sizeOf_lt_of_mem ha
  simp only [con.sizeOf_spec]
  omega

theorem sizeOf_le_subst {s : Assignment} {t : Ty} {v : TyVar} (hv : v ∈ t.occurrences) :
    sizeOf (s v) ≤ sizeOf (t.subst s) := by
  induction t using Ty.induction_on with
  | var w =>
    obtain rfl := mem_occurrences_var.1 hv
    simp
  | con name args ih =>
    obtain ⟨a, ha, hva⟩ := mem_occurrences_con.1 hv
    have hle := ih a ha hva
    have hlt : sizeOf (a.subst s) < sizeOf ((con name args).subst s) := by
      rw [subst_con]
      exact sizeOf_lt_con (List.mem_map_of_mem ha)
    omega

/-- The type of an unknown that occurs in an application is smaller than the
application. -/
theorem sizeOf_lt_subst_con {s : Assignment} {name : String} {args : List Ty} {v : TyVar}
    (hv : v ∈ (con name args).occurrences) :
    sizeOf (s v) < sizeOf ((con name args).subst s) := by
  obtain ⟨a, ha, hva⟩ := mem_occurrences_con.1 hv
  refine Nat.lt_of_le_of_lt (sizeOf_le_subst hva) ?_
  rw [subst_con]
  exact sizeOf_lt_con (List.mem_map_of_mem ha)

/-! ## Walks over the unknowns -/

section
variable {f : TyVar → Except Fault Ty}

private theorem fillAll_of_ok {s : Assignment} {ts : List Ty}
    (h : ∀ t ∈ ts, fill f t = .ok (t.subst s)) : fillAll f ts = .ok (ts.map (subst s)) := by
  induction ts with
  | nil => rfl
  | cons t ts ih =>
    have hts := ih fun u hu => h u (List.mem_cons_of_mem t hu)
    simp [fillAll, h t List.mem_cons_self, hts]

private theorem fill_of_ok {s : Assignment} {t : Ty} (h : ∀ v ∈ t.occurrences, f v = .ok (s v)) :
    fill f t = .ok (t.subst s) := by
  induction t using Ty.induction_on with
  | var v =>
    rw [fill, subst_var]
    exact h v (by simp)
  | con name args ih =>
    have hargs : fillAll f args = .ok (args.map (subst s)) :=
      fillAll_of_ok fun a ha => ih a ha fun v hv => h v (mem_occurrences_con.2 ⟨a, ha, hv⟩)
    rw [fill, hargs, subst_con]

private theorem ok_of_fillAll {ts us : List Ty}
    (hok : ∀ t ∈ ts, ∀ u, fill f t = .ok u → ∀ v ∈ t.occurrences, ∃ w, f v = .ok w)
    (h : fillAll f ts = .ok us) : ∀ t ∈ ts, ∀ v ∈ t.occurrences, ∃ w, f v = .ok w := by
  induction ts generalizing us with
  | nil => simp
  | cons t ts ih =>
    rw [fillAll] at h
    split at h
    · cases h
    · rename_i u hu
      split at h
      · cases h
      · rename_i us' hus
        intro t' ht' v hv
        rcases List.mem_cons.1 ht' with rfl | ht'
        · exact hok t' List.mem_cons_self u hu v hv
        · exact ih (fun t ht => hok t (List.mem_cons_of_mem _ ht)) hus t' ht' v hv

private theorem ok_of_fill {t u : Ty} (h : fill f t = .ok u) :
    ∀ v ∈ t.occurrences, ∃ w, f v = .ok w := by
  induction t using Ty.induction_on generalizing u with
  | var v =>
    intro w hw
    obtain rfl := mem_occurrences_var.1 hw
    exact ⟨u, by rwa [fill] at h⟩
  | con name args ih =>
    rw [fill] at h
    split at h
    · cases h
    · rename_i us hus
      intro v hv
      obtain ⟨a, ha, hva⟩ := mem_occurrences_con.1 hv
      exact ok_of_fillAll (fun t ht u hu => ih t ht hu) hus a ha v hva

private theorem exists_answers {t : Ty} (h : ∀ v ∈ t.occurrences, ∃ u, f v = .ok u) :
    ∃ s : Assignment, ∀ v ∈ t.occurrences, f v = .ok (s v) := by
  refine ⟨fun v => match f v with
    | .ok u => u
    | .error _ => .var v, fun v hv => ?_⟩
  obtain ⟨u, hu⟩ := h v hv
  simp [hu]

/-- The walk asks for every unknown of the type, and gives the substitution of
the answers. -/
theorem fill_eq_ok_iff {t u : Ty} :
    fill f t = .ok u ↔ ∃ s, (∀ v ∈ t.occurrences, f v = .ok (s v)) ∧ u = t.subst s := by
  constructor
  · intro h
    obtain ⟨s, hs⟩ := exists_answers (ok_of_fill h)
    rw [fill_of_ok hs] at h
    exact ⟨s, hs, (Except.ok.inj h).symm⟩
  · intro hanswers
    rcases hanswers with ⟨s, hs, rfl⟩
    exact fill_of_ok hs

theorem exists_fill {t : Ty} (h : ∀ v ∈ t.occurrences, ∃ u, f v = .ok u) :
    ∃ u, fill f t = .ok u := by
  obtain ⟨s, hs⟩ := exists_answers h
  exact ⟨t.subst s, fill_of_ok hs⟩

end

section
variable {test : TyVar → Except Fault Bool}

private theorem anyVarAll_of_ok {ts : List Ty} (h : ∀ t ∈ ts, ∃ b, anyVar test t = .ok b) :
    ∃ b, anyVarAll test ts = .ok b := by
  induction ts with
  | nil => exact ⟨false, rfl⟩
  | cons t ts ih =>
    obtain ⟨b, hb⟩ := h t List.mem_cons_self
    obtain ⟨c, hc⟩ := ih fun u hu => h u (List.mem_cons_of_mem t hu)
    cases b with
    | true => exact ⟨true, by simp [anyVarAll, hb]⟩
    | false => exact ⟨c, by simp [anyVarAll, hb, hc]⟩

theorem anyVar_of_ok {t : Ty} (h : ∀ v ∈ t.occurrences, ∃ b, test v = .ok b) :
    ∃ b, anyVar test t = .ok b := by
  induction t using Ty.induction_on with
  | var v =>
    rw [anyVar]
    exact h v (by simp)
  | con name args ih =>
    rw [anyVar]
    exact anyVarAll_of_ok fun a ha => ih a ha fun v hv => h v (mem_occurrences_con.2 ⟨a, ha, hv⟩)

private theorem exists_of_anyVarAll {ts : List Ty} (h : anyVarAll test ts = .ok true) :
    ∃ t ∈ ts, anyVar test t = .ok true := by
  induction ts with
  | nil => cases h
  | cons t ts ih =>
    rw [anyVarAll] at h
    split at h
    · cases h
    · rename_i ht
      exact ⟨t, List.mem_cons_self, ht⟩
    · obtain ⟨u, hu, htest⟩ := ih h
      exact ⟨u, List.mem_cons_of_mem t hu, htest⟩

theorem exists_of_anyVar {t : Ty} (h : anyVar test t = .ok true) :
    ∃ v ∈ t.occurrences, test v = .ok true := by
  induction t using Ty.induction_on with
  | var v =>
    rw [anyVar] at h
    exact ⟨v, by simp, h⟩
  | con name args ih =>
    rw [anyVar] at h
    obtain ⟨a, ha, htest⟩ := exists_of_anyVarAll h
    obtain ⟨v, hv, hvtest⟩ := ih a ha htest
    exact ⟨v, mem_occurrences_con.2 ⟨a, ha, hv⟩, hvtest⟩

private theorem all_of_anyVarAll {ts : List Ty} (h : anyVarAll test ts = .ok false) :
    ∀ t ∈ ts, anyVar test t = .ok false := by
  induction ts with
  | nil => simp
  | cons t ts ih =>
    rw [anyVarAll] at h
    split at h
    · cases h
    · cases h
    · rename_i ht
      intro u hu
      rcases List.mem_cons.1 hu with rfl | hu
      · exact ht
      · exact ih h u hu

/-- A walk that finds nothing has asked for every unknown of the type. -/
theorem all_of_anyVar {t : Ty} (h : anyVar test t = .ok false) :
    ∀ v ∈ t.occurrences, test v = .ok false := by
  induction t using Ty.induction_on with
  | var v =>
    rw [anyVar] at h
    intro w hw
    obtain rfl := mem_occurrences_var.1 hw
    exact h
  | con name args ih =>
    rw [anyVar] at h
    intro v hv
    obtain ⟨a, ha, hva⟩ := mem_occurrences_con.1 hv
    exact ih a ha (all_of_anyVarAll h a ha) v hva

end

end Ty

end TypeLayer
